import RiscvPipeline.Proofs.Instants
import RiscvPipeline.Proofs.Memory.Drain
import RiscvPipeline.Proofs.Memory.Requests

/-!
# The traffic between the memory-access stage and the data memory

Both sides decide for themselves whether a request passes between them. `Paired` says what the two
have come to in the cycles since the last reset: they agree on every request, so the memory accepts
what the execute stage has handed over, in that order and nothing twice. The contents of the memory
are told by a log of what has reached it (`Machine.memoryLog`), which no reset interrupts.
-/

namespace RiscvPipeline

theorem MemoryAccess.request_squash (e : QueueEntry) (b ready : Bool) :
    request (e.squash b) ready = request e ready := rfl

theorem DataMemory.accepted_propose (d : DataMemory) (q : MemoryRequest) :
    (d.propose q).accepted = if d.accepts q then some q else none := by
  unfold propose accepts
  cases d.registers.phase with
  | idle => cases h : q.valid && d.ready <;> simp [h]
  | _ => rfl

/-! ## Requests -/

namespace Instant

variable (t : Instant)

/-- The request that the data memory accepts. -/
def memoryRequest? : Option MemoryRequest :=
  (t.machine.memory.propose t.signals.access.bus).accepted

/-- The operation that the execute stage hands over. -/
def memoryOp? : Option MemoryOp := t.signals.execute.memoryOp

/-- The cycle, as the memory-access stage sees it. -/
def accessMoment : Moment MemoryAccess MemoryAccess.Input :=
  ⟨t.machine.access, Machine.accessInput t.signals⟩

theorem memoryRequest?_eq : t.memoryRequest? =
    if t.machine.memory.accepts t.signals.access.bus then some t.signals.access.bus else none :=
  DataMemory.accepted_propose ..

variable {t}

theorem pushed?_accessMoment (hw : t.machine.Settled t.signals) :
    MemoryAccess.pushed? t.accessMoment = t.memoryOp?.map .ofMemoryOp := by
  have h := congrArg List.head? (MemoryAccess.pushed?_eq.trans hw.admitted)
  rwa [Option.head?_toList, Option.head?_toList] at h

theorem accepted?_of_memoryOp? (hw : t.machine.Settled t.signals) {p : MemoryOp}
    (h : t.memoryOp? = some p) : ∃ d, t.accepted? = some d ∧
      (d.opcode.cls = .load ∨ d.opcode.cls = .store) ∧
        p = Execute.memoryOp d (t.machine.executeInput t.signals) t.machine.execute.state.tag := by
  unfold memoryOp? at h
  rw [hw.execute] at h
  obtain ⟨hv, d, ho, hcls, hp⟩ := Execute.accepted_of_memoryOp h
  rw [← hw.execute] at hv
  exact ⟨d, t.accepted?_eq_some.2 ⟨hv, ho.instruction⟩, hcls, hp⟩

end Instant

namespace Machine

variable {m : Machine} {w : Signals} {ts : List Instant}

/-- The last request that the memory has accepted is that of the operation on the bus, and it is
this one that the memory answers. -/
def Outstanding (ts : List Instant) (m : Machine) : Prop :=
  let q := MemoryAccess.request m.access.current false
  ∃ before t later, ts = before ++ t :: later ∧ t.memoryRequest? = some q ∧
    (∀ u ∈ later, u.memoryRequest? = none) ∧
      m.memory.registers.response = t.machine.memory.respond q

/-- The stage and the memory after the cycles `ts`. -/
structure Paired (ts : List Instant) (m : Machine) : Prop where
  lockStep : LockStep m.access m.memory
  outstanding : m.access.phase = .waiting → Outstanding ts m
  flow : ∃ done rest, MemoryAccess.Flow done rest (ts.map Instant.accessMoment) m.access
  requests : ts.filterMap Instant.memoryRequest? =
    (ts.map Instant.accessMoment).filterMap MemoryAccess.sent?
  operations : (MemoryAccess.pushes (ts.map Instant.accessMoment)).map (·.2) =
    (ts.filterMap Instant.memoryOp?).map .ofMemoryOp

namespace Paired

theorem of_cleared (hm : m.Cleared) : Paired [] m where
  lockStep := by
    rw [hm.access]
    exact (LockStep.reset (d := m.memory)).of_registers hm.memory
  outstanding := by
    rw [hm.access]
    rintro ⟨⟩
  flow := by
    rw [hm.access]
    exact ⟨[], [], .empty⟩
  requests := rfl
  operations := rfl

theorem of_alike {n : Machine} (h : Paired ts m) (ha : Alike m n) : Paired ts n where
  lockStep := by
    rw [ha.access]
    exact h.lockStep.of_registers ha.memory
  outstanding := by
    unfold Outstanding
    rw [ha.access, ha.memory]
    exact h.outstanding
  flow := by
    rw [ha.access]
    exact h.flow
  requests := h.requests
  operations := h.operations

/-- The two sides agree on the request that passes in a cycle. -/
theorem sent?_eq (h : Paired ts m) (hw : m.Settled w) :
    MemoryAccess.sent? (Instant.accessMoment ⟨m, w⟩) = Instant.memoryRequest? ⟨m, w⟩ := by
  have hout : (MemoryAccess.output (Instant.accessMoment ⟨m, w⟩)).bus = w.access.bus :=
    congrArg (·.bus) hw.access.symm
  have hbus : w.memory = m.memory.output w.access.bus := hw.memory
  have hready : (Instant.accessMoment ⟨m, w⟩).input.bus.ready = w.memory.ready := rfl
  unfold MemoryAccess.sent?
  rw [Instant.memoryRequest?_eq, hout, hready, hbus]
  dsimp only
  cases h.lockStep.joint hbus (hw.turn h.lockStep.wf) with
  | accepted e l hd _ _ ha ho =>
    have hr : m.memory.ready = true := by
      simp only [DataMemory.accepts, Bool.and_eq_true] at ha
      exact ha.2
    rw [ha, DataMemory.output, hd]
    simp [ho, hr, MemoryAccess.request, MemoryRequest.content]
  | refused hd _ ha =>
    have hr : (w.access.bus.valid && m.memory.ready) = false := by
      simpa [DataMemory.accepts, hd] using ha
    rw [ha, DataMemory.output, hd]
    simp [hr]
  | busy k hd =>
    have ha : m.memory.accepts w.access.bus = false := by simp [DataMemory.accepts, hd]
    rw [ha, DataMemory.output, hd]
    simp
  | answered hd =>
    have ha : m.memory.accepts w.access.bus = false := by simp [DataMemory.accepts, hd]
    have hr := h.lockStep.ready (by rw [hd]; simp)
    rw [ha, DataMemory.output, hd]
    simp [hr]

/-- A request is outstanding from the cycle in which it is accepted to the one in which it is
answered. -/
theorem outstanding_advance (h : Paired ts m) (hr : m.reset = false) (hw : m.Settled w)
    (hn : (m.advance w).access.phase = .waiting) :
    Outstanding (ts ++ [⟨m, w⟩]) (m.advance w) := by
  unfold Outstanding
  rw [advance_access hr] at hn ⊢
  rw [advance_memory hr]
  cases h.lockStep.joint hw.memory (hw.turn h.lockStep.wf) with
  | accepted e l hd _ _ ha ho _ hc =>
    refine ⟨ts, ⟨m, w⟩, [], rfl, ?_, (fun _ hu => nomatch hu), ?_⟩
    · rw [Instant.memoryRequest?_eq, if_pos ha, ho, hc, MemoryAccess.request_squash]
    · rw [DataMemory.next_of_accepts ha, DataMemory.accept_response, hc,
        MemoryAccess.request_squash, ← ho]
  | refused _ _ _ hx => exact absurd hn hx
  | busy k hd hs _ _ hc =>
    obtain ⟨before, t, later, rfl, ht, hlater, hresponse⟩ := h.outstanding hs
    refine ⟨before, t, later ++ [⟨m, w⟩], by simp, ?_, ?_, ?_⟩
    · rw [hc, MemoryAccess.request_squash, ht]
    · intro u hu
      rcases List.mem_append.1 hu with hu | hu
      · exact hlater u hu
      · rw [List.mem_singleton.1 hu]
        simp [Instant.memoryRequest?_eq, DataMemory.accepts, hd]
    · rw [hc, MemoryAccess.request_squash, DataMemory.next_busy hd]
      exact hresponse
  | answered _ _ _ hx => exact absurd hn hx

theorem advance (h : Paired ts m) (hr : m.reset = false) (hw : m.Settled w) :
    Paired (ts ++ [⟨m, w⟩]) (m.advance w) := by
  have hmap : (ts ++ [Instant.mk m w]).map Instant.accessMoment =
      ts.map Instant.accessMoment ++ [⟨m.access, accessInput w⟩] := List.map_append
  constructor
  case lockStep =>
    rw [advance_access hr, advance_memory hr]
    exact h.lockStep.step hw.memory (hw.turn h.lockStep.wf)
  case outstanding => exact h.outstanding_advance hr hw
  case flow =>
    obtain ⟨done, rest, hflow⟩ := h.flow
    rw [hmap, advance_access hr]
    obtain ⟨-, -, hn⟩ | ⟨p, left, -, -, -, -, hn⟩ := hflow.step (i := accessInput w)
    · exact ⟨_, _, hn⟩
    · exact ⟨_, _, hn⟩
  case requests =>
    rw [hmap, filterMap_concat, filterMap_concat, h.requests, ← h.sent?_eq hw]
    rfl
  case operations =>
    have hp : MemoryAccess.pushed? ⟨m.access, accessInput w⟩ = _ :=
      Instant.pushed?_accessMoment (t := ⟨m, w⟩) hw
    have ho := h.operations
    unfold MemoryAccess.pushes at ho ⊢
    rw [hmap, numbered_concat, filterMap_concat, List.map_append, List.map_append, ho, hp]
    cases Instant.memoryOp? ⟨m, w⟩ <;> rfl

end Paired

theorem paired_after (h : List Stimulus) (hm : m.Cleared) : Paired (m.cycles h) (m.after h) :=
  Tracker.holds (P := fun m ts => Paired ts m) (fun _ _ _ hn _ _ => .of_cleared hn)
    (fun _ _ _ ha hm => hm.of_alike ha) (fun _ _ _ hr hw hm => hm.advance hr hw) h (.of_cleared hm)

/-! ## Contents -/

/-- What reaches the data memory. -/
inductive MemoryEvent
  /-- A request is accepted. -/
  | accepted (q : MemoryRequest)
  /-- A doubleword is written from outside. -/
  | poked (addr value : Word)
  /-- Bytes are written from outside. -/
  | loaded (addr : Word) (b : List (BitVec 8))

namespace MemoryEvent

def request? : MemoryEvent → Option MemoryRequest
  | .accepted q => some q
  | _ => none

/-- The contents after an event, with memory from `base` on. Of the requests only writes that lie in
memory change them. -/
def apply (base : Word) (r : Ram) : MemoryEvent → Ram
  | .accepted q => if q.write then r.storeAt base q.addr q.data q.strobes else r
  | .poked addr value => r.storeAt base addr value (BitVec.allOnes 8)
  | .loaded addr b => ((r.offset? base addr).bind fun n => r.load? n b).getD r

end MemoryEvent

/-- What a stimulus brings to the data memory. -/
def memoryEvents (m : Machine) : Stimulus → List MemoryEvent
  | .tick =>
    match m.settle with
    | .ok w =>
      if m.reset then [] else ((Instant.mk m w).memoryRequest?.map .accepted).toList
    | .error _ => []
  | .poke addr value => [.poked addr value]
  | .bytes addr b => [.loaded addr b]
  | _ => []

/-- What has reached the data memory in a history, resets or not. -/
def memoryLog (m : Machine) : List Stimulus → List MemoryEvent
  | [] => []
  | e :: h => m.memoryEvents e ++ (m.apply e).memoryLog h

theorem memoryLog_concat (m : Machine) (h : List Stimulus) (e : Stimulus) :
    m.memoryLog (h ++ [e]) = m.memoryLog h ++ (m.after h).memoryEvents e := by
  induction h generalizing m with
  | nil => exact List.append_nil _
  | cons f h ih => rw [List.cons_append, memoryLog, ih, memoryLog, List.append_assoc, after_cons]

theorem next_ram (d : DataMemory) (q : MemoryRequest) : (d.next q).ram =
    if d.accepts q then MemoryEvent.apply d.base d.ram (.accepted q) else d.ram := by
  cases ha : d.accepts q with
  | true =>
    rw [DataMemory.next_of_accepts ha, DataMemory.accept_ram]
    rfl
  | false => exact DataMemory.next_ram ha

/-- The contents change by what a stimulus brings. -/
theorem apply_ram (m : Machine) (e : Stimulus) : (m.apply e).memory.base = m.memory.base ∧
    (m.apply e).memory.ram =
      (m.memoryEvents e).foldl (MemoryEvent.apply m.memory.base) m.memory.ram := by
  cases e with
  | tick =>
    unfold apply memoryEvents tick
    cases m.settle with
    | error e => exact ⟨rfl, rfl⟩
    | ok w =>
      dsimp only
      cases hr : m.reset with
      | true => simp [advance, clock, Clocked.next, hr, DataMemory.clocked, DataMemory.reset]
      | false =>
        rw [advance_memory hr, next_ram, Instant.memoryRequest?_eq]
        refine ⟨DataMemory.next_base, ?_⟩
        cases m.memory.accepts w.access.bus <;> rfl
  | reset level =>
    unfold apply memoryEvents setReset
    dsimp only
    split <;> exact ⟨rfl, rfl⟩
  | poke addr value =>
    have hs := DataMemory.store?_getD (d := m.memory) addr value (BitVec.allOnes 8)
    exact ⟨congrArg (·.base) hs, congrArg (·.ram) hs⟩
  | bytes addr b =>
    show ((m.memory.load? addr b).getD m.memory).base = m.memory.base ∧
      ((m.memory.load? addr b).getD m.memory).ram =
        ((m.memory.offset? addr).bind fun n => m.memory.ram.load? n b).getD m.memory.ram
    unfold DataMemory.load?
    cases m.memory.offset? addr with
    | none => exact ⟨rfl, rfl⟩
    | some n =>
      dsimp only [Option.bind_some]
      cases m.memory.ram.load? n b <;> exact ⟨rfl, rfl⟩
  | _ => exact ⟨rfl, rfl⟩

theorem after_ram (m : Machine) (h : List Stimulus) : (m.after h).memory.ram =
    (m.memoryLog h).foldl (MemoryEvent.apply m.memory.base) m.memory.ram := by
  induction h generalizing m with
  | nil => rfl
  | cons e h ih =>
    obtain ⟨hbase, hram⟩ := m.apply_ram e
    rw [after_cons, ih, memoryLog, List.foldl_append, hbase, hram]

/-- The requests since the last reset are the last ones of the log. -/
theorem memoryRequests_suffix (m : Machine) (h : List Stimulus) :
    (m.cycles h).filterMap Instant.memoryRequest? <:+
      (m.memoryLog h).filterMap MemoryEvent.request? := by
  induction h using List.reverseRecOn with
  | nil => exact List.suffix_rfl
  | append_singleton h e ih =>
    rw [memoryLog_concat, List.filterMap_append, cycles_concat]
    obtain ⟨earlier, hearlier⟩ := ih
    have hkept : (m.cycles h).filterMap Instant.memoryRequest? <:+
        (m.memoryLog h).filterMap MemoryEvent.request? ++ [] := by
      rw [List.append_nil]
      exact ⟨earlier, hearlier⟩
    cases e with
    | tick =>
      unfold Tracker.follow memoryEvents
      cases (m.after h).settle with
      | error e => exact hkept
      | ok w =>
        dsimp only
        cases (m.after h).reset with
        | true => exact List.nil_suffix
        | false =>
          show (m.cycles h ++ [_]).filterMap Instant.memoryRequest? <:+ _
          rw [filterMap_concat, ← hearlier]
          refine ⟨earlier, ?_⟩
          rw [List.append_assoc]
          cases Instant.memoryRequest? ⟨m.after h, w⟩ <;> rfl
    | reset level =>
      unfold Tracker.follow
      dsimp only
      split
      · exact List.nil_suffix
      · exact hkept
    | _ => exact hkept

/-! ## In step -/

/-- What the stage and the memory of `m` have come to in the cycles `ts`. -/
structure InStep (ts : List Instant) (m : Machine) : Prop where
  waiting : m.access.phase = .waiting ↔ m.memory.registers.phase ≠ .idle
  free : m.access.phase ≠ .holding
  outstanding : m.access.phase = .waiting → Outstanding ts m
  matched : ∀ n, let i := accessInput (m.evaluate^[n] {})
    m.access.leaves i = true → m.access.mismatched i = false
  handed : ∀ t ∈ ts, ∀ p, t.memoryOp? = some p → ∃ d, t.accepted? = some d ∧
    (d.opcode.cls = .load ∨ d.opcode.cls = .store) ∧
      p = Execute.memoryOp d (t.machine.executeInput t.signals) t.machine.execute.state.tag
  ordered : ts.filterMap Instant.memoryRequest? <+:
    (ts.filterMap Instant.memoryOp?).map fun p => MemoryAccess.request (.ofMemoryOp p) false
  drained : m.access.isDrained = true → ts.filterMap Instant.memoryRequest? =
    (ts.filterMap Instant.memoryOp?).map fun p => MemoryAccess.request (.ofMemoryOp p) false

/-- No evaluation of a cycle sees an answer to another request. -/
theorem Paired.matched (h : Paired ts m) (n : Nat)
    (hl : m.access.leaves (accessInput (m.evaluate^[n] {})) = true) :
    m.access.mismatched (accessInput (m.evaluate^[n] {})) = false := by
  cases n with
  | zero =>
    have hv : (accessInput {}).bus.valid = false := rfl
    rw [Function.iterate_zero_apply, MemoryAccess.leaves, hv, Bool.and_false] at hl
    cases hl
  | succ n =>
    rw [Function.iterate_succ_apply'] at hl ⊢
    exact h.lockStep.mismatched_eq (q := (m.evaluate^[n] {}).access.bus) rfl hl

theorem inStep_after (h : List Stimulus) (hm : m.Cleared) : InStep (m.cycles h) (m.after h) := by
  have hp := paired_after h hm
  obtain ⟨done, rest, hflow⟩ := hp.flow
  obtain ⟨hordered, -, hdrained⟩ := hflow.fifo
  have hops : (MemoryAccess.pushes ((m.cycles h).map Instant.accessMoment)).map
      (fun p => MemoryAccess.request p.2 false) =
        ((m.cycles h).filterMap Instant.memoryOp?).map
          fun p => MemoryAccess.request (.ofMemoryOp p) false := by
    have ho := congrArg (List.map (MemoryAccess.request · false)) hp.operations
    rwa [List.map_map, List.map_map] at ho
  rw [← hp.requests, hops] at hordered hdrained
  constructor
  case waiting => exact hp.lockStep.phase
  case free => exact hp.lockStep.wf.phase
  case outstanding => exact hp.outstanding
  case matched => exact hp.matched
  case handed =>
    intro t ht p htp
    obtain ⟨before, later, hc⟩ := List.append_of_mem ht
    obtain ⟨-, hw, -⟩ := of_cycles_eq hc
    exact Instant.accepted?_of_memoryOp? hw htp
  case ordered => exact hordered
  case drained => exact fun hd => (hdrained hd).1

/-- The memory-access stage and the data memory stay in step, and the contents of the memory are
what the requests and the writes from outside have made of them, in the order of the log, in which
the requests are in program order. -/
theorem memory_in_step {writable : String → Bool} {c : Config} {p : Program} {m₀ : Machine}
    (hnew : Machine.new writable c p = .ok m₀) (h : List Stimulus) :
    InStep (m₀.cycles h) (m₀.after h) ∧
      (m₀.after h).memory.ram =
        (m₀.memoryLog h).foldl (MemoryEvent.apply m₀.memory.base) m₀.memory.ram ∧
      (m₀.cycles h).filterMap Instant.memoryRequest? <:+
        (m₀.memoryLog h).filterMap MemoryEvent.request? := by
  obtain ⟨-, rfl⟩ := eq_ofConfig_of_new hnew
  exact ⟨inStep_after h (cleared_ofConfig c p), after_ram _ h, memoryRequests_suffix _ h⟩

/-- Two stores with a call behind them, whose trap comes before the memory has accepted the second
store. -/
def storing : Program :=
  { instructions := #[{ pc := resetVector, word := 0x00532023, opcode := .sw },
      { pc := resetVector + 4, word := 0x00532423, opcode := .sw },
      { pc := resetVector + 8, word := 0x00000073, opcode := .ecall }] }

theorem memory_in_step_storing :
    let m₀ := ofConfig { memory := { latency := 4 } } storing
    let h : List Stimulus := [.register 5 7, .register 6 0x10000000] ++ .replicate 12 .tick
    let stores := (m₀.cycles h).filterMap Instant.memoryOp?
    (∃ t ∈ m₀.cycles h, t.traps = true ∧ t.machine.access.queue.isEmpty = false) ∧
      (m₀.after h).access.isDrained = true ∧ stores.map (·.addr) = [0x10000000, 0x10000008] ∧
      (m₀.cycles h).filterMap Instant.memoryRequest? =
        stores.map (fun p => MemoryAccess.request (.ofMemoryOp p) false) ∧
      (m₀.after h).memory.ram.read? 8 = some 7 := by
  intro m₀ h stores
  have hnew : Machine.new (fun _ => true) { memory := { latency := 4 } } storing = .ok m₀ := rfl
  have hd : (m₀.after h).access.isDrained = true := by decide +kernel
  obtain ⟨hstep, hram, -⟩ := memory_in_step hnew h
  refine ⟨by decide +kernel, hd, by decide +kernel, hstep.drained hd, ?_⟩
  rw [hram]
  decide +kernel

end Machine

end RiscvPipeline
