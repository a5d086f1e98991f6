import RiscvPipeline.Memory.Data
import RiscvPipeline.Proofs.Memory.Access

/-! The memory-access stage and the data memory in step: the memory is at work on exactly the
operation for which the stage waits. -/

namespace RiscvPipeline

namespace DataMemory

variable {d : DataMemory} {q : MemoryRequest}

/-- A request is accepted in this cycle. -/
def accepts (d : DataMemory) (q : MemoryRequest) : Bool :=
  d.registers.phase == .idle && q.valid && d.ready

/-- The memory after a cycle. -/
def next (d : DataMemory) (q : MemoryRequest) : DataMemory := d.edge (d.propose q)

theorem next_of_accepts (h : d.accepts q = true) :
    d.next q = accept { d with registers :=
      { d.registers with tick := d.registers.tick + 1, response := d.respond q } } q := by
  simp only [accepts, Bool.and_eq_true, beq_iff_eq] at h
  simp [next, edge, propose, h]

theorem next_idle (hp : d.registers.phase = .idle) (h : d.accepts q = false) :
    d.next q = { d with registers := { d.registers with tick := d.registers.tick + 1 } } := by
  have h : (q.valid && d.ready) = false := by simpa [accepts, hp] using h
  simp [next, edge, propose, hp, h]

theorem next_busy {n : Nat} (hp : d.registers.phase = .busy n) :
    d.next q = { d with registers := { d.registers with
      tick := d.registers.tick + 1
      phase := if n ≤ 1 then .responding else .busy (n - 1) } } := by
  simp [next, edge, propose, hp]

theorem next_responding (hp : d.registers.phase = .responding) (hr : q.ready = true) :
    d.next q = { d with registers := { d.registers with
      tick := d.registers.tick + 1
      phase := .idle } } := by
  simp [next, edge, propose, hp, hr]

/-- The contents of the memory after a write, which outside the region has no effect. -/
def stored (d : DataMemory) (addr value : Word) (strobes : BitVec 8) : Ram :=
  ((d.offset? addr.alignDown).bind fun n => d.ram.write? n value strobes).getD d.ram

theorem store?_getD (addr value : Word) (strobes : BitVec 8) :
    (d.store? addr value strobes).getD d = { d with ram := d.stored addr value strobes } := by
  unfold store? stored
  cases d.offset? addr.alignDown with
  | none => rfl
  | some n =>
    simp only [Option.bind_some]
    cases d.ram.write? n value strobes <;> rfl

theorem load?_getD (addr : Word) (l : List (BitVec 8)) : (d.load? addr l).getD d =
    { d with ram := ((d.offset? addr).bind (d.ram.load? · l)).getD d.ram } := by
  unfold load?
  cases d.offset? addr with
  | none => rfl
  | some n =>
    simp only [Option.bind_some]
    cases d.ram.load? n l <;> rfl

variable (d q) in
theorem accept_eq : d.accept q =
    { d with
      registers := { d.registers with
        phase := if (d.timing.access q.addr).1 ≤ 1 then .responding
          else .busy ((d.timing.access q.addr).1 - 1) }
      ram := if q.write then d.stored q.addr q.data q.strobes else d.ram
      timing := (d.timing.access q.addr).2
      requests := d.requests + 1 } := by
  unfold accept
  rw [store?_getD]
  cases q.write <;> rfl

theorem accept_phase : (d.accept q).registers.phase ≠ .idle := by
  rw [accept_eq]
  dsimp only
  split <;> simp

theorem accept_ram : (d.accept q).ram =
    if q.write then d.stored q.addr q.data q.strobes else d.ram := by
  rw [accept_eq]

theorem accept_base : (d.accept q).base = d.base := by rw [accept_eq]

theorem accept_response : (d.accept q).registers.response = d.registers.response := by
  rw [accept_eq]

/-- Without an accepted request a cycle changes the phase and the cycle count. -/
theorem next_of_not_accepts (h : d.accepts q = false) : ∃ p, d.next q = { d with
    registers := { d.registers with tick := d.registers.tick + 1, phase := p } } := by
  cases hp : d.registers.phase with
  | idle => exact ⟨.idle, by rw [next_idle hp h, ← hp]⟩
  | busy n => exact ⟨_, next_busy hp⟩
  | responding =>
    refine ⟨if q.ready then .idle else .responding, ?_⟩
    cases hq : q.ready <;> simp [next, edge, propose, hp, hq]

theorem next_ram (h : d.accepts q = false) : (d.next q).ram = d.ram := by
  obtain ⟨p, hn⟩ := next_of_not_accepts h
  rw [hn]

@[simp] theorem next_base : (d.next q).base = d.base := by
  cases h : d.accepts q with
  | true => rw [next_of_accepts h, accept_base]
  | false =>
    obtain ⟨p, hn⟩ := next_of_not_accepts h
    rw [hn]

end DataMemory

/-- The stage waits for an answer exactly while the memory is at work, and the answer is to the
operation on the bus. -/
structure LockStep (s : MemoryAccess) (d : DataMemory) : Prop where
  wf : s.WF
  phase : s.phase = .waiting ↔ d.registers.phase ≠ .idle
  valid : d.registers.phase ≠ .idle → d.registers.response.valid = true
  ready : d.registers.phase ≠ .idle → d.registers.response.ready = false
  addr : d.registers.phase ≠ .idle → d.registers.response.addr = s.current.addr

namespace LockStep

open MemoryAccess

variable {s : MemoryAccess} {d : DataMemory} {i : Input} {q : MemoryRequest}

/-- The operation on the bus is answered when the memory responds. -/
theorem leaves_iff (h : LockStep s d) (hb : i.bus = d.output q) :
    s.leaves i = true ↔ d.registers.phase = .responding := by
  have hp := h.phase
  have hv := h.valid
  unfold leaves
  rw [hb]
  unfold DataMemory.output
  cases hd : d.registers.phase with
  | idle => simp
  | busy n => simp
  | responding =>
    rw [hd] at hp hv
    simp [hp.2 (by simp), hv]

theorem bus_of_leaves (h : LockStep s d) (hb : i.bus = d.output q) (hl : s.leaves i = true) :
    i.bus = d.registers.response := by
  rw [hb]
  unfold DataMemory.output
  rw [(h.leaves_iff hb).1 hl]

/-- An answer is never for another operation than the one on the bus. -/
theorem mismatched_eq (h : LockStep s d) (hb : i.bus = d.output q) (hl : s.leaves i = true) :
    s.mismatched i = false := by
  have hd := (h.leaves_iff hb).1 hl
  unfold mismatched
  rw [h.bus_of_leaves hb hl, h.addr (by rw [hd]; simp)]
  simp

theorem squashed_eq (h : LockStep s d) (hb : i.bus = d.output q) (hl : s.leaves i = true) :
    s.squashed i = (s.current.flushed || i.flush) := by
  simp [squashed, h.mismatched_eq hb hl]

variable (s d i) in
/-- The ways in which a cycle of the stage and the memory goes. -/
inductive Joint (n : MemoryAccess) (o : Output) : Prop
  | accepted (e : QueueEntry) (l : List QueueEntry) (hd : d.registers.phase = .idle)
      (hs : s.phase ≠ .waiting) (hi : s.inFlight = e :: l) (ha : d.accepts o.bus = true)
      (ho : o.bus = request e false) (hn : n.phase = .waiting)
      (hc : n.current = e.squash i.flush)
      (hq : n.queue.toList = (l ++ s.admitted i).map (·.squash i.flush))
  | refused (hd : d.registers.phase = .idle) (hs : s.phase ≠ .waiting)
      (ha : d.accepts o.bus = false) (hn : n.phase ≠ .waiting)
  | busy (k : Nat) (hd : d.registers.phase = .busy k) (hs : s.phase = .waiting)
      (hl : s.leaves i = false) (hn : n.phase = .waiting)
      (hc : n.current = s.current.squash i.flush)
      (hq : n.queue.toList = (s.queue.toList ++ s.admitted i).map (·.squash i.flush))
  | answered (hd : d.registers.phase = .responding) (hl : s.leaves i = true)
      (hr : o.bus.ready = true) (hn : n.phase ≠ .waiting)

/-- While the memory is idle, the stage puts its oldest operation on the bus. -/
theorem asks_eq_head? (hs : s.phase ≠ .waiting) (hw : s.WF) :
    s.asks i = s.inFlight.head? ∧
      (if s.frees i then s.queue.toList.tail else s.queue.toList) = s.inFlight.tail := by
  have hl : s.leaves i = false := by simp [leaves, hs]
  cases hp : s.phase with
  | idle =>
    have hf : s.frees i = true := by simp [frees, hp]
    simp [asks, inFlight, hp, hf]
  | requesting =>
    have hf : s.frees i = false := by simp [frees, hp, hl]
    simp [asks, inFlight, hp, hf]
  | waiting => exact absurd hp hs
  | holding => exact absurd hp hw.phase

theorem joint (h : LockStep s d) (hb : i.bus = d.output q) {n : MemoryAccess} {o : Output}
    (ht : s.Turn i n o) : Joint s d i n o := by
  have hs := h.phase
  have hl := h.leaves_iff hb
  have hn := ht.phase
  have ho := ht.bus
  cases hd : d.registers.phase with
  | idle =>
    have hw : s.phase ≠ .waiting := fun hc => hs.1 hc hd
    have hr : i.bus.ready = d.ready := by rw [hb, DataMemory.output, hd]
    have hwb : (s.phase == .waiting) = false := by simp [hw]
    obtain ⟨ha, hq⟩ := asks_eq_head? (i := i) hw h.wf
    cases hi : s.inFlight with
    | nil =>
      rw [hi] at ha
      rw [ha] at ho hn
      refine .refused hd hw (by simp [DataMemory.accepts, ho]) ?_
      have hp : s.phase = .idle := by
        by_cases hp : s.phase = .idle
        · exact hp
        · simp [inFlight, hp] at hi
      have hf : s.frees i = true := by simp [frees, hp]
      rw [hn, hf]
      simp
    | cons e l =>
      rw [hi] at ha
      rw [ha] at ho hn
      cases hrd : d.ready with
      | true =>
        refine .accepted e l hd hw hi ?_ ?_ ?_ ?_ ?_
        · simp [DataMemory.accepts, hd, hrd, ho, request]
        · rw [ho, hwb]
          rfl
        · rw [hn, hr, hrd]
          rfl
        · rw [ht.current, ha]
          rfl
        · rw [ht.queue, hq, hi]
          rfl
      | false =>
        refine .refused hd hw (by simp [DataMemory.accepts, hrd]) ?_
        rw [hn, hr, hrd]
        simp
  | busy k =>
    have hw : s.phase = .waiting := hs.2 (by rw [hd]; simp)
    have hlf : s.leaves i = false := by
      rw [Bool.eq_false_iff, Ne, hl, hd]
      simp
    have hf : s.frees i = false := by simp [frees, hw, hlf]
    have ha : s.asks i = none := by simp [asks, hf, hw]
    refine .busy k hd hw hlf ?_ ?_ ?_
    · rw [hn, ha, hf]
      rfl
    · rw [ht.current, ha]
      rfl
    · rw [ht.queue, hf]
      rfl
  | responding =>
    have hlt : s.leaves i = true := hl.2 hd
    have hf : s.frees i = true := by simp [frees, hlt]
    have hr : i.bus.ready = false := by
      rw [h.bus_of_leaves hb hlt]
      exact h.ready (by rw [hd]; simp)
    refine .answered hd hlt ?_ ?_
    · rw [ho]
      cases s.asks i <;> simp [phase_of_leaves hlt, request]
    · rw [hn, hr, hf]
      cases (s.asks i).isSome <;> simp

/-- What the stage and the memory come to together. -/
theorem step (h : LockStep s d) (hb : i.bus = d.output q) {n : MemoryAccess} {o : Output}
    (ht : s.Turn i n o) : LockStep n (d.next o.bus) := by
  cases h.joint hb ht with
  | accepted e l hd _ _ ha ho hn hc =>
    rw [DataMemory.next_of_accepts ha]
    exact
      { wf := ht.wf
        phase := iff_of_true hn DataMemory.accept_phase
        valid := fun _ => by rw [DataMemory.accept_response]; rfl
        ready := fun _ => by rw [DataMemory.accept_response]; rfl
        addr := fun _ => by rw [DataMemory.accept_response, hc, ho]; rfl }
  | refused hd _ ha hn =>
    rw [DataMemory.next_idle hd ha]
    exact
      { wf := ht.wf
        phase := by simp [hn, hd]
        valid := fun hc => absurd hd hc
        ready := fun hc => absurd hd hc
        addr := fun hc => absurd hd hc }
  | busy k hd _ _ hn hc =>
    have hne : d.registers.phase ≠ .idle := by rw [hd]; simp
    rw [DataMemory.next_busy hd]
    exact
      { wf := ht.wf
        phase := iff_of_true hn (by dsimp only; split <;> simp)
        valid := fun _ => h.valid hne
        ready := fun _ => h.ready hne
        addr := fun _ => by rw [hc]; exact h.addr hne }
  | answered hd _ hr hn =>
    rw [DataMemory.next_responding hd hr]
    exact
      { wf := ht.wf
        phase := by simp [hn]
        valid := fun hc => absurd rfl hc
        ready := fun hc => absurd rfl hc
        addr := fun hc => absurd rfl hc }

theorem reset : LockStep {} d.reset :=
  { wf := .empty
    phase := by simp [DataMemory.reset]
    valid := fun hc => absurd rfl hc
    ready := fun hc => absurd rfl hc
    addr := fun hc => absurd rfl hc }

/-- Writes from outside do not come between the two. -/
theorem of_registers (h : LockStep s d) {e : DataMemory} (he : e.registers = d.registers) :
    LockStep s e := by
  obtain ⟨h1, h2, h3, h4, h5⟩ := h
  rw [← he] at h2 h3 h4 h5
  exact ⟨h1, h2, h3, h4, h5⟩

end LockStep

end RiscvPipeline
