import RiscvPipeline.Proofs.Csr.Bank
import RiscvPipeline.Proofs.Debug.Access
import RiscvPipeline.Proofs.Debug.NextPc
import RiscvPipeline.Proofs.Csr.Ownership

/-!
# A held core stands still

Run control is a register beside the control and status registers. Both masters of the bus reach it,
but only the debug port sends the commands that change it, and only on behalf of accesses to run
control (`DebugPort.Sound.resumes`). While it says that the core is held the execute stage accepts
nothing. What it has begun before it goes on with: a transaction on the bus belongs to the
instruction accepted last (`Execute.State.Owned`), and a return from a trap still sends the stage
elsewhere. `Machine.halt_holds` says so of whole runs.
-/

namespace RiscvPipeline

/-! ## Run control -/

namespace DebugRequest

/-- The access lets the core run. -/
def Resumes (q : DebugRequest) : Prop :=
  q.region = .control ∧ q.addr = DebugPort.runControl ∧ q.write = true ∧ q.wdata.getLsbD 0 = false

/-- The access holds the core. -/
def Halts (q : DebugRequest) : Prop :=
  q.region = .control ∧ q.addr = DebugPort.runControl ∧ q.write = true ∧ q.wdata.getLsbD 0 = true

instance (q : DebugRequest) : Decidable q.Resumes := inferInstanceAs (Decidable (_ ∧ _ ∧ _ ∧ _))

instance (q : DebugRequest) : Decidable q.Halts := inferInstanceAs (Decidable (_ ∧ _ ∧ _ ∧ _))

theorem Halts.not_resumes {q : DebugRequest} (h : q.Halts) : ¬ q.Resumes := fun hr => by
  have := hr.2.2.2
  rw [h.2.2.2] at this
  cases this

theorem Halts.route? {q : DebugRequest} (h : q.Halts) :
    DebugPort.route? q = some .csrRequest := by
  obtain ⟨hr, ha, hw, -⟩ := h
  simp [DebugPort.route?, hr, ha, hw]

end DebugRequest

namespace DebugPort

variable {s : DebugPort} {i : Input} {q : DebugRequest}

theorem command_of_halts (h : q.Halts) : command q = .halt := by
  obtain ⟨hr, -, -, hb⟩ := h
  simp only [command, hr, hb, if_true]

/-- The port sends the command to resume only on behalf of an access that resumes. -/
theorem Sound.resumes (h : s.Sound) (hc : s.busDrive.command = .resume) :
    s.isIdle = false ∧ s.request.Resumes := by
  unfold busDrive at hc
  cases hp : s.phase with
  | idle | csrResponse | access | responding => rw [hp] at hc; cases hc
  | csrRequest =>
    rw [hp] at hc
    obtain ⟨hr, hb⟩ := command_eq_resume.1 hc
    obtain ⟨ha, hw⟩ := of_route?_control hr ((h.route (.inl hp)).trans (congrArg some hp))
    exact ⟨by rw [isIdle, hp]; rfl, hr, ha, hw, hb⟩

/-- An access that holds the core goes over the bus before it is answered. -/
theorem Sound.of_halts (h : s.Sound) (hq : (s.propose i).request.Halts)
    (hp : (s.propose i).phase = .csrResponse ∨ (s.propose i).phase = .responding) :
    (s.propose i).request = s.request ∧
      (s.phase = .csrRequest ∧ i.csr.ready = true ∨ s.phase = .csrResponse ∨
        s.phase = .responding) := by
  obtain ⟨hi, hreq⟩ | ⟨hi, hreq⟩ := s.propose_request i
  · refine ⟨hreq, ?_⟩
    rw [hreq] at hq
    cases hs : s.phase with
    | idle => simp [isIdle, hs] at hi
    | csrRequest =>
      refine .inl ⟨rfl, ?_⟩
      by_contra hr
      simp [DebugPort.propose, hs, hr] at hp
    | csrResponse => exact .inr (.inl rfl)
    | access => cases hq.route?.symm.trans ((h.route (.inr hs)).trans (congrArg some hs))
    | responding => exact .inr (.inr rfl)
  · have hs : s.phase = .idle := beq_iff_eq.1 hi
    unfold DebugPort.propose at hq hp
    rw [hs] at hq hp
    cases hr : i.request with
    | none => simp [hr, hs] at hp
    | some q =>
      simp only [hr] at hq hp
      rw [accept_request] at hq
      simp [accept, hq.route?] at hp

end DebugPort

namespace CsrFile

variable {f : CsrFile} {q : CsrRequest}

theorem execute_halt (h : q.command = .halt) : (f.execute q).halted = true := by
  rw [execute, h]
  rfl

/-- Only one of the commands that are sent lets the core run. -/
theorem execute_halted (hq : q.Sendable) (hr : q.command ≠ .resume) (hf : f.halted = true) :
    (f.execute q).halted = true := by
  rcases hq with h | h | h | h | h | h | h
  · rw [execute, h]
    exact hf
  · rw [execute_read _ h]
    cases f.read? q.addr <;> exact hf
  · rw [execute_write _ h]
    cases f.read? q.addr with
    | none => exact hf
    | some v => cases q.addr.isReadOnly <;> exact hf
  · rw [execute, h]
    cases f.read? q.addr <;> exact hf
  · rw [execute, h]
    exact hf
  · exact execute_halt h
  · exact absurd h hr

theorem propose_halted (hf : f.halted = true)
    (hq : q.valid = true → (f.execute q).halted = true) :
    (f.propose q).control.halted = true := by
  unfold propose
  cases f.control.phase with
  | idle =>
    dsimp only
    split
    next hv => exact hq hv
    · exact hf
  | busy n => exact hf
  | responding =>
    dsimp only
    split <;> exact hf

end CsrFile

namespace Machine

variable {m n k : Machine} {w : Signals} {q : DebugRequest}

/-- The core is held, and no debug access that lets it run is asked for or under way. -/
structure Halted (m : Machine) : Prop where
  reset : m.reset = false
  halted : m.csr.halted = true
  asks : m.Asks fun q => ¬ q.Resumes

theorem sendable_of_reachable (hm : m.Reachable) : m.execute.state.csr.Sendable := by
  obtain ⟨writable, c, p, m₀, h, hnew, rfl⟩ := hm
  obtain ⟨-, rfl⟩ := eq_ofConfig_of_new hnew
  exact sendable_after h

/-- Nobody asks the register file to let the core run. -/
theorem drives_ne_resume (hs : m.execute.state.csr.Sendable) (hd : m.debug.Sound)
    (hport : m.debug.isIdle = false → ¬ m.debug.request.Resumes) (x : CsrArbiter.Master) :
    (m.drives x).command ≠ .resume := by
  cases x with
  | execute =>
    show m.execute.busDrive.command ≠ .resume
    unfold Execute.busDrive
    cases m.execute.state.csr.phase with
    | idle | response => simp [CsrCommand.none, CsrCommand.resume]
    | request => rcases hs with h | h | h | h | h <;> dsimp only <;> rw [h] <;> decide
  | debug => exact fun hc => hport (hd.resumes hc).1 (hd.resumes hc).2

theorem advance_halted (hs : m.execute.state.csr.Sendable) (hd : m.debug.Sound)
    (hr : m.reset = false) (hw : m.Settled w)
    (hport : m.debug.isIdle = false → ¬ m.debug.request.Resumes) (hf : m.csr.halted = true) :
    (m.advance w).csr.halted = true := by
  have hslave : w.bus.slave = m.drives _ := (hw.connects rfl).1
  show (m.advance w).csr.control.halted = true
  rw [advance_control hr, hslave]
  exact CsrFile.propose_halted hf fun _ => CsrFile.execute_halted (drives_sendable hs _)
    (drives_ne_resume hs hd hport _) hf

theorem Halted.advance (h : m.Halted) (hm : m.Reachable) (hw : m.Settled w) :
    (m.advance w).Halted where
  reset := advance_reset.trans h.reset
  halted := advance_halted (sendable_of_reachable hm) (sound_of_reachable hm) h.reset hw
    h.asks.port h.halted
  asks := h.asks.advance

/-! ## The access that holds the core -/

/-- The port has had an access carried out that holds the core only if the core is held. -/
structure Obeyed (m : Machine) : Prop where
  sendable : m.execute.state.csr.Sendable
  sound : m.debug.Sound
  halted : m.debug.phase = .csrResponse ∨ m.debug.phase = .responding → m.debug.request.Halts →
    m.csr.halted = true

namespace Obeyed

theorem of_restarted (h : Restarted k m) : m.Obeyed where
  sendable := by rw [h.execute]; exact .inl rfl
  sound := by rw [h.debug]; exact .inl rfl
  halted hp := by simp [h.debug] at hp

theorem of_untouched (hn : Untouched m n) (h : m.Obeyed) : n.Obeyed where
  sendable := by rw [hn.execute]; exact h.sendable
  sound := by rw [hn.debug]; exact h.sound
  halted := by rw [hn.debug, hn.csr]; exact h.halted

/-- The command that holds the core takes effect when the register file accepts it. -/
theorem halted_of_issue (hr : m.reset = false) (hw : m.Settled w) (hp : m.debug.phase = .csrRequest)
    (hq : m.debug.request.Halts) (hb : w.bus.debug.ready = true) :
    (m.advance w).csr.halted = true := by
  obtain ⟨hslave, hresp, hother⟩ := hw.connects rfl
  have howner : m.arbiter.owner (arbiterInput w) = .debug := by
    cases ho : m.arbiter.owner (arbiterInput w) with
    | debug => rfl
    | execute =>
      rw [ho] at hother
      have hnone : w.bus.debug = {} := hother
      rw [hnone] at hb
      cases hb
  rw [howner] at hslave hresp
  have hslave : w.bus.slave = DebugPort.busRequest m.debug.request := by
    show Instant.command ⟨m, w⟩ = _
    rw [hslave, drives, DebugPort.busDrive, hp]
  have hresp : w.bus.debug = m.csr.output w.bus.slave := by rw [← hw.csr]; exact hresp
  have hidle : m.csr.control.phase = .idle := by
    rw [hresp, CsrFile.output] at hb
    cases hf : m.csr.control.phase with
    | idle => rfl
    | busy | responding => simp [hf] at hb
  show (m.advance w).csr.control.halted = true
  rw [advance_control hr, hslave, CsrFile.propose, hidle]
  exact CsrFile.execute_halt (DebugPort.command_of_halts hq)

theorem advance (h : m.Obeyed) (hr : m.reset = false) (hw : m.Settled w) :
    (m.advance w).Obeyed where
  sendable := by
    rw [advance_execute hr]
    exact Execute.step_transacts.sendable h.sendable
  sound := by
    rw [advance_debug hr]
    exact h.sound.propose
  halted := by
    rw [advance_debug hr]
    intro hp hq
    obtain ⟨hreq, hs⟩ := h.sound.of_halts hq hp
    rw [hreq] at hq
    obtain ⟨hs, hb⟩ | hs := hs
    · exact halted_of_issue hr hw hs hq hb
    · exact advance_halted h.sendable h.sound hr hw (fun _ => hq.not_resumes) (h.halted hs hq)

end Obeyed

theorem obeyed_of_reachable (hm : m.Reachable) : m.Obeyed :=
  hm.holds (P := Obeyed) (fun _ _ hr => .of_restarted hr) (fun _ _ hu hm => .of_untouched hu hm)
    fun _ _ hr hw hm => hm.advance hr hw

/-- The answer to an access that holds the core comes from a cycle in which the core is held. -/
theorem Transaction.halted {ts : List Instant} {v : Word} {e : Bool} (h : Transaction q m ts n v e)
    (hm : m.Reachable) (hq : q.Halts) : n.Halted := by
  obtain ⟨h', w, hr, hw, hp, hreq, hn⟩ := h.answering
  have hobeyed := obeyed_of_reachable (hm.after (.request q :: h'))
  rw [← hreq] at hq
  have hhalted := advance_halted hobeyed.sendable hobeyed.sound hr hw (fun _ => hq.not_resumes)
    (hobeyed.halted (.inr hp) hq)
  have hasks := h.unasked.asks (Q := fun q => ¬ q.Resumes)
  subst hn
  exact ⟨advance_reset.trans hr, hhalted, hasks⟩

/-- Once an access that holds the core has been answered, the core is held. -/
theorem halted_of_debugAccess (hm : m.Reachable) (hi : m.debug.isIdle = true) (hq : q.Halts)
    {v : Word} (hv : (m.debugAccess q).2 = .ok v) : (m.debugAccess q).1.Halted := by
  have hr : m.reset = false := by
    by_contra hr
    obtain ⟨e, he, -⟩ := awaitDebug_of_reset (m := m.asking q) (q := q) debugTimeout
      (Bool.not_eq_false _ ▸ hr) rfl
    cases he.symm.trans hv
  obtain ⟨ts, v', e, ht, -⟩ | ⟨e, he, -⟩ := (Awaiting.start (q := q) hr hi).awaitDebug debugTimeout
  · exact ht.halted hm hq
  · cases he.symm.trans hv

end Machine

/-! ## A held core -/

/-- What happens does not let a held core run: it is no reset and no debug access that does. -/
def Stimulus.Holds : Stimulus → Prop
  | .reset level => level = false
  | .request q => ¬ q.Resumes
  | _ => True

namespace Instant

/-- Where a trap sends the stage, or the answer to a return from a trap, or a debug access. -/
def target? (t : Instant) : Option Word :=
  (if t.traps then some t.machine.csr.trapVector else none).or t.redirect?

/-- The core is held, and nothing is done but what was begun by `d?`. -/
structure Stands (d? : Option DecodedInstruction) (t : Instant) : Prop where
  halted : t.machine.csr.halted = true
  valid : t.signals.execute.valid = false
  memoryOp : t.signals.execute.memoryOp = none
  dispatch : ∀ k, (t.next.execute.state.slots.get k).enable = false
  request : t.signals.execute.csr.valid = true → ∃ d, d? = some d ∧
    d.Sends t.signals.execute.csr.command t.signals.execute.csr.addr
  npc : t.next.execute.state.npc = t.target?.getD t.machine.execute.state.npc
  returned : ∀ x, t.machine.execute.returned? (t.machine.executeInput t.signals) = some x →
    ∃ d, d? = some d ∧ d.opcode.cls = .trapReturn

end Instant

namespace Machine

variable {m n k : Machine} {w : Signals} {q : DebugRequest} {d? : Option DecodedInstruction}

theorem valid_of_halted (hw : m.Settled w) (hf : m.csr.halted = true) :
    w.execute.valid = false := by
  rw [hw.execute, Bool.eq_false_iff]
  intro hv
  obtain ⟨d, -, -, ho, -⟩ := Execute.offered_of_valid hv
  have hhold : m.csr.halted = false := ho.hold
  rw [hf] at hhold
  cases hhold

/-- A cycle of a held core. -/
theorem Halted.stands (h : m.Halted) (ho : m.execute.state.Owned d?) (hw : m.Settled w) :
    Instant.Stands d? ⟨m, w⟩ := by
  have hv := valid_of_halted hw h.halted
  have hr := h.reset
  have hstep : (m.execute.step (m.executeInput w)).out.valid = false := by rwa [← hw.execute]
  constructor
  case halted => exact h.halted
  case valid => exact hv
  case memoryOp =>
    show w.execute.memoryOp = none
    rw [hw.execute, Option.eq_none_iff_forall_ne_some]
    intro p hp
    rw [(Execute.accepted_of_memoryOp hp).1] at hstep
    cases hstep
  case dispatch =>
    intro k
    show ((m.advance w).execute.state.slots.get k).enable = false
    rw [advance_execute hr, Bool.eq_false_iff]
    intro hk
    obtain ⟨d, hvalid, -⟩ := Execute.dispatched_of_enable hk
    rw [hvalid] at hstep
    cases hstep
  case request =>
    have hbus : w.execute.csr = m.execute.busDrive := hw.request .execute
    show w.execute.csr.valid = true → _
    rw [hbus]
    unfold Execute.busDrive
    cases hp : m.execute.state.csr.phase with
    | idle | response => simp
    | request =>
      intro _
      obtain ⟨d, hd, hserves⟩ := ho (by simp [hp])
      exact ⟨d, hd, hserves.sends⟩
  case npc =>
    unfold Instant.target?
    cases ht : Instant.traps ⟨m, w⟩ with
    | true => exact advance_npc_of_traps hr hw ht
    | false =>
      have ha : Instant.accepted? ⟨m, w⟩ = none := by
        rw [accepted?_eq hw]
        exact Execute.accepted?_eq_none.2 hstep
      exact advance_npc hr hw ⟨ht, ha⟩
  case returned =>
    intro x hx
    unfold Execute.returned? at hx
    split at hx
    next hc =>
      obtain ⟨hs, hret⟩ := hc
      obtain ⟨q, hq, -⟩ := Option.bind_eq_some_iff.1 hx
      obtain ⟨d, hd, hserves⟩ := ho (by rw [(Execute.csrResponse?_eq_some hq).1]; simp)
      refine ⟨d, hd, ?_⟩
      have hop : m.execute.state.current.opcode = some d.opcode := hserves.opcode hs
      rw [hop] at hret
      simpa using hret
    · cases hx

/-- The held core `m` has come to `k` by the cycles `ts`. -/
structure Standstill (d? : Option DecodedInstruction) (m : Machine) (ts : List Instant)
    (k : Machine) : Prop where
  halted : k.Halted
  instructions : k.statistics.instructions = m.statistics.instructions
  npc : k.execute.state.npc =
    ts.foldl (fun pc t => t.target?.getD pc) m.execute.state.npc
  owned : k.execute.state.Owned d?
  stands : ∀ t ∈ ts, t.Stands d?

namespace Standstill

variable {ts : List Instant}

theorem start (hm : m.Halted) (ho : m.execute.state.Owned d?) : Standstill d? m [] m :=
  ⟨hm, rfl, rfl, ho, fun _ ht => nomatch ht⟩

theorem cycle (h : Standstill d? m ts k) (hk : k.Reachable) (hw : k.Settled w) :
    Standstill d? m (ts ++ [⟨k, w⟩]) (k.advance w) := by
  have hr := h.halted.reset
  have hs := h.halted.stands h.owned hw
  have hv : w.execute.valid = false := hs.valid
  refine ⟨h.halted.advance hk hw, ?_, ?_, ?_, ?_⟩
  · rw [advance_instructions hr, counted_instructions, hv]
    exact h.instructions
  · rw [List.foldl_append, ← h.npc]
    exact hs.npc
  · have hnext := h.owned.step (i := k.executeInput w) (controlled_of_reachable hk).toBusFits
    have hstep : (k.execute.step (k.executeInput w)).out.valid = false := by rwa [← hw.execute]
    rw [advance_execute hr]
    rwa [Execute.accepted?_eq_none.2 hstep, Option.none_or] at hnext
  · exact List.forall_mem_append.2 ⟨h.stands, List.forall_mem_singleton.2 hs⟩

/-- What comes from outside does not disturb a held core. -/
theorem apply (h : Standstill d? m ts k) {e : Stimulus} (he : e.Holds) (ht : e ≠ .tick) :
    Standstill d? m ts (k.apply e) := by
  have hasks : (k.apply e).Asks fun q => ¬ q.Resumes :=
    h.halted.asks.apply fun q hq => by
      subst hq
      exact he
  obtain ⟨hh, hi, hn, ho, hs⟩ := h
  cases e with
  | tick => exact absurd rfl ht
  | reset level =>
    have hl : level = false := he
    subst hl
    exact ⟨⟨rfl, hh.halted, hasks⟩, hi, hn, ho, hs⟩
  | interrupt | request | withdraw | collect | register | poke | bytes | unit =>
    exact ⟨⟨hh.reset, hh.halted, hasks⟩, hi, hn, ho, hs⟩

end Standstill

/-- While the core is held, and neither reset nor allowed to run again, no instruction is accepted,
no memory operation is handed over and no functional unit is given work, whatever interrupts, traps
and debug accesses come. What the execute stage sends to the control and status registers belongs to
the instruction that it accepted last before, and it goes on elsewhere only for a trap, for a debug
access, or if that instruction is a return from a trap. -/
theorem halt_holds {writable : String → Bool} {c : Config} {p : Program} {m₀ : Machine}
    (hnew : Machine.new writable c p = .ok m₀) {h h' : List Stimulus} (hm : (m₀.after h).Halted)
    (hh : ∀ e ∈ h', e.Holds) :
    ∃ later, m₀.cycles (h ++ h') = m₀.cycles h ++ later ∧
      Standstill (Instant.youngest? (m₀.cycles h)) (m₀.after h) later (m₀.after (h ++ h')) := by
  have howned : (m₀.after h).execute.state.Owned (Instant.youngest? (m₀.cycles h)) := by
    obtain ⟨-, rfl⟩ := eq_ofConfig_of_new hnew
    exact owned_after c p h
  have hlow : ∀ level, .reset level ∈ h' → level = false := fun level hl => hh _ hl
  exact (low_induction
    (P := fun k ts => Standstill (Instant.youngest? (m₀.cycles h)) (m₀.after h) ts k) hm.reset hlow
    (.start hm howned) (fun k ts e he ht hs => hs.apply (hh e he) ht)
    fun g ts w hr hw hs => hs.cycle ⟨writable, c, p, m₀, g, hnew, rfl⟩ (settled_of_settle hw)).2

/-- A return from a trap between two additions. -/
def leaving : Machine :=
  ofConfig {} { instructions := #[
    { pc := resetVector, word := 0x00500093, opcode := .addi },
    { pc := resetVector + 4, word := 0x30200073, opcode := .mret },
    { pc := resetVector + 8, word := 0x00500093, opcode := .addi }] }

/-- The core is held when the return has been accepted, with its request still to be sent. -/
def held : List Stimulus :=
  [.request { region := .control, addr := 0, write := true, wdata := 1 }, .tick, .tick]

/-- The return goes over the bus and sends the stage elsewhere, and nothing else happens. -/
theorem halt_holds_leaving :
    let ticks : List Stimulus := .replicate 6 .tick
    Machine.new (fun _ => true) {} leaving.program = .ok leaving ∧ (leaving.after held).Halted ∧
      (∀ e ∈ ticks, e.Holds) ∧
      ∃ later, leaving.cycles (held ++ ticks) = leaving.cycles held ++ later ∧
        Standstill (Instant.youngest? (leaving.cycles held)) (leaving.after held) later
          (leaving.after (held ++ ticks)) ∧
        (∃ t ∈ later, t.signals.execute.csr.valid = true) ∧
        (leaving.after held).execute.state.npc = 0x10008 ∧
        (leaving.after (held ++ ticks)).execute.state.npc = 0 ∧
        (leaving.after (held ++ ticks)).statistics.instructions = 2 := by
  intro ticks
  have hnew : Machine.new (fun _ => true) {} leaving.program = .ok leaving := rfl
  have hrequest : (leaving.after held).request = none := by decide +kernel
  have hm : (leaving.after held).Halted :=
    { reset := by decide +kernel
      halted := by decide +kernel
      asks :=
        { request := fun q hq => by
            rw [hrequest] at hq
            cases hq
          port := fun _ => by decide +kernel } }
  have hh : ∀ e ∈ ticks, e.Holds := fun e he => by rw [List.eq_of_mem_replicate he]; trivial
  obtain ⟨later, hc, hs⟩ := halt_holds hnew hm hh
  have hlater : later = (leaving.after held).instants 6 := by
    rw [cycles_append_replicate_tick (by decide +kernel) (by decide +kernel)] at hc
    exact (List.append_cancel_left hc).symm
  refine ⟨hnew, hm, hh, later, hc, hs, ?_, by decide +kernel, by decide +kernel,
    hs.instructions.trans (by decide +kernel)⟩
  rw [hlater]
  decide +kernel

end Machine

end RiscvPipeline
