import RiscvPipeline.Proofs.Csr.Bank
import RiscvPipeline.Proofs.Execute.CsrAccess

/-!
# Accesses to control and status registers

An instruction that reads, modifies and writes a register goes through stages: it asks for the bus,
reads, asks for the bus again, writes, and delivers the old value. `Stage` says where it is, with
bounds for the cycles that it has spent, and `Carried` says which commands it has sent so far. A
cycle in which nothing is accepted and no trap comes in between leads from a stage to a stage.
-/

namespace RiscvPipeline

open CsrArbiter Execute

namespace Machine

variable {latency : Nat} {m : Machine} {w : Signals}

/-- What every state of a machine has. -/
structure Steady (latency : Nat) (m : Machine) : Prop extends m.BusInvariant latency where
  lockStep : LockStep m.access m.memory
  sendable : m.execute.state.csr.Sendable

namespace Steady

theorem of_restarted {n : Machine} (hn : Restarted m n) (h : m.BusInvariant latency) :
    n.Steady latency :=
  { BusInvariant.of_restarted hn h.positive h.latency with
    lockStep := by
      rw [hn.access]
      exact LockStep.reset.of_registers (d := n.memory.reset) hn.memory
    sendable := by
      rw [hn.execute]
      exact .inl rfl }

theorem of_untouched {n : Machine} (hn : Untouched m n) (h : m.Steady latency) :
    n.Steady latency :=
  { h.toBusInvariant.of_untouched hn with
    lockStep := by
      rw [hn.access]
      exact h.lockStep.of_registers hn.memory
    sendable := by
      rw [hn.execute]
      exact h.sendable }

theorem advance (h : m.Steady latency) (hr : m.reset = false) (hw : m.Settled w) :
    (m.advance w).Steady latency :=
  { h.toBusInvariant.advance hr hw with
    lockStep := by
      rw [advance_access hr, advance_memory hr]
      exact h.lockStep.step hw.memory (hw.turn h.lockStep.wf)
    sendable := by
      rw [advance_execute hr]
      exact step_transacts.sendable h.sendable }

theorem after {c : Config} (hc : c.Valid) (p : Program) (l : List Stimulus) :
    ((ofConfig c p).after l).Steady c.csr.latency :=
  holds_after (P := Steady c.csr.latency) (fun _ _ hn h => .of_restarted hn h.toBusInvariant)
    (fun _ _ hn h => h.of_untouched hn) (fun _ _ hr hw h => h.advance hr hw) l
    (.of_restarted (restarted_ofConfig c p) (.ofConfig hc p))

end Steady

end Machine

namespace Instant

/-- A trap comes while an instruction is not finished. -/
def hits (t : Instant) : Bool := t.traps && t.machine.execute.state.phase == .single

/-- The register writes of the execute stage. -/
def results (ts : List Instant) : List (RegIndex × Word) := ts.filterMap (·.result?)

/-- The cycle of the execute stage. -/
def execution (t : Instant) : Execute.Cycle :=
  t.machine.execute.step (t.machine.executeInput t.signals)

theorem results_append (ts us : List Instant) : results (ts ++ us) = results ts ++ results us :=
  List.filterMap_append

theorem results_concat (ts : List Instant) (t : Instant) :
    results (ts ++ [t]) = results ts ++ t.result?.toList := by
  rw [results_append]
  cases h : t.result? <;> simp [results, h]

theorem results_pass {ts : List Instant} {t : Instant} (hts : results ts = [])
    (ht : t.result? = none) : results (ts ++ [t]) = [] := by
  rw [results_concat, hts, ht]
  rfl

variable {t : Instant} (hw : t.machine.Settled t.signals)

theorem next_execute (hr : t.machine.reset = false) :
    t.next.execute.state = t.execution.next := by
  show (t.machine.advance t.signals).execute.state = _
  rw [Machine.advance_execute hr]
  rfl

include hw

/-- A stage that is neither hit by a trap nor open sees no trap. -/
theorem trap_eq_none (h : t.hits = false) (hp : t.machine.execute.state.phase = .single) :
    (t.machine.executeInput t.signals).trap = none := by
  have ht : t.signals.execute.trapReady = false := by
    unfold hits traps at h
    simpa [hp] using h
  rw [hw.trapReady] at ht
  show t.signals.trap.redirect = none
  rw [← Option.isNone_iff_eq_none, ← Option.not_isSome, hw.isSome_redirect, ht]
  rfl

theorem result?_of_silent (hs : t.execution.Silent) : t.result? = none := by
  have hwrite : (t.machine.execute.step (t.machine.executeInput t.signals)).out.write.enable =
    false := hs.write
  simp only [result?, hw.execute, hwrite, Bool.false_eq_true, if_false]

theorem sideEffects_of_silent (hs : t.execution.Silent)
    (ht : (t.machine.executeInput t.signals).trap = none) : t.machine.sideEffects t.signals = t.machine.csr := by
  have htaken : t.signals.trap.taken = none := by
    have hp : t.machine.trap.pending = none := by
      have : t.signals.trap.redirect = none := ht
      rwa [hw.redirect, Option.map_eq_none_iff] at this
    rw [hw.trap, TrapController.output, hp]
  have hvalid : t.signals.execute.valid = false := by
    rw [hw.execute]
    exact hs.valid
  have hfpu : t.signals.execute.exceptions.fpu.isEmpty = true := by
    rw [hw.execute]
    exact hs.fpu
  unfold Machine.sideEffects
  rw [htaken, hvalid, hfpu]
  rfl

theorem undisturbed_of_silent (hq : t.machine.execute.state.csr.Sendable) (hr : t.machine.reset = false)
    (hs : t.execution.Silent) (ht : (t.machine.executeInput t.signals).trap = none) :
    t.Undisturbed := by
  rw [Undisturbed, t.next_bank hq hr hw, sideEffects_of_silent hw hs ht]

theorem turn {latency : Nat} (hb : t.machine.BusInvariant latency) (hr : t.machine.reset = false) :
    Turn latency t t.machine.execute.state.csr.phase :=
  hb.turn hr hw

/-- A stage that is open, and has nothing on the bus, rests until it accepts an instruction. -/
theorem rests {latency : Nat} (hb : t.machine.BusInvariant latency) (hr : t.machine.reset = false)
    (hv : t.signals.execute.valid = false) (hp : t.machine.execute.state.phase.IsOpen)
    (hc : t.machine.execute.state.csr.phase = .idle) :
    t.next.execute.state.phase.IsOpen ∧ t.next.execute.state.csr.phase = .idle ∧
      t.result? = none ∧ t.issues .execute = false := by
  have hvalid : t.execution.out.valid = false := by
    rw [hw.execute] at hv
    exact hv
  obtain ⟨hopen, hsilent⟩ := step_open hp hvalid
  have hissues : t.issues .execute = false := by
    have hturn := turn hw hb hr
    rw [hc] at hturn
    cases hturn with
    | absent hi => exact hi
  refine ⟨by rwa [next_execute hr], ?_, result?_of_silent hw hsilent, hissues⟩
  rw [next_execute hr]
  cases step_transacts (s := t.machine.execute) (i := t.machine.executeInput t.signals) with
  | kept hk =>
    refine hk.phase.trans ?_
    rw [transactionLeft_idle hc, hc]
  | begun hbegun =>
    have : t.execution.out.valid = true := hbegun
    rw [hvalid] at this
    cases this
  | rewritten _ hq =>
    rw [hc] at hq
    cases hq

/-- The register file is free for the execute stage in the cycle after one in which it is not. -/
theorem writeReady_of_access {latency : Nat} (h : t.machine.Steady latency)
    (hp : t.machine.access.phase ≠ .waiting) :
    (t.machine.executeInput t.signals).writeReady = true := by
  have hl : t.machine.access.leaves (Machine.accessInput t.signals) = false := by
    simp [MemoryAccess.leaves, hp]
  have hwrite := (hw.turn h.lockStep.wf).write
  rw [hl] at hwrite
  show (!t.signals.access.write.enable) = true
  rw [hwrite]
  rfl

theorem access_of_not_writeReady {latency : Nat} (h : t.machine.Steady latency)
    (hr : t.machine.reset = false)
    (hf : (t.machine.executeInput t.signals).writeReady = false) :
    t.next.access.phase ≠ .waiting := by
  have hturn := hw.turn h.lockStep.wf
  have hl : t.machine.access.leaves (Machine.accessInput t.signals) = true := by
    have hwrite := hturn.write
    by_contra hl
    rw [Bool.not_eq_true] at hl
    rw [hl] at hwrite
    have hf : (!t.signals.access.write.enable) = false := hf
    rw [hwrite] at hf
    cases hf
  show (t.machine.advance t.signals).access.phase ≠ .waiting
  rw [Machine.advance_access hr]
  cases h.lockStep.joint hw.memory hturn with
  | answered _ _ _ hn => exact hn
  | accepted _ _ _ hs | refused _ hs => simp [MemoryAccess.leaves, hs] at hl
  | busy _ _ _ hnot =>
    rw [hl] at hnot
    cases hnot

end Instant

/-! ## What has been sent -/

/-- The commands of an access of `d` among the cycles since its acceptance, if the register held
`old`. -/
structure Carried (d : DecodedInstruction) (operand : Word) (ts own : List Instant) (old : Word) :
    Prop where
  sent : ts.filter (·.issues .execute) = own
  /-- No other command comes between. -/
  together : own <:+: ts.filter (·.accepts)
  plan : own.map (·.command) <+: d.csrCommands operand old
  /-- The register holds the value when a command is accepted, unless the cycle counter is
  written. -/
  held : ∀ t ∈ own, t.rejected = false →
    t.command.command = .read ∨ d.csrAddress ≠ CsrRegister.mcycle.addr →
      t.machine.csr.read? d.csrAddress = some old
  /-- What has been read is still there when the write is accepted, even if that is rejected. -/
  kept : d.readsCsr = true → ∀ t ∈ own, t.command.command = .write →
    d.csrAddress ≠ CsrRegister.mcycle.addr → d.csrAddress ≠ CsrAddress.cycle →
      t.machine.csr.read? d.csrAddress = some old
  /-- A write that is not rejected takes place. -/
  effect : ∀ t ∈ own, t.performs = true → t.next.csr.bank =
    (t.machine.csr.bank.write d.csrAddress (d.csrResult old operand)).count

namespace Carried

variable {d : DecodedInstruction} {operand old : Word} {ts own : List Instant} {t : Instant}

theorem nil (h : ts.filter (·.issues .execute) = []) : Carried d operand ts [] old :=
  { sent := h
    together := List.nil_infix
    plan := List.nil_prefix
    held := by simp
    kept := by simp
    effect := by simp }

theorem pass (h : Carried d operand ts own old) (hi : t.issues .execute = false) :
    Carried d operand (ts ++ [t]) own old :=
  { h with
    sent := by rw [List.filter_append, h.sent]; simp [hi]
    together := by
      rw [List.filter_append]
      exact h.together.trans (List.prefix_append ..).isInfix }

theorem send (h : Carried d operand ts own old) (hi : t.issues .execute = true)
    (ha : t.accepts = true) (hlast : own <:+ ts.filter (·.accepts))
    (hplan : (own ++ [t]).map (·.command) <+: d.csrCommands operand old)
    (hheld : t.rejected = false →
      t.command.command = .read ∨ d.csrAddress ≠ CsrRegister.mcycle.addr →
        t.machine.csr.read? d.csrAddress = some old)
    (hkept : d.readsCsr = true → t.command.command = .write →
      d.csrAddress ≠ CsrRegister.mcycle.addr → d.csrAddress ≠ CsrAddress.cycle →
        t.machine.csr.read? d.csrAddress = some old)
    (heffect : t.performs = true → t.next.csr.bank =
      (t.machine.csr.bank.write d.csrAddress (d.csrResult old operand)).count) :
    Carried d operand (ts ++ [t]) (own ++ [t]) old := by
  have mem {s : Instant} (hs : s ∈ own ++ [t]) : s ∈ own ∨ s = t := by simpa using hs
  refine ⟨?_, ?_, hplan, fun s hs hr => ?_, fun hd s hs hc => ?_, fun s hs hp => ?_⟩
  · rw [List.filter_append, h.sent]
    simp [hi]
  · obtain ⟨l, hl⟩ := hlast
    rw [List.filter_append, ← hl]
    exact ⟨l, [], by simp [ha]⟩
  · rcases mem hs with hs | rfl
    · exact h.held s hs hr
    · exact hheld hr
  · rcases mem hs with hs | rfl
    · exact h.kept hd s hs hc
    · exact hkept hd hc
  · rcases mem hs with hs | rfl
    · exact h.effect s hs hp
    · exact heffect hp

end Carried

/-! ## Where the instruction is -/

/-- Where an access of `d` is after the cycles `ts` since its acceptance. -/
inductive Stage (latency : Nat) (d : DecodedInstruction) (operand : Word) (n : Machine)
    (ts own : List Instant) (old : Word) : Prop
  | requesting (ho : own = []) (hr : Instant.results ts = [])
      (hs : n.execute.state.Accessing d operand (d.readsCsr && d.writesCsr) .request
        (d.firstRequest operand))
      (hb : ts.length + n.csr.due ≤ latency)
  | reading (t : Instant) (ho : own = [t]) (hd : d.readsCsr = true)
      (hc : t.command = d.readRequest) (hr : Instant.results ts = [])
      (hs : n.execute.state.Accessing d operand d.writesCsr .response d.readRequest)
      (hv : old = t.effect.data) (hp : n.csr.prepared = t.answer)
      (hk : t.machine.csr.SameAt d.csrAddress n.csr)
      (hl : own <:+ ts.filter (·.accepts)) (hb : ts.length + n.csr.due ≤ 2 * latency + 1)
  | rewriting (t : Instant) (ho : own = [t]) (hd : d.readsCsr = true) (hw : d.writesCsr = true)
      (hc : t.command = d.readRequest) (hr : Instant.results ts = [])
      (hs : n.execute.state.Accessing d operand false .request
        (d.writeRequest (d.csrResult old operand)))
      (hv : n.execute.state.current.result = old) (hq : t.rejected = false)
      (hk : t.machine.csr.SameAt d.csrAddress n.csr)
      (hl : own <:+ ts.filter (·.accepts)) (hi : n.csr.due = 0)
      (hb : ts.length ≤ 2 * latency + 1)
  | writing (t : Instant) (ht : t ∈ own)
      (ho : own.map (·.command) = d.csrCommands operand old) (hr : Instant.results ts = [])
      (hs : n.execute.state.Accessing d operand false .response
        (d.writeRequest (d.csrResult old operand)))
      (hv : d.target ≠ 0 → n.execute.state.current.result = old) (hp : n.csr.prepared = t.answer)
      (hu : ∀ s ∈ own, s = t ∨ s.performs = false)
      (hb : ts.length + n.csr.due ≤ 3 * latency + 2)
  | parked (ho : own.map (·.command) = d.csrCommands operand old) (ht : d.target ≠ 0)
      (hr : Instant.results ts = []) (hs : n.execute.state.Parked d old)
      (hf : n.access.phase ≠ .waiting) (hb : ts.length ≤ 3 * latency + 2)
  | completed (ho : own.map (·.command) = d.csrCommands operand old)
      (hr : Instant.results ts = if d.target = 0 then [] else [(d.target, old)])
      (hs : n.execute.state.phase.IsOpen) (hc : n.execute.state.csr.phase = .idle)
  | rejected (t : Instant) (ht : t ∈ own) (hq : t.rejected = true)
      (hu : ∀ s ∈ own, s.performs = false) (hr : Instant.results ts = [])
      (hs : n.execute.state.phase.IsOpen) (hc : n.execute.state.csr.phase = .idle)

/-- An access is at some stage, with what belongs to it sent. -/
def Underway (latency : Nat) (d : DecodedInstruction) (operand : Word) (n : Machine)
    (ts : List Instant) : Prop :=
  ∃ own old, Carried d operand ts own old ∧ Stage latency d operand n ts own old

namespace Stage

variable {latency : Nat} {d : DecodedInstruction} {operand old v : Word} {t : Instant}
  {ts own : List Instant}

section

variable (hn : t.machine.Steady latency) (hr : t.machine.reset = false)
  (hw : t.machine.Settled t.signals)
include hn hr hw

/-- The result is written, or parked for a cycle. -/
theorem of_delivers
    (h : t.execution.Delivers d.target v (t.machine.executeInput t.signals).writeReady)
    (hv : d.target ≠ 0 → v = old) (ho : own.map (·.command) = d.csrCommands operand old)
    (hres : Instant.results ts = [])
    (hb : (t.machine.executeInput t.signals).writeReady = false → ts.length ≤ 3 * latency + 1) :
    Stage latency d operand t.next (ts ++ [t]) own old := by
  have hnext := t.next_execute hr
  have hwrite : t.signals.execute.write = t.execution.out.write := by rw [hw.execute]; rfl
  have hresult (o : Option (RegIndex × Word)) (ho : t.result? = o) :
      Instant.results (ts ++ [t]) = o.toList := by
    rw [Instant.results_concat, hres, ho, List.nil_append]
  by_cases ht : d.target = 0
  · have hnone : t.result? = none := by
      simp [Instant.result?, hwrite, h.write, ht]
    refine .completed ho (by rw [hresult _ hnone, if_pos ht]; rfl) ?_ ?_
    · rw [hnext, h.phase, if_pos (.inl ht)]
      exact .inl rfl
    · rw [hnext, h.csr]
  · cases hready : (t.machine.executeInput t.signals).writeReady with
    | true =>
      rw [hready] at h
      have hdata := h.write.trans (if_neg (not_or.mpr ⟨ht, Bool.noConfusion⟩))
      have hsome : t.result? = some (d.target, old) := by
        simp [Instant.result?, hwrite, hdata, hv ht]
      refine .completed ho (by rw [hresult _ hsome, if_neg ht]; rfl) ?_ ?_
      · rw [hnext, h.phase, if_pos (.inr rfl)]
        exact .inl rfl
      · rw [hnext, h.csr]
    | false =>
      rw [hready] at h
      have hnone : t.result? = none := by
        simp [Instant.result?, hwrite, h.write]
      obtain ⟨htarget, hvalue⟩ := h.parked ht rfl
      refine .parked ho ht (hresult _ hnone) ⟨?_, ?_, ?_, ?_⟩
        (Instant.access_of_not_writeReady hw hn hr hready) ?_
      · rw [hnext, h.phase, if_neg (not_or.mpr ⟨ht, Bool.noConfusion⟩)]
      · rw [hnext, h.csr]
      · rw [hnext, htarget]
      · rw [hnext, hvalue, hv ht]
      · have := hb hready
        rw [List.length_append, List.length_singleton]
        omega

omit hn in
theorem of_rejected {pending : Bool} {q : CsrRequest} {s : Instant}
    (hs : t.machine.execute.state.Accessing d operand pending .response q)
    (ht : (t.machine.executeInput t.signals).trap = none)
    (ha : (t.machine.executeInput t.signals).csr = s.answer) (hq : s.rejected = true)
    (hmem : s ∈ own) (hu : ∀ k ∈ own, k = s ∨ k.performs = false)
    (hres : Instant.results ts = []) : Stage latency d operand t.next (ts ++ [t]) own old := by
  obtain ⟨hwaiting, hidle, hsilent⟩ :=
    hs.rejected ht (congrArg (·.valid) ha) ((congrArg (·.exception) ha).trans hq)
  refine .rejected s hmem hq (fun k hk => ?_) ?_ ?_ ?_
  · rcases hu k hk with rfl | hperforms
    · exact k.performs_eq_false (.inr (.inr hq))
    · exact hperforms
  · exact Instant.results_pass hres (t.result?_of_silent hw hsilent)
  · rw [t.next_execute hr]
    exact .inl hwaiting
  · rw [t.next_execute hr]
    exact hidle

end

/-! ## Stage by stage -/

section

variable (hn : t.machine.Steady latency) (hr : t.machine.reset = false)
  (hw : t.machine.Settled t.signals) (hh : t.hits = false)
include hn hr hw hh

theorem waits {pending : Bool} {p : CsrPhase} {q : CsrRequest}
    (hs : t.machine.execute.state.Accessing d operand pending p q)
    (hp : p = .request ∨ p = .response ∧ (t.response .execute).valid = false) :
    t.next.execute.state.Accessing d operand pending
        (if p = .request ∧ (t.response .execute).ready = false then .request else .response) q ∧
      t.next.execute.state.current.result = t.machine.execute.state.current.result ∧
      t.result? = none ∧ t.Undisturbed := by
  have htrap := Instant.trap_eq_none hw hh hs.phase
  obtain ⟨hnext, hres, hsilent⟩ := hs.waits htrap hp
  rw [t.next_execute hr]
  exact ⟨hnext, hres, t.result?_of_silent hw hsilent,
    t.undisturbed_of_silent hw hn.sendable hr hsilent htrap⟩

end

theorem read_taken (hc : Carried d operand ts [] old) (hd : d.readsCsr = true)
    (hi : t.issues .execute = true) (ha : t.accepts = true) (hcmd : t.command = d.readRequest) :
    Carried d operand (ts ++ [t]) [t] t.effect.data ∧ t.performs = false := by
  have hread : t.command.command = .read := by rw [hcmd]; rfl
  have hne : t.command.command ≠ .write := by rw [hread]; decide
  have hperforms : t.performs = false := t.performs_eq_false (.inr (.inl hne))
  refine ⟨(Carried.nil hc.sent).send hi ha ⟨_, List.append_nil _⟩ ?_ ?_ ?_ ?_, hperforms⟩
  · rw [List.nil_append, List.map_singleton, hcmd, DecodedInstruction.csrCommands, hd]
    exact List.prefix_append ..
  · intro hq _
    have haddr : t.command.addr = d.csrAddress := by rw [hcmd]; rfl
    rw [← haddr]
    exact (t.machine.csr.read?_of_accepted (.inl hread) hq).1
  · exact fun _ h => absurd h hne
  · intro h
    rw [hperforms] at h
    cases h

theorem write_taken (hc : Carried d operand ts own old) (hi : t.issues .execute = true)
    (ha : t.accepts = true) (hcmd : t.command = d.writeRequest (d.csrResult old operand))
    (hl : own <:+ ts.filter (·.accepts))
    (hplan : (own ++ [t]).map (·.command) = d.csrCommands operand old)
    (hheld : t.rejected = false → d.csrAddress ≠ CsrRegister.mcycle.addr →
      t.machine.csr.read? d.csrAddress = some old)
    (hkept : d.readsCsr = true → d.csrAddress ≠ CsrRegister.mcycle.addr →
      d.csrAddress ≠ CsrAddress.cycle → t.machine.csr.read? d.csrAddress = some old)
    (hb : t.Undisturbed) :
    Carried d operand (ts ++ [t]) (own ++ [t]) old := by
  refine hc.send hi ha hl (hplan ▸ List.prefix_refl _) ?_ (fun hd _ => hkept hd) ?_
  · rintro hq (hread | hne)
    · rw [hcmd] at hread
      cases hread
    · exact hheld hq hne
  · intro hp
    rw [hb, if_pos hp, hcmd]
    rfl

theorem busDrive_of_request {q : CsrRequest} {pending : Bool} {s : Execute}
    (hs : s.state.Accessing d operand pending .request q) (hv : q.valid = true)
    (hq : q.ready = false) : s.busDrive = q := by
  unfold Execute.busDrive
  rw [hs.transaction]
  obtain ⟨valid, command, addr, data, ready⟩ := q
  cases hv
  cases hq
  rfl

section

variable (hn : t.machine.Steady latency) (hr : t.machine.reset = false)
  (hw : t.machine.Settled t.signals) (hh : t.hits = false) (hd : d.opcode.cls = .csr)
include hn hr hw hh

include hd in
theorem step_requesting (hc : Carried d operand ts [] old) (hres : Instant.results ts = [])
    (hs : t.machine.execute.state.Accessing d operand (d.readsCsr && d.writesCsr) .request
      (d.firstRequest operand))
    (hb : ts.length + t.machine.csr.due ≤ latency) :
    Underway latency d operand t.next (ts ++ [t]) := by
  obtain ⟨hnext, -, hnone, hbank⟩ := waits hn hr hw hh hs (.inl rfl)
  have hres' : Instant.results (ts ++ [t]) = [] := Instant.results_pass hres hnone
  have hturn := Instant.turn hw hn.toBusInvariant hr
  rw [hs.transaction] at hturn
  cases hturn with
  | refused hi hrd hdue =>
    rw [if_pos ⟨rfl, hrd⟩] at hnext
    refine ⟨[], old, hc.pass hi, .requesting rfl hres' hnext ?_⟩
    rw [List.length_append, List.length_singleton]
    omega
  | taken hi ha hrd hcmd hdue hp =>
    rw [hrd, if_neg (by simp)] at hnext
    cases hreads : d.readsCsr with
    | true =>
      rw [DecodedInstruction.firstRequest_of_reads hreads] at hs hnext
      rw [busDrive_of_request hs rfl rfl] at hcmd
      obtain ⟨hc', hperforms⟩ := read_taken hc hreads hi ha hcmd
      refine ⟨[t], t.effect.data, hc', .reading t rfl hreads hcmd hres' ?_ rfl hp
        (.of_undisturbed hbank hperforms) ?_ ?_⟩
      · rwa [hreads, Bool.true_and] at hnext
      · rw [List.filter_append]
        exact ⟨ts.filter (·.accepts), by simp [ha]⟩
      · rw [List.length_append, List.length_singleton, hdue]
        omega
    | false =>
      -- What the register held is in the answer, although nobody looks at it.
      rw [DecodedInstruction.firstRequest_of_not_reads hreads _ t.effect.data] at hs hnext
      rw [busDrive_of_request hs rfl rfl] at hcmd
      obtain ⟨hresult, hplan⟩ := DecodedInstruction.of_not_reads hreads operand t.effect.data
      have hsent : [t].map (·.command) = d.csrCommands operand t.effect.data := by
        rw [hplan, List.map_singleton, hcmd, hresult]
      have hc' := write_taken (Carried.nil hc.sent) hi ha hcmd ⟨_, List.append_nil _⟩ hsent ?_
        (fun h => by rw [hreads] at h; cases h) hbank
      · refine ⟨_, _, hc', .writing t (by simp) hsent hres' ?_ ?_ hp (by simp) ?_⟩
        · rwa [hreads, Bool.false_and] at hnext
        · intro htarget
          exact absurd (DecodedInstruction.target_of_not_reads hreads hd) htarget
        · rw [List.length_append, List.length_singleton, hdue]
          omega
      · intro hq _
        have haddr : t.command.addr = d.csrAddress := by rw [hcmd]; rfl
        have hwrite : t.command.command = .write := by rw [hcmd]; rfl
        rw [← haddr]
        exact (t.machine.csr.read?_of_accepted (.inr hwrite) hq).1

include hd in
/-- What has been read is rewritten, or it is the result at once. -/
theorem of_read {s : Instant} (hl : [s] <:+ (ts ++ [t]).filter (·.accepts)) (hreads : d.readsCsr = true)
    (hcmd : s.command = d.readRequest) (hres : Instant.results ts = [])
    (hs : t.machine.execute.state.Accessing d operand d.writesCsr .response d.readRequest)
    (hv : old = s.effect.data) (hq : s.rejected = false)
    (hans : (t.machine.executeInput t.signals).csr = s.answer)
    (hk : s.machine.csr.SameAt d.csrAddress t.machine.csr) (hp : t.performs = false)
    (hi : t.next.csr.due = 0) (hb : ts.length ≤ 2 * latency) :
    Stage latency d operand t.next (ts ++ [t]) [s] old := by
  have htrap := Instant.trap_eq_none hw hh hs.phase
  have hvalid : (t.machine.executeInput t.signals).csr.valid = true := congrArg (·.valid) hans
  have hexc : (t.machine.executeInput t.signals).csr.exception = false :=
    (congrArg (·.exception) hans).trans hq
  have hdata : (t.machine.executeInput t.signals).csr.data = old :=
    (congrArg (·.data) hans).trans hv.symm
  have hnext := t.next_execute hr
  cases hwrites : d.writesCsr with
  | true =>
    rw [hwrites] at hs
    obtain ⟨hacc, hresult, hsilent⟩ := hs.rewrites hd htrap hvalid hexc
    have hnone := t.result?_of_silent hw hsilent
    have hbank := t.undisturbed_of_silent hw hn.sendable hr hsilent htrap
    rw [hdata] at hacc hresult
    refine .rewriting s rfl hreads hwrites hcmd (Instant.results_pass hres hnone) ?_ ?_ hq
      (hk.trans (.of_undisturbed hbank hp)) hl hi ?_
    · rw [hnext]
      exact hacc
    · rw [hnext]
      exact hresult
    · rw [List.length_append, List.length_singleton]
      omega
  | false =>
    rw [hwrites] at hs
    have hdel := hs.delivers hd htrap hvalid hexc (.inl ⟨rfl, rfl, hdata.symm⟩)
    refine of_delivers hn hr hw hdel (fun _ => rfl) ?_ hres fun _ => by omega
    rw [List.map_singleton, hcmd, DecodedInstruction.csrCommands, hreads, hwrites]
    rfl

include hd in
theorem step_reading {s : Instant} (hc : Carried d operand ts [s] old) (hreads : d.readsCsr = true)
    (hcmd : s.command = d.readRequest) (hres : Instant.results ts = [])
    (hs : t.machine.execute.state.Accessing d operand d.writesCsr .response d.readRequest)
    (hv : old = s.effect.data) (hp : t.machine.csr.prepared = s.answer)
    (hk : s.machine.csr.SameAt d.csrAddress t.machine.csr)
    (hl : [s] <:+ ts.filter (·.accepts))
    (hb : ts.length + t.machine.csr.due ≤ 2 * latency + 1) :
    Underway latency d operand t.next (ts ++ [t]) := by
  have hturn := Instant.turn hw hn.toBusInvariant hr
  rw [hs.transaction] at hturn
  -- Nothing else is accepted meanwhile, so the read stays the last command.
  have hlast (ha : t.accepts = false) : [s] <:+ (ts ++ [t]).filter (·.accepts) := by
    rw [List.filter_append]
    simpa [ha] using hl
  cases hturn with
  | waiting hi ha hvalid hdue hprep =>
    obtain ⟨hnext, -, hnone, hbank⟩ := waits hn hr hw hh hs (.inr ⟨rfl, hvalid⟩)
    refine ⟨_, _, hc.pass hi, .reading s rfl hreads hcmd (Instant.results_pass hres hnone) hnext hv
      (hprep.trans hp) (hk.trans (.of_undisturbed hbank (t.performs_eq_false (.inl ha))))
      (hlast ha) ?_⟩
    rw [List.length_append, List.length_singleton]
    omega
  | answered hi ha hresp hdue hidle =>
    have hans : (t.machine.executeInput t.signals).csr = s.answer := hresp.trans hp
    cases hq : s.rejected with
    | true =>
      have htrap := Instant.trap_eq_none hw hh hs.phase
      exact ⟨_, _, hc.pass hi, of_rejected hr hw hs htrap hans hq (by simp) (by simp) hres⟩
    | false =>
      exact ⟨_, _, hc.pass hi, of_read hn hr hw hh hd (hlast ha) hreads hcmd hres hs hv hq hans hk
        (t.performs_eq_false (.inl ha)) hidle (by omega)⟩

theorem step_rewriting {s : Instant} (hc : Carried d operand ts [s] old)
    (hreads : d.readsCsr = true) (hwrites : d.writesCsr = true) (hcmd : s.command = d.readRequest)
    (hres : Instant.results ts = [])
    (hs : t.machine.execute.state.Accessing d operand false .request
      (d.writeRequest (d.csrResult old operand)))
    (hv : t.machine.execute.state.current.result = old) (hq : s.rejected = false)
    (hk : s.machine.csr.SameAt d.csrAddress t.machine.csr)
    (hl : [s] <:+ ts.filter (·.accepts)) (hi : t.machine.csr.due = 0)
    (hb : ts.length ≤ 2 * latency + 1) :
    t.issues .execute = true ∧ Underway latency d operand t.next (ts ++ [t]) := by
  have hturn := Instant.turn hw hn.toBusInvariant hr
  rw [hs.transaction] at hturn
  cases hturn with
  -- The bus has just become free, and the execute stage goes before the debug port.
  | refused _ _ hdue => omega
  | taken hissues ha hrd hcmd' hdue hp =>
    rw [busDrive_of_request hs rfl rfl] at hcmd'
    obtain ⟨hnext, hresult, hnone, hbank⟩ := waits hn hr hw hh hs (.inl rfl)
    rw [hrd, if_neg (by simp)] at hnext
    have hold : s.machine.csr.read? d.csrAddress = some old :=
      hc.held s (by simp) hq (.inl (by rw [hcmd]; rfl))
    have hplan : ([s] ++ [t]).map (·.command) = d.csrCommands operand old := by
      rw [DecodedInstruction.csrCommands, hreads, hwrites]
      simp [hcmd, hcmd']
    have hkept (h1 : d.csrAddress ≠ CsrRegister.mcycle.addr)
        (h2 : d.csrAddress ≠ CsrAddress.cycle) : t.machine.csr.read? d.csrAddress = some old :=
      (hk h1 h2).trans hold
    -- The counter goes on between the two commands, but its view cannot be written.
    have hheld (ht : t.rejected = false) (h1 : d.csrAddress ≠ CsrRegister.mcycle.addr) :
        t.machine.csr.read? d.csrAddress = some old := by
      refine hkept h1 fun h2 => ?_
      have hwrite : t.command.command = .write := by rw [hcmd']; rfl
      have haddr : t.command.addr = CsrAddress.cycle := by rw [hcmd', ← h2]; rfl
      have hro := (t.machine.csr.read?_of_accepted (.inr hwrite) ht).2 hwrite
      rw [haddr] at hro
      cases hro
    have hread : s.performs = false := by
      refine s.performs_eq_false (.inr (.inl ?_))
      rw [hcmd]
      exact show CsrCommand.read ≠ .write by decide
    refine ⟨hissues, _, _, write_taken hc hissues ha hcmd' hl hplan hheld (fun _ => hkept) hbank,
      .writing t (by simp) hplan (Instant.results_pass hres hnone) hnext (fun _ => hresult.trans hv) hp
        (by simp [hread]) ?_⟩
    rw [List.length_append, List.length_singleton, hdue]
    omega

include hd in
theorem step_writing {s : Instant} (hc : Carried d operand ts own old) (hmem : s ∈ own)
    (ho : own.map (·.command) = d.csrCommands operand old) (hres : Instant.results ts = [])
    (hs : t.machine.execute.state.Accessing d operand false .response
      (d.writeRequest (d.csrResult old operand)))
    (hv : d.target ≠ 0 → t.machine.execute.state.current.result = old)
    (hp : t.machine.csr.prepared = s.answer) (hu : ∀ k ∈ own, k = s ∨ k.performs = false)
    (hb : ts.length + t.machine.csr.due ≤ 3 * latency + 2) :
    Underway latency d operand t.next (ts ++ [t]) := by
  have hturn := Instant.turn hw hn.toBusInvariant hr
  rw [hs.transaction] at hturn
  cases hturn with
  | waiting hi ha hvalid hdue hprep =>
    obtain ⟨hnext, hresult, hnone, -⟩ := waits hn hr hw hh hs (.inr ⟨rfl, hvalid⟩)
    refine ⟨_, _, hc.pass hi, .writing s hmem ho (Instant.results_pass hres hnone) hnext
      (fun ht => hresult.trans (hv ht)) (hprep.trans hp) hu ?_⟩
    rw [List.length_append, List.length_singleton]
    omega
  | answered hi ha hresp hdue hidle =>
    have htrap := Instant.trap_eq_none hw hh hs.phase
    have hans : (t.machine.executeInput t.signals).csr = s.answer := hresp.trans hp
    cases hq : s.rejected with
    | true => exact ⟨_, _, hc.pass hi, of_rejected hr hw hs htrap hans hq hmem hu hres⟩
    | false =>
      have hdel := hs.delivers hd htrap (congrArg (·.valid) hans)
        ((congrArg (·.exception) hans).trans hq)
        (.inr ⟨show CsrCommand.write ≠ .read by decide, rfl⟩)
      exact ⟨_, _, hc.pass hi, of_delivers hn hr hw hdel hv ho hres fun _ => by omega⟩

theorem step_parked (hc : Carried d operand ts own old)
    (ho : own.map (·.command) = d.csrCommands operand old) (hres : Instant.results ts = [])
    (hs : t.machine.execute.state.Parked d old) (hf : t.machine.access.phase ≠ .waiting) :
    Underway latency d operand t.next (ts ++ [t]) := by
  have hturn := Instant.turn hw hn.toBusInvariant hr
  rw [hs.csr] at hturn
  cases hturn with
  | absent hi =>
    have hdel := hs.delivers (Instant.trap_eq_none hw hh hs.phase)
    have hready := Instant.writeReady_of_access hw hn hf
    refine ⟨_, _, hc.pass hi, of_delivers hn hr hw hdel (fun _ => rfl) ho hres fun h => ?_⟩
    rw [hready] at h
    cases h

end

/-- A cycle in which no instruction is accepted and none is hit by a trap leads from stage to
stage. -/
theorem step (hn : t.machine.Steady latency) (hr : t.machine.reset = false)
    (hw : t.machine.Settled t.signals) (hh : t.hits = false) (hd : d.opcode.cls = .csr)
    (hq : t.signals.execute.valid = false) (h : Underway latency d operand t.machine ts) :
    Underway latency d operand t.next (ts ++ [t]) := by
  obtain ⟨own, old, hc, h⟩ := h
  cases h with
  | requesting ho hres hs hb =>
    subst ho
    exact step_requesting hn hr hw hh hd hc hres hs hb
  | reading s ho hreads hcmd hres hs hv hp hk hl hb =>
    subst ho
    exact step_reading hn hr hw hh hd hc hreads hcmd hres hs hv hp hk hl hb
  | rewriting s ho hreads hwrites hcmd hres hs hv hq hk hl hi hb =>
    subst ho
    exact (step_rewriting hn hr hw hh hc hreads hwrites hcmd hres hs hv hq hk hl hi hb).2
  | writing s hmem ho hres hs hv hp hu hb =>
    exact step_writing hn hr hw hh hd hc hmem ho hres hs hv hp hu hb
  | parked ho ht hres hs hf hb => exact step_parked hn hr hw hh hc ho hres hs hf
  | completed ho hres hs hcsr =>
    obtain ⟨hs', hcsr', hnone, hi⟩ := Instant.rests hw hn.toBusInvariant hr hq hs hcsr
    refine ⟨_, _, hc.pass hi, .completed ho ?_ hs' hcsr'⟩
    rw [Instant.results_concat, hres, hnone, Option.toList_none, List.append_nil]
  | rejected s hmem hrej hu hres hs hcsr =>
    obtain ⟨hs', hcsr', hnone, hi⟩ := Instant.rests hw hn.toBusInvariant hr hq hs hcsr
    exact ⟨_, _, hc.pass hi, .rejected s hmem hrej hu (Instant.results_pass hres hnone) hs' hcsr'⟩

end Stage

end RiscvPipeline
