import RiscvPipeline.Proofs.Csr.ReadModifyWrite

/-!
# Traps in the middle of an access

A trap takes the result of an instruction that reads, modifies and writes a control and status
register, but not a command that is on the bus. So the register is written although its old value is
lost if the trap comes in the very cycle in which the file accepts the write, or while the answer to
that is awaited. After a trap that comes earlier the instruction sends no write.
-/

namespace RiscvPipeline

open Execute

namespace Execute

/-- Nothing is under way but perhaps a transaction, and that is no write that waits for the bus. -/
structure State.Quiet (s : State) : Prop where
  isOpen : s.phase.IsOpen
  command : s.csr.phase = .request → s.csr.command ≠ .write

variable {s : Execute} {i : Input}

namespace State.Quiet

/-- It stays so until an instruction is accepted. -/
theorem step (h : s.state.Quiet) (hv : (s.step i).out.valid = false) : (s.step i).next.Quiet := by
  refine ⟨(step_open h.isOpen hv).1, fun hp => ?_⟩
  cases step_transacts (s := s) (i := i) with
  | kept hk =>
    rw [hk.command]
    exact h.command (hk.phase_eq_request.1 hp).1
  | begun hb =>
    rw [hb] at hv
    cases hv
  | rewritten hs => exact absurd hs h.isOpen.ne_single

/-- A trap leads there, unless a write is not taken. -/
theorem of_trap {target : Word} (ht : i.trap = some target)
    (hw : s.state.csr.phase = .request → i.csr.ready = false → s.state.csr.command ≠ .write) :
    (s.step i).next.Quiet := by
  rw [step_trap ht]
  have hk := Keeps.of_trap (s := s) (i := i) target
  refine ⟨.inl rfl, fun hp => ?_⟩
  obtain ⟨hs, hr⟩ := hk.phase_eq_request.1 hp
  rw [hk.command]
  exact hw hs hr

theorem busDrive_ne_write (h : s.state.Quiet) : s.busDrive.command ≠ .write := by
  unfold busDrive
  cases hp : s.state.csr.phase with
  | request => exact h.command hp
  | idle | response => exact show CsrCommand.none ≠ .write by decide

end State.Quiet

end Execute

namespace Instant

variable {t : Instant} (hw : t.machine.Settled t.signals)
include hw

theorem trap_of_traps (ht : t.traps = true) :
    ∃ target, (t.machine.executeInput t.signals).trap = some target := by
  have hp : t.signals.trap.redirect.isSome = true := by
    rw [hw.isSome_redirect, ← hw.trapReady]
    exact ht
  exact Option.isSome_iff_exists.mp hp

theorem result?_of_traps (ht : t.traps = true) : t.result? = none := by
  obtain ⟨target, htrap⟩ := trap_of_traps hw ht
  have hwrite : t.signals.execute.write.enable = false := by
    rw [hw.execute]
    exact (step_trapped htrap).2.2
  unfold result?
  dsimp only
  rw [hwrite]
  rfl

/-- What the execute stage gets rid of is what it drives. -/
theorem command_of_issues {latency : Nat} (hb : t.machine.BusInvariant latency)
    (hr : t.machine.reset = false) (hi : t.issues .execute = true) :
    t.command = t.machine.execute.busDrive := by
  have hturn := turn hw hb hr
  generalize t.machine.execute.state.csr.phase = p at hturn
  cases hturn with
  | taken _ _ _ hc => exact hc
  | absent hn | refused hn | waiting hn | answered hn =>
    rw [hn] at hi
    cases hi

end Instant

namespace Machine

/-! ## After a trap -/

section

variable {m₀ : Machine} {h : List Stimulus} {before later : List Instant} {t : Instant}
  (hh : m₀.cycles h = before ++ t :: later) (hv : ∀ s ∈ later, s.signals.execute.valid = false)
include hh hv

/-- A trap opens the stage, and it stays open until an instruction is accepted. -/
theorem isOpen_since_trap (ht : t.traps = true) :
    (m₀.after h).execute.state.phase.IsOpen := by
  refine since_induction (I := fun _ => True) (S := (·.traps = true))
    (Q := fun s => s.signals.execute.valid = false)
    (P := fun _ _ n => n.execute.state.phase.IsOpen) (fun _ => trivial) ?_ ?_ ?_ hh ht hv
  · intro s ts m n hn ho
    rwa [hn.execute]
  · intro m w _ hr hw ht
    obtain ⟨target, htrap⟩ := Instant.trap_of_traps (t := ⟨m, w⟩) hw ht
    rw [advance_execute hr]
    exact (step_trapped htrap).1
  · intro s ts m w _ hr hw hv ho
    rw [advance_execute hr]
    exact (step_open ho (by rwa [hw.execute] at hv)).1

/-- When all is quiet no result is written and no write is sent until an instruction is accepted. -/
theorem quiet_since {latency : Nat} (hm : ∀ l, (m₀.after l).Steady latency)
    (ht : t.next.execute.state.Quiet) : Instant.results later = [] ∧
      ∀ u ∈ later, u.issues .execute = true → u.command.command ≠ .write := by
  refine (since_induction (I := Steady latency) (S := fun s => s.next.execute.state.Quiet)
    (Q := fun s => s.signals.execute.valid = false)
    (P := fun _ ts n => n.execute.state.Quiet ∧ Instant.results ts = [] ∧
      ∀ u ∈ ts, u.issues .execute = true → u.command.command ≠ .write)
    hm ?_ ?_ ?_ hh ht hv).2
  · rintro s ts m n hn ⟨hq, hts⟩
    exact ⟨by rwa [hn.execute], hts⟩
  · intro m w _ _ _ hq
    exact ⟨hq, rfl, by simp⟩
  · rintro s ts m w hm hr hw hv ⟨hq, hres, hts⟩
    have hvalid : (m.execute.step (m.executeInput w)).out.valid = false := by
      rwa [hw.execute] at hv
    have hnone := Instant.result?_of_silent (t := ⟨m, w⟩) hw (step_open hq.isOpen hvalid).2
    refine ⟨?_, Instant.results_pass hres hnone, fun u hu hi => ?_⟩
    · rw [advance_execute hr]
      exact hq.step hvalid
    · rcases List.mem_append.1 hu with hu | hu
      · exact hts u hu hi
      · obtain rfl := List.mem_singleton.1 hu
        rw [Instant.command_of_issues (t := ⟨m, w⟩) hw hm.toBusInvariant hr hi]
        exact hq.busDrive_ne_write

end

end Machine

/-! ## At a trap -/

section

variable {latency : Nat} {d : DecodedInstruction} {operand : Word} {t : Instant} {xs : List Instant}

/-- A trap that hits an access finds it without a result, and leaves it without a write to send. -/
theorem Underway.hit (hn : t.machine.Steady latency) (hr : t.machine.reset = false)
    (hw : t.machine.Settled t.signals) (hd : d.opcode.cls = .csr) (hd0 : d.target ≠ 0)
    (ht : t.hits = true) (h : Underway latency d operand t.machine xs) :
    Instant.results (xs ++ [t]) = [] ∧ t.next.execute.state.Quiet := by
  obtain ⟨htraps, hsingle⟩ : t.traps = true ∧ t.machine.execute.state.phase = .single := by
    simpa [Instant.hits] using ht
  obtain ⟨target, htrap⟩ := Instant.trap_of_traps hw htraps
  have hnone := Instant.result?_of_traps hw htraps
  have hquiet (hreq : t.machine.execute.state.csr.phase = .request →
      (t.response .execute).ready = false → t.machine.execute.state.csr.command ≠ .write) :
      t.next.execute.state.Quiet := by
    rw [t.next_execute hr]
    exact .of_trap htrap hreq
  obtain ⟨own, old, -, hs⟩ := h
  cases hs with
  | requesting _ hres hs =>
    have hreads : d.readsCsr = true := by
      by_contra hreads
      exact hd0 (DecodedInstruction.target_of_not_reads (Bool.eq_false_iff.mpr hreads) hd)
    refine ⟨Instant.results_pass hres hnone, hquiet fun _ _ => ?_⟩
    rw [hs.transaction, DecodedInstruction.firstRequest, hreads]
    exact show CsrCommand.read ≠ .write by decide
  | reading _ _ _ _ hres hs =>
    refine ⟨Instant.results_pass hres hnone, hquiet fun hp => ?_⟩
    rw [hs.transaction] at hp
    cases hp
  | rewriting _ _ _ _ _ hres hs _ _ _ _ hi =>
    -- The bus is free, so that the write is taken in this very cycle.
    refine ⟨Instant.results_pass hres hnone, hquiet fun _ hready => ?_⟩
    have hturn := Instant.turn hw hn.toBusInvariant hr
    rw [hs.transaction] at hturn
    cases hturn with
    | refused _ _ hdue => omega
    | taken _ _ hrd =>
      rw [hrd] at hready
      cases hready
  | writing _ _ _ hres hs =>
    refine ⟨Instant.results_pass hres hnone, hquiet fun hp => ?_⟩
    rw [hs.transaction] at hp
    cases hp
  | parked _ _ hres hs =>
    refine ⟨Instant.results_pass hres hnone, hquiet fun hp => ?_⟩
    rw [hs.csr] at hp
    cases hp
  | completed _ _ ho => exact absurd hsingle ho.ne_single
  | rejected _ _ _ _ _ ho => exact absurd hsingle ho.ne_single

end

namespace Machine

section

variable {c : Config} (hc : c.Valid) {p : Program} {h : List Stimulus} {before later : List Instant}
  {first : Instant} {d : DecodedInstruction}
  (hh : (ofConfig c p).cycles h = before ++ first :: later) (ha : first.accepted? = some d)
  (hd : d.opcode.cls = .csr) (hl : first.signals.execute.exceptions.illegal = false)
  (hd0 : d.target ≠ 0) (hv : ∀ t ∈ later, t.signals.execute.valid = false)
include hc hh ha hd hl hd0 hv

/-- A trap that hits the access takes its result, and no write follows. -/
theorem lost_of_hit {xs ys : List Instant} {t : Instant} (hlater : later = xs ++ t :: ys)
    (ht : t.hits = true) : Instant.results later = [] ∧
      ∀ u ∈ ys, u.issues .execute = true → u.command.command ≠ .write := by
  subst hlater
  have hsplit := hh.trans (List.append_assoc before (first :: xs) (t :: ys)).symm
  obtain ⟨hr, hw, h', hm, hxs⟩ := of_cycles_eq hsplit
  have hvxs : ∀ s ∈ xs, s.signals.execute.valid = false := fun s hs => hv s (by simp [hs])
  have hsingle : t.machine.execute.state.phase = .single := by
    simp only [Instant.hits, Bool.and_eq_true, beq_iff_eq] at ht
    exact ht.2
  -- Nothing was hit before, as a trap would have opened the stage.
  have hits : ∀ s ∈ xs, s.hits = false := by
    intro s hs
    by_contra hhit
    obtain ⟨as, bs, rfl⟩ := List.append_of_mem hs
    have htraps : s.traps = true := by
      simp only [Instant.hits, Bool.and_eq_false_iff, not_or, Bool.not_eq_false] at hhit
      exact hhit.1
    have ho := isOpen_since_trap
      (hxs.trans (List.append_assoc before (first :: as) (s :: bs)).symm)
      (fun s hs => hvxs s (by simp [hs])) htraps
    exact ho.ne_single (hm ▸ hsingle)
  -- So the access has come to some stage when the trap hits it.
  have hu := Underway.along hc hxs ha hd hl fun s hs => ⟨hvxs s hs, hits s hs⟩
  rw [hm] at hu
  have hsteady : t.machine.Steady c.csr.latency := hm ▸ .after hc p h'
  obtain ⟨hres, hquiet⟩ := hu.hit hsteady hr hw hd hd0 ht
  obtain ⟨hys, hcmd⟩ :=
    quiet_since hsplit (fun s hs => hv s (by simp [hs])) (Steady.after hc p) hquiet
  refine ⟨?_, hcmd⟩
  rw [List.append_cons, Instant.results_append, hres, hys, List.append_nil]

/-- When the stage has come to its end, an access that has written its register has delivered the
old value, or a trap has hit it afterwards. -/
theorem delivered_or_hit {u : Instant} (hu : u ∈ later) (hi : u.issues .execute = true)
    (hw : u.performs = true) (ho : ((ofConfig c p).after h).execute.state.phase.IsOpen) :
    (∃ own old, Carried d (d.csrOperand first.machine.registers) later own old ∧
        Instant.results later = [(d.target, old)]) ∨
      ∃ xs t ys, later = xs ++ t :: ys ∧ t.hits = true ∧ u ∈ xs ++ [t] := by
  by_cases hits : ∃ t ∈ later, t.hits = true
  · obtain ⟨t, hmem, ht⟩ := hits
    obtain ⟨xs, ys, rfl⟩ := List.append_of_mem hmem
    refine .inr ⟨xs, t, ys, rfl, ht, ?_⟩
    have hys := (lost_of_hit hc hh ha hd hl hd0 hv rfl ht).2
    rcases List.mem_append.1 (List.append_cons xs t ys ▸ hu) with hu | hu
    · exact hu
    · exact absurd (u.performs_iff.1 hw).2.1 (hys u hu hi)
  · have hits : ∀ t ∈ later, t.hits = false := by simpa using hits
    obtain ⟨own, old, hcarried, hstage⟩ :=
      Underway.along hc hh ha hd hl fun t ht => ⟨hv t ht, hits t ht⟩
    have hown : u ∈ own := by
      rw [← hcarried.sent]
      exact List.mem_filter.mpr ⟨hu, hi⟩
    refine .inl ⟨own, old, hcarried, ?_⟩
    cases hstage with
    | requesting _ _ hs | reading _ _ _ _ _ hs | rewriting _ _ _ _ _ _ hs | writing _ _ _ _ hs
    | parked _ _ _ hs => exact absurd hs.phase ho.ne_single
    | completed _ hres => rw [hres, if_neg hd0]
    | rejected _ _ _ hu =>
      rw [hu u hown] at hw
      cases hw

end

/-- An illegal instruction leaves nothing to do. -/
theorem quiet_of_illegal {m₀ : Machine} {h : List Stimulus} {before later : List Instant}
    {t : Instant} (hh : m₀.cycles h = before ++ t :: later) {d : DecodedInstruction}
    (ha : t.accepted? = some d) (hl : t.signals.execute.exceptions.illegal = true) :
    t.next.execute.state.Quiet := by
  obtain ⟨hr, hw, -⟩ := of_cycles_eq hh
  obtain ⟨hvalid, -⟩ := t.accepted?_eq_some.1 ha
  rw [hw.execute] at hvalid hl
  obtain ⟨hopen, hidle⟩ := step_illegal hvalid hl
  rw [t.next_execute hr]
  refine ⟨hopen, fun hp => ?_⟩
  cases hidle.symm.trans hp

/-- When an access is hit by a trap, nothing is delivered and no write follows. So once a register
that is to be read has been written, its old value is delivered before the next instruction is
accepted, unless a trap comes in the cycle of the write or later. -/
theorem csr_interrupted {writable : String → Bool} {c : Config} {p : Program} {m₀ : Machine}
    (hnew : Machine.new writable c p = .ok m₀) {h : List Stimulus} {before later : List Instant}
    {first : Instant} (hh : m₀.cycles h = before ++ first :: later) {d : DecodedInstruction}
    (ha : first.accepted? = some d) (hd : d.opcode.cls = .csr) (hd0 : d.target ≠ 0)
    (hv : ∀ t ∈ later, t.signals.execute.valid = false) :
    (∀ xs t ys, later = xs ++ t :: ys → t.hits = true → Instant.results later = [] ∧
      ∀ u ∈ ys, u.issues .execute = true → u.command.command ≠ .write) ∧
    ∀ u ∈ later, u.issues .execute = true → u.performs = true →
      (m₀.after h).execute.state.phase.IsOpen →
        (∃ own old, Carried d (d.csrOperand first.machine.registers) later own old ∧
          Instant.results later = [(d.target, old)]) ∨
        ∃ xs t ys, later = xs ++ t :: ys ∧ t.hits = true ∧ u ∈ xs ++ [t] := by
  obtain ⟨hc, rfl⟩ := eq_ofConfig_of_new hnew
  cases hl : first.signals.execute.exceptions.illegal with
  | false =>
    constructor
    · intro xs t ys hlater ht
      exact lost_of_hit hc hh ha hd hl hd0 hv hlater ht
    · intro u hu hi hw ho
      exact delivered_or_hit hc hh ha hd hl hd0 hv hu hi hw ho
  | true =>
    obtain ⟨hres, hcmd⟩ := quiet_since hh hv (Steady.after hc p) (quiet_of_illegal hh ha hl)
    constructor
    · rintro xs t ys rfl -
      exact ⟨hres, fun u hu => hcmd u (by simp [hu])⟩
    · intro u hu hi hw
      exact absurd (u.performs_iff.1 hw).2.1 (hcmd u hu hi)

/-- The trap vector leads back to the swap, and an interrupt comes while that is under way. -/
def restartedSwap : Machine :=
  ofConfig { csr := { trapVector := resetVector } } { instructions := #[swap] }

def interruptedSwap : List Stimulus :=
  [.register 5 0x30, .register 6 0xee, .tick, .tick, .interrupt 7, .tick, .tick, .tick]

theorem new_restartedSwap :
    Machine.new (fun _ => true) { csr := { trapVector := resetVector } }
      { instructions := #[swap] } = .ok restartedSwap :=
  rfl

theorem cycles_interruptedSwap_ne_nil : restartedSwap.cycles interruptedSwap ≠ [] :=
  List.ne_nil_of_length_pos (by decide +kernel)

theorem csr_interrupted_swap :
    let later := (restartedSwap.cycles interruptedSwap).tail
    (∃ t ∈ later, t.hits = true) ∧ Instant.results later = [] := by
  intro later
  have hits : ∃ t ∈ later, t.hits = true := by decide +kernel
  have hv : ∀ t ∈ later, t.signals.execute.valid = false := by decide +kernel
  have hh : restartedSwap.cycles interruptedSwap =
      [] ++ (restartedSwap.cycles interruptedSwap).head cycles_interruptedSwap_ne_nil :: later :=
    (List.cons_head_tail _).symm
  obtain ⟨t, hmem, ht⟩ := hits
  obtain ⟨xs, ys, hlater⟩ := List.append_of_mem hmem
  have hlost := (csr_interrupted new_restartedSwap hh (d := swap) (by decide +kernel) rfl
    (by decide) hv).1 xs t ys hlater ht
  exact ⟨⟨t, hmem, ht⟩, hlost.1⟩

/-- The register is written, but its old value is not delivered before the instruction is accepted
again. -/
theorem old_value_lost_swap :
    let ts := restartedSwap.cycles (interruptedSwap ++ [.tick])
    let m := restartedSwap.after (interruptedSwap ++ [.tick])
    Machine.new (fun _ => true) { csr := { trapVector := resetVector } }
        { instructions := #[swap] } = .ok restartedSwap ∧
      swap.writesCsr = true ∧ swap.target = 6 ∧
      ts.map (·.accepted?) = [some swap, none, none, none, none, some swap] ∧
      ts.map (fun t => t.issues .execute && t.performs) =
        [false, false, false, true, false, false] ∧
      restartedSwap.csr.read? swap.csrAddress = some 0 ∧
      m.csr.read? swap.csrAddress = some 0x30 ∧ Instant.results ts = [] ∧
      m.registers.read 6 = 0xee := by
  refine ⟨new_restartedSwap, ?_⟩
  decide +kernel

end Machine

end RiscvPipeline
