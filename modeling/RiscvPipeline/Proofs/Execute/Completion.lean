import RiscvPipeline.Proofs.Execute.Continuation
import RiscvPipeline.Proofs.Execute.CsrAccess

/-!
# In order and exactly once

From the cycle in which an instruction is accepted to the next such cycle the execute stage writes
at most one register, the one that the instruction names, with the result of the instruction.
`Progress` says how far the instruction has come: its result is written, waits for the register
file, or is still to come from a functional unit or the bus, or nothing more is to come. Units, bus,
memory, register file, traps and debug accesses are free to do what they like.
-/

namespace RiscvPipeline

/-- The instruction has a result, and a register for it. -/
def DecodedInstruction.Delivers (d : DecodedInstruction) : Prop :=
  d.target ≠ 0 ∧
    d.opcode.cls ∈ [ExecClass.alu, .shift, .jump, .mul, .div, .fpu, .csr]

namespace Execute

instance (p : Phase) : Decidable p.IsOpen := inferInstanceAs (Decidable (_ ∨ _))

/-- The register write of a cycle. -/
def result? (t : Moment Execute Input) : Option (RegIndex × Word) :=
  let w := (t.state.step t.input).out.write
  if w.enable then some (w.target, w.data) else none

def results (ts : List (Moment Execute Input)) : List (RegIndex × Word) := ts.filterMap result?

/-- The bus answers the stage. -/
def answers (t : Moment Execute Input) : Bool :=
  (t.state.step t.input).out.csr.ready && t.input.csr.valid

/-- The result of the instruction that is accepted in the cycle `first`, if it is known after the
cycles `later`. That of a unit is its first answer, and a control and status register is read
first. -/
def computed? (d : DecodedInstruction) (first : Moment Execute Input)
    (later : List (Moment Execute Input)) : Option Word :=
  match d.opcode.cls with
  | .alu | .shift => some (aluResult d first.input)
  | .jump => some (following d)
  | .csr => (later.find? answers).map (·.input.csr.data)
  | c => c.slot?.bind fun k =>
      (later.find? fun t => (t.input.units.get k).valid).map fun t => (t.input.units.get k).result

/-- The instruction is found to be illegal, or a trap finds it unfinished. -/
def Dropped (first : Moment Execute Input) (later : List (Moment Execute Input)) : Prop :=
  (∃ t ∈ first :: later, (t.state.step t.input).out.exceptions.illegal = true) ∨
    ∃ t ∈ later, t.input.trap.isSome = true ∧ ¬ t.state.state.phase.IsOpen

variable {d : DecodedInstruction} {first t : Moment Execute Input}
  {later ts : List (Moment Execute Input)} {v : Word} {k : Slot}

theorem results_concat : results (ts ++ [t]) = results ts ++ (result? t).toList := filterMap_concat

theorem results_of_not_enable (h : (t.state.step t.input).out.write.enable = false) :
    results (ts ++ [t]) = results ts := by
  rw [results_concat]
  simp [result?, h]

theorem results_later (h : (t.state.step t.input).out.write.enable = false) :
    results (first :: (later ++ [t])) = results (first :: later) := by
  rw [← List.cons_append]
  exact results_of_not_enable h

theorem computed?_append (h : computed? d first later = some v) :
    computed? d first (later ++ ts) = some v := by
  have map_find {p : Moment Execute Input → Bool} {f : Moment Execute Input → Word}
      (h : (later.find? p).map f = some v) : ((later ++ ts).find? p).map f = some v := by
    obtain ⟨t, ht, hf⟩ := Option.map_eq_some_iff.1 h
    rw [List.find?_append, ht]
    exact congrArg some hf
  unfold computed? at h ⊢
  split at h
  · exact h
  · exact h
  · exact h
  · exact map_find h
  · obtain ⟨k, hk, h⟩ := Option.bind_eq_some_iff.1 h
    rw [hk]
    exact map_find h

theorem computed?_of_slot (hk : d.opcode.cls.slot? = some k)
    (hn : ∀ t ∈ later, (t.input.units.get k).valid = false)
    (hv : (t.input.units.get k).valid = true) :
    computed? d first (later ++ [t]) = some (t.input.units.get k).result := by
  have hf : (later ++ [t]).find? (fun t => (t.input.units.get k).valid) = some t := by
    rw [List.find?_append, List.find?_eq_none.2 fun u hu => by simp [hn u hu], Option.none_or]
    simp [hv]
  unfold computed?
  cases hc : d.opcode.cls with
  | mul | div | fpu =>
    rw [hc] at hk
    cases hk
    simp only [ExecClass.slot?, Option.bind_some, hf, Option.map_some]
  | _ => simp [hc, ExecClass.slot?] at hk

theorem computed?_of_csr (hd : d.opcode.cls = .csr) (hn : ∀ t ∈ later, answers t = false)
    (ha : answers t = true) : computed? d first (later ++ [t]) = some t.input.csr.data := by
  have hf : (later ++ [t]).find? answers = some t := by
    rw [List.find?_append, List.find?_eq_none.2 fun u hu => by simp [hn u hu], Option.none_or]
    simp [ha]
  simp [computed?, hd, hf]

theorem Dropped.concat (h : Dropped first later) : Dropped first (later ++ [t]) := by
  rcases h with ⟨u, hu, h⟩ | ⟨u, hu, h⟩
  · exact .inl ⟨u, by rw [← List.cons_append]; exact List.mem_append_left _ hu, h⟩
  · exact .inr ⟨u, List.mem_append_left _ hu, h⟩

/-! ## How far an instruction has come -/

/-- How far the instruction `d`, which was accepted in the cycle `first`, has come after the cycles
`later`. -/
inductive Progress (d : DecodedInstruction) (first : Moment Execute Input)
    (later : List (Moment Execute Input)) (x : State) : Prop
  | ended (hp : x.phase.IsOpen) (hr : results (first :: later) = [])
      (hd : d.Delivers → Dropped first later)
  | written (v : Word) (hp : x.phase.IsOpen) (hr : results (first :: later) = [(d.target, v)])
      (hv : computed? d first later = some v)
  | parked (hp : x.phase = .single) (hc : x.csr.phase = .idle)
      (ht : x.current.target = d.target) (hr : results (first :: later) = [])
      (hv : computed? d first later = some x.current.result)
  | working (k : Slot) (hp : x.phase = .multi) (hl : (x.slots.get k).IsLive)
      (ht : x.current.target = d.target) (hr : results (first :: later) = [])
      (hk : d.opcode.cls.slot? = some k)
      (hn : ∀ t ∈ later, (t.input.units.get k).valid = false)
  | reading (hp : x.phase = .single) (hc : x.csr.phase ≠ .idle)
      (ho : x.current.opcode = some d.opcode) (ht : x.current.target = d.target)
      (hr : results (first :: later) = []) (hd : d.opcode.cls = .csr)
      (hq : x.csr.command = .read) (hn : ∀ t ∈ later, answers t = false)
  | writing (hp : x.phase = .single) (hc : x.csr.phase ≠ .idle)
      (ho : x.current.opcode = some d.opcode) (ht : x.current.target = d.target)
      (hr : results (first :: later) = []) (hd : d.opcode.cls = .csr)
      (hq : x.csr.command ≠ .read)
      (hv : d.target ≠ 0 → computed? d first later = some x.current.result)
  | commanding (hp : x.phase = .single) (hc : x.csr.phase ≠ .idle)
      (ho : x.current.opcode = some d.opcode) (hr : results (first :: later) = [])
      (hd : d.opcode.cls = .trapReturn ∨ d.opcode.cls = .wfi)

section

attribute [local simp] opening_eq Cycle.trap Cycle.occupied Cycle.ready Cycle.raise Cycle.accept
  Cycle.keep Cycle.complete_eq Cycle.unitDone_eq Cycle.accessCsr Cycle.command Cycle.writeCsr

/-- A result that is there is written at once, or waits for the register file. -/
theorem Progress.of_complete {before : List (Moment Execute Input)} {c : Cycle}
    (hs : t.state.step t.input = c.complete t.input.writeReady d.target v)
    (hw : c.out.write.enable = false) (hc : c.next.csr.phase = .idle)
    (hts : first :: later = before ++ [t]) (hr : results before = [])
    (hv : d.target ≠ 0 → computed? d first later = some v) :
    Progress d first later (t.state.step t.input).next := by
  have hphase := c.complete_phase t.input.writeReady d.target v
  have hcurrent := c.complete_current t.input.writeReady d.target v
  have hwrite := c.complete_write t.input.writeReady d.target v
  have hidle : (t.state.step t.input).next.csr.phase = .idle := by
    rw [hs]
    simpa using hc
  rw [← hs] at hphase hcurrent hwrite
  by_cases ht : d.target = 0
  · rw [if_pos (.inl ht)] at hphase hwrite
    exact .ended (.inl hphase) (by rw [hts, results_of_not_enable (hwrite ▸ hw), hr])
      fun h => absurd ht h.1
  · cases hb : t.input.writeReady with
    | true =>
      rw [if_pos (.inr hb)] at hphase
      rw [if_neg (by simp only [ht, hb, or_false, reduceCtorEq, not_false_iff])] at hwrite
      refine .written v (.inl hphase) ?_ (hv ht)
      rw [hts, results_concat, hr, result?, hwrite]
      rfl
    | false =>
      have hn : ¬ (d.target = 0 ∨ t.input.writeReady = true) := by
        simp only [ht, hb, or_false, reduceCtorEq, not_false_iff]
      rw [if_neg hn] at hphase hcurrent
      rw [if_pos (.inr hb)] at hwrite
      refine .parked hphase hidle (by rw [hcurrent]) ?_ (by rw [hcurrent]; exact hv ht)
      rw [hts, results_of_not_enable (hwrite ▸ hw), hr]

variable {s : Execute} {i : Input}

theorem Cycle.command_accessCsr (c : Cycle) :
    (c.accessCsr d i).next.csr.command = if d.readsCsr then .read else .write :=
  rfl

theorem Progress.start (h : s.accepted? i = some d) :
    Progress d ⟨s, i⟩ [] (s.step i).next := by
  obtain ⟨hv, hi⟩ := accepted?_eq_some.1 h
  have hquiet (hw : (s.step i).out.write.enable = false) : results [⟨s, i⟩] = [] := by
    show results ([] ++ [_]) = results []
    exact results_of_not_enable hw
  have hcomplete (c : Cycle) (v : Word) (hs : s.step i = c.complete i.writeReady d.target v) :
      c.out.write.enable = false → c.next.csr.phase = .idle →
        (d.target ≠ 0 → computed? d ⟨s, i⟩ [] = some v) → Progress d ⟨s, i⟩ [] (s.step i).next :=
    fun hw hc hv => .of_complete (t := ⟨s, i⟩) hs hw hc
      (show [Moment.mk s i] = [] ++ [Moment.mk s i] from rfl) rfl hv
  have hillegal (hx : (s.step i).out.exceptions.illegal = true) : Dropped ⟨s, i⟩ [] :=
    .inl ⟨⟨s, i⟩, List.mem_singleton_self _, hx⟩
  have ho := step_outcome (s := s) (i := i)
  generalize s.step i = c at ho hv hquiet hcomplete hillegal ⊢
  cases ho with
  | trapped | running | parked | pending | finished | passed => simp at hv
  | answered _ _ _ _ _ _ ha => cases ha <;> simp at hv
  | accepted d' c _ _ ho ha =>
    obtain rfl : d = d' := Option.some.inj (hi.symm.trans ho.instruction)
    have hidle : (s.transactionLeft i).phase = .idle := by rw [transactionLeft_idle ho.csr, ho.csr]
    cases ha with
    | illegal => exact .ended (.inl (by simp)) (hquiet (by simp)) fun _ => hillegal (by simp)
    | alu _ hd =>
      refine hcomplete _ _ rfl (by simp) (by simp [hidle]) fun _ => ?_
      rcases hd with hd | hd <;> simp [computed?, hd]
    | jump _ hd =>
      exact hcomplete _ _ rfl (by simp) (by simp [hidle]) fun _ => by simp [computed?, hd]
    | misaligned _ hd | memory _ hd =>
      exact .ended (.inl (by simp)) (hquiet (by simp)) fun h => by
        rcases hd with hd | hd <;> simp [DecodedInstruction.Delivers, hd] at h
    | branch _ hd | ecall _ hd | ebreak _ hd | fence _ hd =>
      exact .ended (.inl (by simp)) (hquiet (by simp)) fun h => by
        simp [DecodedInstruction.Delivers, hd] at h
    | dispatch k _ hd =>
      exact .working k (by simp) (by simpa using SlotState.isLive_start d) (by simp)
        (hquiet (by simp)) hd (by simp)
    | csr _ hd =>
      cases hreads : d.readsCsr with
      | true =>
        exact .reading (by simp) (by simp) (by simp) (by simp) (hquiet (by simp)) hd
          (by rw [Cycle.command_accessCsr, if_pos hreads]) (by simp)
      | false =>
        exact .writing (by simp) (by simp) (by simp) (by simp) (hquiet (by simp)) hd
          (by rw [Cycle.command_accessCsr, hreads]; decide)
          fun ht => absurd (d.target_of_not_reads hreads hd) ht
    | trapReturn _ hd =>
      exact .commanding (by simp) (by simp) (by simp) (hquiet (by simp)) (.inl hd)
    | wfi _ hd => exact .commanding (by simp) (by simp) (by simp) (hquiet (by simp)) (.inr hd)

/-- Nothing more is to come of the instruction. -/
theorem Progress.of_waiting (hp : (s.step i).next.phase = .waiting)
    (hw : (s.step i).out.write.enable = false) (hr : results (first :: later) = [])
    (hd : d.Delivers → Dropped first (later ++ [⟨s, i⟩])) :
    Progress d first (later ++ [⟨s, i⟩]) (s.step i).next :=
  .ended (.inl hp) ((results_later hw).trans hr) hd

/-- A trap drops what is not finished. -/
theorem Progress.trapped (ht : i.trap.isSome = true) (hp : ¬ s.state.phase.IsOpen)
    (hr : results (first :: later) = []) :
    Progress d first (later ++ [⟨s, i⟩]) (s.step i).next := by
  obtain ⟨target, htrap⟩ := Option.isSome_iff_exists.1 ht
  have hs := step_trap (s := s) htrap
  refine .of_waiting ?_ ?_ hr fun _ => .inr ⟨⟨s, i⟩, by simp, ht, hp⟩
  · rw [hs]
    rfl
  · rw [hs]
    simp

theorem Progress.working_step (hc : s.state.SlotsFit) (ht : i.trap = none)
    (hp : s.state.phase = .multi) (hi : s.state.csr.phase = .idle)
    (hl : (s.state.slots.get k).IsLive) (htarget : s.state.current.target = d.target)
    (hr : results (first :: later) = []) (hk : d.opcode.cls.slot? = some k)
    (hn : ∀ t ∈ later, (t.input.units.get k).valid = false) :
    Progress d first (later ++ [⟨s, i⟩]) (s.step i).next := by
  have hs : s.step i = (s.opening i).advance s.fpuEnabled s.state i := by rw [step_eq, ht]
  unfold Cycle.advance at hs
  simp only [hp] at hs
  have hidle := (transactionLeft_idle (i := i) hi).symm ▸ hi
  cases hu : Cycle.unitResult? s.state i with
  | none =>
    rw [hu] at hs
    have hv : (i.units.get k).valid = false := by
      by_contra hv
      have hx :=
        suppress_of_unitResult?_eq_none hu (k := k) (by simpa [Cycle.finishes, hl.1] using hv)
      rw [hl.2] at hx
      cases hx
    refine .working k ?_ ?_ ?_ ?_ hk ?_
    · rw [hs]
      simpa using hp
    · rw [hs]
      simpa using slotsLeft_isLive_iff.2 ⟨hl, by simp [Cycle.finishes, hv]⟩
    · rw [hs]
      simpa using htarget
    · rw [results_later, hr]
      show (s.step i).out.write.enable = false
      rw [hs]
      simp
    · intro t htm
      rcases List.mem_append.1 htm with htm | htm
      · exact hn t htm
      · rw [List.mem_singleton.1 htm]
        exact hv
  | some q =>
    obtain ⟨j, u⟩ := q
    obtain ⟨hb, hv, -, rfl⟩ := unitResult?_eq_some hu
    obtain rfl := hc.exclusive k j hl.1 hb
    rw [hu] at hs
    simp only [Cycle.unitDone_eq, htarget] at hs
    exact .of_complete (t := ⟨s, i⟩) hs (by simp) (by simpa using hidle) rfl hr
      fun _ => computed?_of_slot hk hn hv

theorem answers_eq_true : answers ⟨s, i⟩ = true ↔
    s.state.csr.phase = .response ∧ i.csr.valid = true := by
  unfold answers
  rw [step_wired.bus, Bool.and_eq_true]
  unfold busDrive
  cases s.state.csr.phase <;> simp

/-- The ways in which an instruction that waits for the bus goes on. -/
theorem step_waiting (hc : s.state.BusFits) (ht : i.trap = none) (hp : s.state.phase = .single)
    (hi : s.state.csr.phase ≠ .idle) :
    answers ⟨s, i⟩ = false ∧ s.step i = (s.opening i).occupied ∧
        (s.transactionLeft i).phase ≠ .idle ∨
      answers ⟨s, i⟩ = true ∧ (s.transactionLeft i).phase = .idle ∧
        Cycle.Answered (s.opening i).occupied s.state i i.csr (s.step i) := by
  rw [step_single ht hp, if_neg hi]
  cases hq : Cycle.csrResponse? s.state i with
  | none =>
    obtain ⟨hne, -⟩ := hc.left_of_pending hp hi hq
    refine .inl ⟨?_, rfl, hne⟩
    by_contra ha
    obtain ⟨hr, hv⟩ := answers_eq_true.1 (by simpa using ha)
    refine hne ?_
    unfold transactionLeft
    rw [hr]
    simp [hv]
  | some q =>
    obtain ⟨hr, hv, -, rfl⟩ := csrResponse?_eq_some hq
    refine .inr ⟨answers_eq_true.2 ⟨hr, hv⟩, ?_, Cycle.csrDone_outcome _⟩
    unfold transactionLeft
    rw [hr]
    simp [hv]

theorem step_occupied (hs : s.step i = (s.opening i).occupied)
    (hi : (s.transactionLeft i).phase ≠ .idle) :
    (s.step i).next.phase = s.state.phase ∧ (s.step i).next.current = s.state.current ∧
      (s.step i).next.csr.phase ≠ .idle ∧
      (s.step i).next.csr.command = s.state.csr.command ∧
      (s.step i).out.write.enable = false := by
  rw [hs]
  exact ⟨by simp, by simp, by simpa using hi, (Keeps.of_left (i := i) (by simp)).command, by simp⟩

/-- The bus answers an instruction on a control and status register. -/
theorem Progress.csr_answered (hp : s.state.phase = .single)
    (hidle : (s.transactionLeft i).phase = .idle)
    (ha : Cycle.Answered (s.opening i).occupied s.state i i.csr (s.step i))
    (ho : s.state.current.opcode = some d.opcode) (htarget : s.state.current.target = d.target)
    (hr : results (first :: later) = []) (hd : d.opcode.cls = .csr)
    (hv : d.target ≠ 0 → computed? d first (later ++ [⟨s, i⟩]) =
      some (if s.state.csr.command = .read then i.csr.data else s.state.current.result)) :
    Progress d first (later ++ [⟨s, i⟩]) (s.step i).next := by
  obtain ⟨c, hs⟩ : ∃ c, s.step i = c := ⟨_, rfl⟩
  rw [hs] at ha
  cases ha with
  | ended hx => exact absurd hd (hx _ ho).2.2
  | rejected =>
    exact .of_waiting (by simp [hs]) (by simp [hs]) hr fun _ => .inl ⟨⟨s, i⟩, by simp, by simp [hs]⟩
  | returned o ho' _ hx =>
    rw [← Option.some.inj (ho.symm.trans ho'), hd] at hx
    cases hx
  | rewrite _ _ _ _ hq =>
    -- The value that was read is kept as the result while the write is on the bus.
    rw [if_pos hq] at hv
    refine .writing ?_ ?_ ?_ ?_ ?_ hd ?_ fun hz => (hv hz).trans ?_
    · simp [hs, hp]
    · simp [hs]
    · simp [hs, ho]
    · simp [hs, htarget]
    · rw [results_later (by simp [hs]), hr]
    · rw [hs]
      show CsrCommand.write ≠ .read
      decide
    · simp [hs]
  | completed o v _ _ _ hx =>
    rw [htarget] at hs
    refine .of_complete (t := ⟨s, i⟩) hs (by simp) (by simpa using hidle) rfl hr fun hz => ?_
    rcases hx with ⟨hq, -, rfl⟩ | ⟨hq, rfl⟩
    · rw [hv hz, if_pos hq]
    · rw [hv hz, if_neg hq]

theorem Progress.reading_step (hc : s.state.BusFits) (ht : i.trap = none)
    (hp : s.state.phase = .single) (hi : s.state.csr.phase ≠ .idle)
    (ho : s.state.current.opcode = some d.opcode) (htarget : s.state.current.target = d.target)
    (hr : results (first :: later) = []) (hd : d.opcode.cls = .csr)
    (hq : s.state.csr.command = .read) (hn : ∀ t ∈ later, answers t = false) :
    Progress d first (later ++ [⟨s, i⟩]) (s.step i).next := by
  obtain ⟨ha, hs, hne⟩ | ⟨ha, hidle, hs⟩ := step_waiting hc ht hp hi
  · obtain ⟨hphase, hcur, hcsr, hcom, hw⟩ := step_occupied hs hne
    exact .reading (hphase.trans hp) hcsr (by rwa [hcur]) (by rwa [hcur])
      ((results_later hw).trans hr) hd (hcom.trans hq)
      (List.forall_mem_append.2 ⟨hn, List.forall_mem_singleton.2 ha⟩)
  · exact .csr_answered hp hidle hs ho htarget hr hd fun _ => by
      rw [if_pos hq, computed?_of_csr hd hn ha]

theorem Progress.writing_step (hc : s.state.BusFits) (ht : i.trap = none)
    (hp : s.state.phase = .single) (hi : s.state.csr.phase ≠ .idle)
    (ho : s.state.current.opcode = some d.opcode) (htarget : s.state.current.target = d.target)
    (hr : results (first :: later) = []) (hd : d.opcode.cls = .csr)
    (hq : s.state.csr.command ≠ .read)
    (hv : d.target ≠ 0 → computed? d first later = some s.state.current.result) :
    Progress d first (later ++ [⟨s, i⟩]) (s.step i).next := by
  obtain ⟨-, hs, hne⟩ | ⟨-, hidle, hs⟩ := step_waiting hc ht hp hi
  · obtain ⟨hphase, hcur, hcsr, hcom, hw⟩ := step_occupied hs hne
    refine .writing (hphase.trans hp) hcsr (by rwa [hcur]) (by rwa [hcur])
      ((results_later hw).trans hr) hd (by rwa [hcom]) fun hz => ?_
    rw [hcur]
    exact computed?_append (hv hz)
  · exact .csr_answered hp hidle hs ho htarget hr hd fun hz => by
      rw [if_neg hq, computed?_append (hv hz)]

theorem Progress.commanding_step (hc : s.state.BusFits) (ht : i.trap = none)
    (hp : s.state.phase = .single) (hi : s.state.csr.phase ≠ .idle)
    (ho : s.state.current.opcode = some d.opcode) (hr : results (first :: later) = [])
    (hd : d.opcode.cls = .trapReturn ∨ d.opcode.cls = .wfi) :
    Progress d first (later ++ [⟨s, i⟩]) (s.step i).next := by
  have hnot : ¬ d.Delivers := fun h => by
    rcases hd with hd | hd <;> simp [DecodedInstruction.Delivers, hd] at h
  have hne (o : Opcode) (ho' : s.state.current.opcode = some o) : o.cls ≠ .csr := by
    rw [← Option.some.inj (ho.symm.trans ho')]
    rcases hd with hd | hd <;> rw [hd] <;> decide
  obtain ⟨-, hs, hb⟩ | ⟨-, -, ha⟩ := step_waiting hc ht hp hi
  · obtain ⟨hphase, hcur, hcsr, -, hw⟩ := step_occupied hs hb
    exact .commanding (hphase.trans hp) hcsr (by rwa [hcur]) ((results_later hw).trans hr) hd
  · obtain ⟨c, hs⟩ : ∃ c, s.step i = c := ⟨_, rfl⟩
    rw [hs] at ha
    cases ha with
    | ended | returned | rejected =>
      exact .of_waiting (by simp [hs]) (by simp [hs]) hr fun h => absurd h hnot
    | rewrite o ho' _ hx | completed o _ ho' _ hx => exact absurd hx (hne o ho')

theorem Progress.parked_step (ht : i.trap = none) (hp : s.state.phase = .single)
    (hi : s.state.csr.phase = .idle) (htarget : s.state.current.target = d.target)
    (hr : results (first :: later) = [])
    (hv : computed? d first later = some s.state.current.result) :
    Progress d first (later ++ [⟨s, i⟩]) (s.step i).next := by
  have hs := step_single ht hp
  rw [if_pos hi, htarget] at hs
  exact .of_complete (t := ⟨s, i⟩) hs (by simp)
    (by simpa using (transactionLeft_idle (i := i) hi).symm ▸ hi) rfl hr
    fun _ => computed?_append hv

end

/-- The instruction writes its result, and nothing else is written. -/
def Written (d : DecodedInstruction) (first : Moment Execute Input)
    (later : List (Moment Execute Input)) : Prop :=
  ∃ v, computed? d first later = some v ∧ results (first :: later) = [(d.target, v)]

theorem Progress.of_open {x : State} (h : Progress d first later x) (hp : x.phase.IsOpen)
    (hd : d.Delivers) :
    Written d first later ∨ results (first :: later) = [] ∧ Dropped first later := by
  cases h with
  | ended _ hr hn => exact .inr ⟨hr, hn hd⟩
  | written v _ hr hv => exact .inl ⟨v, hv, hr⟩
  | parked hs | reading hs | writing hs | commanding hs => exact absurd hs hp.ne_single
  | working _ hm => simp [hm, Phase.IsOpen] at hp

theorem Progress.results_eq_nil_or_written {x : State} (h : Progress d first later x) :
    results (first :: later) = [] ∨ Written d first later := by
  cases h with
  | written v _ hr hv => exact .inr ⟨v, hv, hr⟩
  | ended _ hr | parked _ _ _ hr | working _ _ _ _ hr | reading _ _ _ _ hr | writing _ _ _ _ hr
  | commanding _ _ _ hr => exact .inl hr

theorem Progress.results_eq_nil {x : State} (h : Progress d first later x)
    (hp : ¬ x.phase.IsOpen) : results (first :: later) = [] := by
  cases h with
  | ended hx | written _ hx => exact absurd hx hp
  | parked _ _ _ hr | working _ _ _ _ hr | reading _ _ _ _ hr | writing _ _ _ _ hr
  | commanding _ _ _ hr => exact hr

theorem Progress.step (h : Progress d first later s.state) (hc : s.state.Controlled)
    (hn : s.accepted? i = none) : Progress d first (later ++ [⟨s, i⟩]) (s.step i).next := by
  have hopen (hp : s.state.phase.IsOpen) : (s.step i).next.phase.IsOpen ∧
      results (first :: (later ++ [⟨s, i⟩])) = results (first :: later) := by
    obtain ⟨hx, hs⟩ := step_open hp (accepted?_eq_none.1 hn)
    exact ⟨hx, results_later hs.write⟩
  by_cases hp : s.state.phase.IsOpen
  · obtain ⟨hx, hrs⟩ := hopen hp
    cases h with
    | ended _ hr hd => exact .ended hx (hrs.trans hr) fun h => (hd h).concat
    | written v _ hr hv => exact .written v hx (hrs.trans hr) (computed?_append hv)
    | parked hs | reading hs | writing hs | commanding hs => exact absurd hs hp.ne_single
    | working _ hm => simp [hm, Phase.IsOpen] at hp
  · by_cases ht : i.trap.isSome = true
    · exact .trapped ht hp (h.results_eq_nil hp)
    · have ht : i.trap = none := by simpa using ht
      cases h with
      | ended hx | written _ hx => exact absurd hx hp
      | parked hs hi htarget hr hv => exact parked_step ht hs hi htarget hr hv
      | working k hm hl htarget hr hk hv =>
        exact working_step hc.toSlotsFit ht hm (hc.idle_of_multi hm) hl htarget hr hk hv
      | reading hs hi ho htarget hr hd hq hv =>
        exact reading_step hc.toBusFits ht hs hi ho htarget hr hd hq hv
      | writing hs hi ho htarget hr hd hq hv =>
        exact writing_step hc.toBusFits ht hs hi ho htarget hr hd hq hv
      | commanding hs hi ho hr hd => exact commanding_step hc.toBusFits ht hs hi ho hr hd

/-- How far the instruction under way has come in a run. -/
theorem progress_of_moments {fpuEnabled : Bool} {is : List Input}
    {before : List (Moment Execute Input)}
    (h : clocked.moments { fpuEnabled } is = before ++ first :: later)
    (hf : first.state.accepted? first.input = some d)
    (hl : ∀ t ∈ later, t.state.accepted? t.input = none) :
    Progress d first later (clocked.after { fpuEnabled } is).state :=
  Clocked.since_induction (I := fun x => x.state.Controlled)
    (S := fun t => t.state.accepted? t.input = some d)
    (Q := fun t => t.state.accepted? t.input = none)
    (P := fun first later x => Progress d first later x.state)
    (fun _ _ hc => hc.step) (fun _ _ _ hs => .start hs) (fun _ _ _ _ hc hq hp => hp.step hc hq)
    .initial h hf hl

/-! ## In order and exactly once -/

/-- What the stage accepts comes next, nothing else moves it, and stalls change nothing. -/
structure Orderly (t : Moment Execute Input) : Prop where
  pc : ∀ d, t.state.accepted? t.input = some d →
    d.pc = t.state.state.npc ∧ (t.state.step t.input).out.pc = d.pc
  npc : (t.state.step t.input).next.npc = (t.state.redirect? t.input).getD t.state.state.npc
  stalls : t.state.Stalls t.input → t.state.Frozen t.input (t.state.step t.input)
  writeReady : (result? t).isSome = true → t.input.writeReady = true

theorem orderly (t : Moment Execute Input) : Orderly t where
  pc d h := by
    obtain ⟨hv, hi⟩ := accepted?_eq_some.1 h
    obtain ⟨d', -, -, ho, hpc, -⟩ := offered_of_valid hv
    obtain rfl : d = d' := Option.some.inj (hi.symm.trans ho.instruction)
    exact ⟨ho.pc, hpc⟩
  npc := step_npc
  stalls := Stalls.frozen
  writeReady h := by
    refine step_writeReady (s := t.state) ?_
    unfold result? at h
    by_contra hw
    simp [hw] at h

/-- Until the next instruction is accepted at most the result of the last one is written, and by
then it has been, unless the instruction was illegal or a trap found it unfinished. -/
theorem completes_in_order (fpuEnabled : Bool) (is : List Input) :
    let ts := clocked.moments { fpuEnabled } is
    (∀ t ∈ ts, Orderly t) ∧
      ∀ before first later rest d, ts = before ++ first :: later ++ rest →
        first.state.accepted? first.input = some d →
        (∀ t ∈ later, t.state.accepted? t.input = none) →
          (results (first :: later) = [] ∨ Written d first later) ∧
          ∀ next ∈ rest.head?, (next.state.accepted? next.input).isSome = true → d.Delivers →
            Written d first later ∨ results (first :: later) = [] ∧ Dropped first later := by
  intro ts
  refine ⟨fun t _ => orderly t, fun before first later rest d hts hf hl => ?_⟩
  obtain ⟨js, hjs, hrest⟩ := Clocked.of_moments_append hts
  have hp := progress_of_moments hjs hf hl
  refine ⟨hp.results_eq_nil_or_written, fun next hnext ha hd => ?_⟩
  obtain ⟨d', ha⟩ := Option.isSome_iff_exists.1 ha
  obtain ⟨-, -, hopen, -⟩ := offered_of_valid (accepted?_eq_some.1 ha).1
  rw [hrest next hnext] at hopen
  exact hp.of_open hopen hd

/-- A product for which the register file has no time at first. -/
def product : List Input :=
  let units : PerSlot UnitResponse := .replicate { busy := true }
  [{ instruction := some multiply, a := 6, b := 7 }, { units },
    { units := units.set .mul { valid := true, result := 42 } }, {}, { writeReady := true },
    { instruction := some { multiply with pc := following multiply }, a := 6, b := 7 }]

theorem completes_in_order_multiply :
    let ts := clocked.moments {} product
    ∃ first later next, ts = [] ++ first :: later ++ [next] ∧
      first.state.accepted? first.input = some multiply ∧
      (next.state.accepted? next.input).isSome = true ∧ results (first :: later) = [(3, 42)] := by
  intro ts
  let first := ts.head (List.cons_ne_nil _ _)
  let next := ts.getLast (List.cons_ne_nil _ _)
  refine ⟨first, ts.tail.dropLast, next, rfl, by decide +kernel, by decide +kernel, ?_⟩
  obtain ⟨v, hv, hr⟩ | ⟨-, hd⟩ := ((completes_in_order true product).2 [] first ts.tail.dropLast
    [next] multiply rfl (by decide +kernel) (by decide +kernel)).2 next rfl (by decide +kernel)
    ⟨by decide, by decide⟩
  · have hc : computed? multiply first ts.tail.dropLast = some 42 := by decide +kernel
    rw [hr, ← Option.some.inj (hv.symm.trans hc)]
    rfl
  · have hn : ¬ Dropped first ts.tail.dropLast := by
      unfold Dropped
      decide +kernel
    exact absurd hd hn

end Execute

end RiscvPipeline
