import RiscvPipeline.Proofs.Execute.Hazard
import RiscvPipeline.Proofs.Execute.Transaction
import RiscvPipeline.Proofs.Runs

/-!
# What the registers of the execute stage tell of each other

`State.Controlled` says how phase, slots, bus transaction, result in waiting and pending loads go
together. It is kept whatever units, bus, memory and register file answer, so that no part of it
depends on their keeping to a protocol. A unit is triggered in the cycle after an instruction has
been dispatched to it, and in no other.
-/

namespace RiscvPipeline

namespace HazardTracker

variable {t : HazardTracker}

/-- What is issued is tracked, or nothing changes. -/
theorem WF.issue_cases (h : t.WF) (r : RegIndex) (g : Tag) :
    t.issue r g = t ∨
      r ≠ 0 ∧ (t.issue r g).WF ∧ (t.issue r g).pending = t.pending ++ [⟨r, g &&& tagMask⟩] := by
  obtain ⟨-, hi⟩ | ⟨⟨hr, hf⟩, -⟩ := t.issue?_cases r g
  · exact .inl (by rw [HazardTracker.issue, hi, Option.getD_none])
  · exact .inr ⟨hr, h.issue hr hf⟩

/-- Register 0 has no pending write. -/
structure Sound (t : HazardTracker) : Prop where
  wf : t.WF
  targets : ∀ w ∈ t.pending, w.target ≠ 0

theorem Sound.empty : Sound {} := ⟨.empty, by simp [pending]⟩

theorem Sound.commit (h : t.Sound) (r : RegIndex) (g : Tag) : (t.commit r g).Sound := by
  obtain ⟨hw, hp⟩ := h.wf.commit r g
  exact ⟨hw, fun w hm => h.targets w (List.mem_of_mem_erase (hp ▸ hm))⟩

theorem Sound.issue (h : t.Sound) (r : RegIndex) (g : Tag) : (t.issue r g).Sound := by
  obtain he | ⟨hr, hw, hp⟩ := h.wf.issue_cases r g
  · rwa [he]
  · refine ⟨hw, fun w hm => ?_⟩
    rw [hp, List.mem_append, List.mem_singleton] at hm
    rcases hm with hm | rfl
    · exact h.targets w hm
    · exact hr

end HazardTracker

namespace Execute

/-- The slot is at work on an operation whose result is wanted. -/
def SlotState.IsLive (x : SlotState) : Prop := x.busy = true ∧ x.suppress = false

namespace State

/-- At most one slot is busy, and the stage waits for it exactly if its result is wanted. -/
structure SlotsFit (s : State) : Prop where
  exclusive : ∀ j k, (s.slots.get j).busy = true → (s.slots.get k).busy = true → j = k
  enabled : ∀ k, (s.slots.get k).enable = true → (s.slots.get k).busy = true
  multi : s.phase = .multi ↔ ∃ k, (s.slots.get k).IsLive

/-- A transaction on the bus belongs to the instruction under way unless a trap has overtaken it,
and then the stage is open. -/
structure BusFits (s : State) : Prop where
  discard : s.csr.discard = true → s.csr.phase ≠ .idle
  overtaken : s.csr.discard = true → s.phase.IsOpen
  transaction : s.csr.phase ≠ .idle → s.csr.discard = false → s.phase = .single
  parked : s.phase = .single → s.csr.phase = .idle → s.current.target ≠ 0

structure Controlled (s : State) : Prop extends s.SlotsFit, s.BusFits where
  hazards : s.hazards.Sound

theorem Controlled.initial : Controlled {} where
  exclusive j _ hj := by cases j <;> cases hj
  enabled k hk := by cases k <;> cases hk
  multi := by
    refine iff_of_false (by decide) fun ⟨k, hk⟩ => ?_
    cases k <;> cases hk.1
  discard h := by cases h
  overtaken h := by cases h
  transaction h := absurd rfl h
  parked h := by cases h
  hazards := .empty

end State

variable {s : Execute} {i : Input}

/-! ## Slots -/

theorem slotsLeft_enable (k : Slot) : ((s.slotsLeft i).get k).enable = false := by
  unfold slotsLeft
  rw [PerSlot.get_ofFn]
  split <;> rfl

theorem slotsLeft_busy_iff {k : Slot} : ((s.slotsLeft i).get k).busy = true ↔
    (s.state.slots.get k).busy = true ∧ Cycle.finishes s.state i k = false := by
  unfold slotsLeft
  rw [PerSlot.get_ofFn]
  split <;> simp [*]

theorem slotsLeft_isLive_iff {k : Slot} : ((s.slotsLeft i).get k).IsLive ↔
    (s.state.slots.get k).IsLive ∧ Cycle.finishes s.state i k = false := by
  unfold slotsLeft SlotState.IsLive
  rw [PerSlot.get_ofFn]
  split <;> simp [*]

namespace State.SlotsFit

/-- The slots of a cycle that starts no operation. -/
theorem of_left (h : s.state.SlotsFit) {x : State} (hs : x.slots = s.slotsLeft i)
    (hm : x.phase = .multi ↔ ∃ k, ((s.slotsLeft i).get k).IsLive) : x.SlotsFit where
  exclusive j k hj hk := by
    rw [hs] at hj hk
    exact h.exclusive j k (slotsLeft_busy_iff.1 hj).1 (slotsLeft_busy_iff.1 hk).1
  enabled k hk := by
    rw [hs, slotsLeft_enable] at hk
    cases hk
  multi := by rwa [hs]

theorem of_not_multi (h : s.state.SlotsFit) (hp : s.state.phase ≠ .multi) {x : State}
    (hs : x.slots = s.slotsLeft i) (hx : x.phase ≠ .multi) : x.SlotsFit :=
  h.of_left hs (iff_of_false hx fun ⟨k, hk⟩ => hp (h.multi.2 ⟨k, (slotsLeft_isLive_iff.1 hk).1⟩))

/-- A trap leaves no result wanted. -/
theorem of_trap (h : s.state.SlotsFit) {x : State} (hp : x.phase ≠ .multi)
    (hs : x.slots =
      (s.slotsLeft i).map fun y => if y.busy then { y with suppress := true } else y) :
    x.SlotsFit where
  exclusive j k hj hk := by
    rw [hs, PerSlot.get_map] at hj hk
    refine h.exclusive j k ?_ ?_
    · exact slotsLeft_busy (i := i) (by split at hj <;> exact hj)
    · exact slotsLeft_busy (i := i) (by split at hk <;> exact hk)
  enabled k hk := by
    rw [hs, PerSlot.get_map] at hk
    have hf := slotsLeft_enable (s := s) (i := i) k
    split at hk <;> rw [hf] at hk <;> cases hk
  multi := by
    refine iff_of_false hp fun ⟨k, hk, hn⟩ => ?_
    rw [hs, PerSlot.get_map] at hk hn
    by_cases hb : ((s.slotsLeft i).get k).busy = true
    · rw [if_pos hb] at hn
      cases hn
    · rw [if_neg hb] at hk
      exact hb hk

/-- A unit that does not finish, or that a trap has overtaken, leaves the stage waiting. -/
theorem of_running (h : s.state.SlotsFit) (hp : s.state.phase = .multi)
    (hu : Cycle.unitResult? s.state i = none) : ∃ k, ((s.slotsLeft i).get k).IsLive := by
  obtain ⟨k, hk⟩ := h.multi.1 hp
  refine ⟨k, slotsLeft_isLive_iff.2 ⟨hk, ?_⟩⟩
  by_contra hf
  have hs := suppress_of_unitResult?_eq_none hu (by simpa using hf)
  rw [hk.2] at hs
  cases hs

/-- When a result is taken no other unit is at work. -/
theorem of_finished (h : s.state.SlotsFit) {k : Slot} {u : UnitResponse}
    (hu : Cycle.unitResult? s.state i = some (k, u)) :
    ¬ ∃ j, ((s.slotsLeft i).get j).IsLive := by
  obtain ⟨hb, hv, -, -⟩ := unitResult?_eq_some hu
  rintro ⟨j, hj⟩
  obtain ⟨hlive, hf⟩ := slotsLeft_isLive_iff.1 hj
  obtain rfl := h.exclusive j k hlive.1 hb
  simp [Cycle.finishes, hb, hv] at hf

end State.SlotsFit

theorem SlotState.isLive_start (d : DecodedInstruction) : (SlotState.start d i).IsLive :=
  ⟨rfl, rfl⟩

namespace State.SlotsFit

/-- The slots after a dispatch: all others are idle. -/
theorem of_dispatch {k : Slot} {d : DecodedInstruction} (hb : s.state.slots.any (·.busy) = false)
    {x : State} (hp : x.phase = .multi) (hs : x.slots = (s.slotsLeft i).set k (.start d i)) :
    x.SlotsFit := by
  have hget (j : Slot) (hj : (x.slots.get j).busy = true ∨ (x.slots.get j).enable = true) :
      j = k := by
    by_contra hne
    rw [hs, PerSlot.get_set_other _ hne, slotsLeft_enable, slotsLeft_busy_iff,
      PerSlot.any_eq_false.1 hb j] at hj
    simp at hj
  have hk : x.slots.get k = .start d i := by rw [hs, PerSlot.get_set_same]
  exact
    { exclusive := fun j l hj hl => (hget j (.inl hj)).trans (hget l (.inl hl)).symm
      enabled := fun j hj => by
        rw [hget j (.inr hj), hk]
        rfl
      multi := iff_of_true hp ⟨k, by rw [hk]; exact SlotState.isLive_start d⟩ }

end State.SlotsFit

/-! ## The bus -/

/-- A result that has to wait is for a register other than 0. -/
theorem Cycle.target_of_complete {c : Cycle} {b : Bool} {t : RegIndex} {v : Word}
    (h : (c.complete b t v).next.phase = .single) :
    (c.complete b t v).next.current.target ≠ 0 := by
  rw [complete_phase] at h
  rw [complete_current]
  split at h
  · cases h
  next hn =>
    rw [if_neg hn]
    exact fun ht => hn (.inl ht)

namespace State.BusFits

/-- A transaction that goes on is the one that was there. -/
theorem left (hp : (s.transactionLeft i).phase ≠ .idle) :
    s.state.csr.phase ≠ .idle ∧ (s.transactionLeft i).discard = s.state.csr.discard := by
  unfold transactionLeft at hp ⊢
  cases hc : s.state.csr.phase with
  | idle =>
    rw [hc] at hp
    exact absurd hc hp
  | request => exact ⟨by simp, by dsimp only; split <;> rfl⟩
  | response =>
    rw [hc] at hp
    dsimp only at hp ⊢
    split at hp
    · exact absurd rfl hp
    next hv => exact ⟨by simp, by rw [if_neg hv]⟩

theorem left_of_discard (h : s.state.BusFits) (hd : (s.transactionLeft i).discard = true) :
    (s.transactionLeft i).phase ≠ .idle := by
  intro hp
  unfold transactionLeft at hp hd
  cases hc : s.state.csr.phase with
  | idle =>
    rw [hc] at hd
    exact h.discard hd hc
  | request =>
    rw [hc] at hp
    dsimp only at hp
    split at hp
    · cases hp
    · exact absurd (hc.symm.trans hp) (by simp)
  | response =>
    rw [hc] at hp hd
    dsimp only at hp hd
    split at hp
    next hv =>
      rw [if_pos hv] at hd
      cases hd
    · exact absurd (hc.symm.trans hp) (by simp)

/-- While a unit is at work the bus is not in use. -/
theorem idle_of_multi (h : s.state.BusFits) (hp : s.state.phase = .multi) :
    s.state.csr.phase = .idle := by
  by_contra hc
  cases hd : s.state.csr.discard with
  | false =>
    have := h.transaction hc hd
    rw [hp] at this
    cases this
  | true =>
    have := h.overtaken hd
    rw [hp] at this
    rcases this with h | h | h <;> cases h

/-- The stage after a cycle in which no transaction is left. -/
theorem of_idle {x : State} (hc : x.csr.phase = .idle) (hd : x.csr.discard = false)
    (ht : x.phase = .single → x.current.target ≠ 0) : x.BusFits where
  discard h := by
    rw [hd] at h
    cases h
  overtaken h := by
    rw [hd] at h
    cases h
  transaction h := absurd hc h
  parked hp _ := ht hp

theorem not_discard_of_idle (h : s.state.BusFits) (hc : s.state.csr.phase = .idle) :
    s.state.csr.discard = false := by
  by_contra hd
  exact h.discard (by simpa using hd) hc

/-- The stage after a cycle in which it is open, or becomes so, and a transaction goes on. -/
theorem of_open (h : s.state.BusFits) {x : State} (hx : x.phase.IsOpen)
    (hc : x.csr = s.transactionLeft i) (ho : s.state.phase.IsOpen) : x.BusFits where
  discard hd := by
    rw [hc] at hd ⊢
    exact h.left_of_discard hd
  overtaken _ := hx
  transaction hp hd := by
    rw [hc] at hp hd
    obtain ⟨hne, heq⟩ := left hp
    exact absurd (h.transaction hne (heq ▸ hd)) ho.ne_single
  parked hp := absurd hp hx.ne_single

attribute [local simp] opening_eq Cycle.trap Cycle.occupied Cycle.ready Cycle.raise Cycle.accept
  Cycle.keep Cycle.complete_eq Cycle.unitDone_eq Cycle.accessCsr Cycle.command Cycle.writeCsr

theorem of_trap (h : s.state.BusFits) (target : Word) :
    ((s.opening i).trap target).next.BusFits := by
  have hc : ((s.opening i).trap target).next.csr =
      if (s.transactionLeft i).phase = .idle then s.transactionLeft i
      else { s.transactionLeft i with discard := true } := by simp
  have hp : ((s.opening i).trap target).next.phase = .waiting := rfl
  by_cases hi : (s.transactionLeft i).phase = .idle
  · rw [if_pos hi] at hc
    have hd : (s.transactionLeft i).discard = false := by
      by_contra hd
      exact h.left_of_discard (by simpa using hd) hi
    exact of_idle (by rw [hc, hi]) (by rw [hc, hd]) (by simp)
  · rw [if_neg hi] at hc
    exact
      { discard := fun _ => by rwa [hc]
        overtaken := fun _ => .inl hp
        transaction := fun _ hd => by
          rw [hc] at hd
          cases hd
        parked := by simp }

/-- An answer that is taken ends the transaction, or is followed by another request. -/
theorem of_answered {q : CsrResponse} {c : Cycle} (hp : s.state.phase = .single)
    (hq : Cycle.csrResponse? s.state i = some q)
    (ha : Cycle.Answered (s.opening i).occupied s.state i q c) : c.next.BusFits := by
  obtain ⟨hc, hv, -, -⟩ := csrResponse?_eq_some hq
  have hl : s.transactionLeft i = { s.state.csr with phase := .idle, discard := false } := by
    unfold transactionLeft
    rw [hc]
    simp [hv]
  cases ha with
  | ended | rejected | returned => exact of_idle (by simp [hl]) (by simp [hl]) (by simp)
  | rewrite =>
    exact
      { discard := by simp
        overtaken := by simp
        transaction := fun _ _ => by simpa using hp
        parked := by simp }
  | completed o v => exact of_idle (by simp [hl]) (by simp [hl]) Cycle.target_of_complete

/-- While the answer does not come the transaction goes on. -/
theorem left_of_pending (h : s.state.BusFits) (hp : s.state.phase = .single)
    (hc : s.state.csr.phase ≠ .idle) (hq : Cycle.csrResponse? s.state i = none) :
    (s.transactionLeft i).phase ≠ .idle ∧ (s.transactionLeft i).discard = false := by
  have hd : s.state.csr.discard = false := by
    by_contra hd
    exact (h.overtaken (by simpa using hd)).ne_single hp
  unfold Cycle.csrResponse? at hq
  unfold transactionLeft
  cases hs : s.state.csr.phase with
  | idle => exact absurd hs hc
  | request => cases i.csr.ready <;> simp [hs, hd]
  | response =>
    cases hv : i.csr.valid with
    | false => simp [hs, hd]
    | true => simp [hs, hd, hv] at hq

theorem of_pending (h : s.state.BusFits) (hp : s.state.phase = .single)
    (hc : s.state.csr.phase ≠ .idle) (hq : Cycle.csrResponse? s.state i = none) :
    (s.opening i).occupied.next.BusFits := by
  obtain ⟨hne, hd⟩ := h.left_of_pending hp hc hq
  exact
    { discard := by simp [hd]
      overtaken := by simp [hd]
      transaction := fun _ _ => by simpa using hp
      parked := fun _ hi => absurd (by simpa using hi) hne }

/-- The stage after a cycle in which an instruction is accepted, or has no use for the bus. -/
theorem of_accepted (h : s.state.BusFits) (hc : s.state.csr.phase = .idle) {fpuEnabled : Bool}
    {d : DecodedInstruction} {c : Cycle}
    (ha : Cycle.Accepted fpuEnabled (s.opening i).ready s.state i d c) : c.next.BusFits := by
  have hl := transactionLeft_idle (i := i) hc
  have hd := h.not_discard_of_idle hc
  cases ha with
  | alu | jump => exact of_idle (by simp [hl, hc]) (by simp [hl, hd]) Cycle.target_of_complete
  | csr | trapReturn | wfi =>
    exact
      { discard := by simp
        overtaken := by simp
        transaction := by simp
        parked := by simp }
  | _ => exact of_idle (by simp [hl, hc]) (by simp [hl, hd]) (by simp)

theorem step (h : s.state.BusFits) : (s.step i).next.BusFits := by
  have ho := step_outcome (s := s) (i := i)
  generalize s.step i = c at ho
  cases ho with
  | trapped target => exact h.of_trap target
  | running _ hp =>
    have hc := h.idle_of_multi hp
    have hl := transactionLeft_idle (i := i) hc
    exact of_idle (by simp [hl, hc]) (by simp [hl, h.not_discard_of_idle hc]) (by simp [hp])
  | finished k u _ hp =>
    have hc := h.idle_of_multi hp
    have hl := transactionLeft_idle (i := i) hc
    rw [Cycle.unitDone_eq]
    exact of_idle (by simp [hl, hc]) (by simp [hl, h.not_discard_of_idle hc])
      Cycle.target_of_complete
  | parked _ hp hc =>
    have hl := transactionLeft_idle (i := i) hc
    exact of_idle (by simp [hl, hc]) (by simp [hl, h.not_discard_of_idle hc])
      Cycle.target_of_complete
  | pending _ hp hc hq => exact h.of_pending hp hc hq
  | answered q c _ hp _ hq ha => exact of_answered hp hq ha
  | passed p b _ hp hn => exact h.of_open (i := i) hn (by simp) hp
  | accepted d c _ _ ho ha => exact h.of_accepted ho.csr ha

end State.BusFits

/-! ## All together -/

section

attribute [local simp] opening_eq Cycle.trap Cycle.occupied Cycle.ready Cycle.raise Cycle.accept
  Cycle.keep Cycle.complete_eq Cycle.unitDone_eq Cycle.accessCsr Cycle.command Cycle.writeCsr
  waiting_or_single_ne_multi

theorem State.SlotsFit.step (h : s.state.SlotsFit) : (s.step i).next.SlotsFit := by
  have ho := step_outcome (s := s) (i := i)
  generalize s.step i = c at ho
  have hne {p : Phase} (hp : p = .single ∨ p.IsOpen) : p ≠ .multi := by
    rcases hp with rfl | rfl | rfl | rfl <;> simp
  cases ho with
  | trapped target => exact h.of_trap (i := i) (by simp) (by simp)
  | running _ hp hu =>
    exact h.of_left (i := i) (by simp) (iff_of_true (by simpa) (h.of_running hp hu))
  | finished k u _ hp hu =>
    exact h.of_left (i := i) (by simp) (iff_of_false (by simp) (h.of_finished hu))
  | parked _ hp => exact h.of_not_multi (i := i) (hne (.inl hp)) (by simp) (by simp)
  | pending _ hp => exact h.of_not_multi (i := i) (hne (.inl hp)) (by simp) (by simp [hp])
  | answered q c _ hp _ _ ha =>
    refine h.of_not_multi (i := i) (hne (.inl hp)) ?_ ?_
    · cases ha <;> simp
    · cases ha <;> simp [hp]
  | passed p b _ hp hn => exact h.of_not_multi (i := i) (hne (.inr hp)) (by simp) (hne (.inr hn))
  | accepted d c _ hp _ ha =>
    cases ha with
    | dispatch k _ _ hb => exact .of_dispatch (i := i) (k := k) (d := d) hb (by simp) (by simp)
    | _ => exact h.of_not_multi (i := i) (hne (.inr hp)) (by simp) (by simp)

end

theorem State.Controlled.step (h : s.state.Controlled) : (s.step i).next.Controlled where
  toSlotsFit := h.toSlotsFit.step
  toBusFits := h.toBusFits.step
  hazards := by
    have hleft : (s.hazardsLeft i).Sound := by
      unfold hazardsLeft
      cases i.retired with
      | none => exact h.hazards
      | some w => exact h.hazards.commit ..
    cases step_handed (s := s) (i := i) with
    | squashed _ _ hh =>
      rw [hh]
      exact .empty
    | kept _ _ hh => rwa [hh]
    | handed d _ _ _ _ _ _ hh =>
      rw [hh]
      split
      · exact hleft
      · exact hleft.issue ..

/-! ## Triggers -/

/-- The unit that an instruction is dispatched to. -/
def dispatchSlot? (fpuEnabled : Bool) (d : DecodedInstruction) : Option Slot :=
  if isIllegal fpuEnabled d then none else d.opcode.cls.slot?

variable {d : DecodedInstruction} {k : Slot}

section

attribute [local simp] opening_eq Cycle.trap Cycle.occupied Cycle.ready Cycle.raise Cycle.accept
  Cycle.keep Cycle.complete_eq Cycle.unitDone_eq Cycle.accessCsr Cycle.command Cycle.writeCsr
  slotsLeft_enable

/-- A trigger comes from a dispatch. -/
theorem dispatched_of_enable (h : ((s.step i).next.slots.get k).enable = true) :
    ∃ d, (s.step i).out.valid = true ∧ i.instruction = some d ∧
      dispatchSlot? s.fpuEnabled d = some k := by
  have ho := step_outcome (s := s) (i := i)
  generalize s.step i = c at ho h
  cases ho with
  | trapped =>
    simp only [Cycle.trap, opening_eq, PerSlot.get_map] at h
    split at h <;> simp at h
  | running | parked | pending | finished | passed => simp at h
  | answered _ _ _ _ _ _ ha => cases ha <;> simp at h
  | accepted d c _ _ ho ha =>
    cases ha with
    | dispatch j hl hd =>
      have hk : k = j := by
        by_contra hne
        simp [PerSlot.get_set_other _ hne] at h
      exact ⟨d, by simp, ho.instruction, by simp [dispatchSlot?, hl, hd, hk]⟩
    | _ => simp at h

/-- A dispatch triggers its unit, with the operands of the instruction. -/
theorem start_of_dispatched (hv : (s.step i).out.valid = true) (hi : i.instruction = some d)
    (hk : dispatchSlot? s.fpuEnabled d = some k) :
    (s.step i).next.slots.get k = .start d i := by
  have hl : isIllegal s.fpuEnabled d = false := by
    by_contra hl
    simp [dispatchSlot?, hl] at hk
  have hslot : d.opcode.cls.slot? = some k := by simpa [dispatchSlot?, hl] using hk
  have ho := step_outcome (s := s) (i := i)
  generalize s.step i = c at ho hv
  cases ho with
  | trapped | running | parked | pending | finished | passed => simp at hv
  | answered _ _ _ _ _ _ ha => cases ha <;> simp at hv
  | accepted d' c _ _ ho ha =>
    obtain rfl : d = d' := Option.some.inj (hi.symm.trans ho.instruction)
    cases ha with
    | dispatch j _ hd =>
      obtain rfl : k = j := Option.some.inj (hslot.symm.trans hd)
      simp
    | illegal hl' => rw [hl] at hl'; cases hl'
    | alu _ hd | misaligned _ hd | memory _ hd =>
      rcases hd with hd | hd <;> rw [hd] at hslot <;> cases hslot
    | branch _ hd | jump _ hd | csr _ hd | trapReturn _ hd | wfi _ hd | ecall _ hd | ebreak _ hd
    | fence _ hd =>
      rw [hd] at hslot
      cases hslot

end

/-- Whatever is done to the stage its registers fit each other, and a unit is triggered exactly in
the cycles that follow the dispatch of an instruction to it, with the operands of that
instruction. -/
theorem bench_controlled (fpuEnabled : Bool) (es : List (Clocked.Event Input)) :
    let b := clocked.bench { fpuEnabled } es
    b.state.state.Controlled ∧
      ∀ (i : Input) (reset : Bool) (next : Input) (k : Slot),
        let o := clocked.output b.state i
        let n := clocked.clock reset (clocked.evaluate b i)
        let trigger := (clocked.output n.state next).units.get k
        (trigger.enable = true ↔ reset = false ∧ ∃ d, o.valid = true ∧ i.instruction = some d ∧
          dispatchSlot? fpuEnabled d = some k) ∧
        ∀ d, reset = false → o.valid = true → i.instruction = some d →
          dispatchSlot? fpuEnabled d = some k →
            trigger = { enable := true
                        opcode := some d.opcode
                        a := operandA d i
                        b := operandB d i } := by
  intro b
  obtain ⟨hf, hc⟩ : b.state.fpuEnabled = fpuEnabled ∧ b.state.state.Controlled :=
    Clocked.bench_induction (m := clocked)
      (I := fun x => x.fpuEnabled = fpuEnabled ∧ x.state.Controlled) (fun _ => rfl)
      (fun x i h => ⟨h.1, h.2.step⟩) (fun x h => ⟨h.1, .initial⟩) ⟨rfl, .initial⟩ es
  refine ⟨hc, fun i reset next k => ?_⟩
  intro o n trigger
  have htrigger : trigger = (n.state.state.slots.get k).request := step_wired.units k
  cases reset with
  | true =>
    have hr : trigger.enable = false := by
      rw [htrigger]
      cases k <;> rfl
    exact ⟨by simp [hr], fun d hr => by cases hr⟩
  | false =>
    have hn : n.state.state = (b.state.step i).next := rfl
    rw [htrigger, hn]
    have hstart (d : DecodedInstruction) (hv : o.valid = true) (hi : i.instruction = some d)
        (hk : dispatchSlot? fpuEnabled d = some k) :
        (b.state.step i).next.slots.get k = .start d i :=
      start_of_dispatched hv hi (by rwa [hf])
    refine ⟨⟨fun he => ⟨rfl, ?_⟩, ?_⟩, ?_⟩
    · rw [← hf]
      exact dispatched_of_enable he
    · rintro ⟨-, d, hv, hi, hk⟩
      rw [hstart d hv hi hk]
      rfl
    · intro d _ hv hi hk
      rw [hstart d hv hi hk]
      rfl

/-- Multiplies x1 and x2 into x3. -/
def multiply : DecodedInstruction := { pc := resetVector, word := 0x022081b3, opcode := .mul }

/-- The multiplier is told to begin in the cycle after the dispatch. -/
theorem bench_controlled_multiply :
    let i : Input := { instruction := some multiply, a := 6, b := 7 }
    let n := clocked.clock false (clocked.evaluate (clocked.bench {} []) i)
    (clocked.output n.state {}).units.get .mul =
      { enable := true, opcode := some .mul, a := 6, b := 7 } := by
  intro i n
  exact ((bench_controlled true []).2 i false {} .mul).2 multiply rfl (by decide +kernel) rfl
    (by decide)

end Execute

end RiscvPipeline
