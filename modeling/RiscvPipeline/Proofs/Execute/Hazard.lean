import RiscvPipeline.Execute.Hazard

/-! The tracker of pending writes as a list. -/

namespace RiscvPipeline

namespace HazardTracker

/-- No more writes are pending than there is room for. -/
def WF (t : HazardTracker) : Prop := t.depth ≤ capacity

theorem WF.empty : WF {} := Nat.zero_le _

variable {t : HazardTracker}

/-! ## Slots -/

theorem slot_of_capacity_le {k : Nat} (hk : capacity ≤ k) : t.slot k = {} := by
  have hk : 3 ≤ k := hk
  rw [slot, Vector.getElem?_eq_none hk]
  rfl

theorem getElem?_slots {k : Nat} (hk : k < capacity) : t.slots[k]? = some (t.slot k) := by
  have hk : k < 3 := hk
  simp [slot, hk]

theorem slot_setIfInBounds {n : Nat} (hn : n < capacity) (w : PendingWrite) (d k : Nat) :
    slot ⟨t.slots.setIfInBounds n w, d⟩ k = if n = k then w else t.slot k := by
  have hn : n < 3 := hn
  simp only [slot, Vector.getElem?_setIfInBounds]
  split <;> simp_all

theorem WF.slot_remove (h : t.WF) (hd : 0 < t.depth) (n k : Nat) :
    (t.remove n).slot k = if k + 1 = t.depth then {}
      else if n ≤ k ∧ k + 1 < t.depth then t.slot (k + 1) else t.slot k := by
  have h : t.depth ≤ 3 := h
  by_cases hk : k < capacity
  · have hk' : k < 3 := hk
    by_cases hkd : k + 1 = t.depth
    · have : t.depth - 1 = k := by omega
      simp [remove, slot, this, hkd, hk']
    · have : t.depth - 1 ≠ k := by omega
      simp only [remove, slot, Vector.getElem?_setIfInBounds, this, hkd, if_false,
        Vector.getElem?_ofFn, hk', dite_true, Option.getD_some]
  · have hk : capacity ≤ k := Nat.le_of_not_lt hk
    have hk' : 3 ≤ k := hk
    rw [slot_of_capacity_le hk, slot_of_capacity_le hk, if_neg (by omega), if_neg (by omega)]

theorem WF.getElem?_pending (h : t.WF) (k : Nat) :
    t.pending[k]? = if k < t.depth then some (t.slot k) else none := by
  have h : t.depth ≤ capacity := h
  rw [pending, List.getElem?_take, Vector.getElem?_toList]
  split
  next hk => exact getElem?_slots (by omega)
  next => rfl

theorem WF.length_pending (h : t.WF) : t.pending.length = t.depth := by
  have h : t.depth ≤ 3 := h
  simp [pending, h]

/-! ## Issuing -/

theorem issue_zero (g : Tag) : t.issue 0 g = t := by simp [issue, issue?]

/-- A write goes into the first slot that is not taken, or it is refused. -/
theorem issue?_cases (t : HazardTracker) (r : RegIndex) (g : Tag) :
    (r = 0 ∨ t.isFull = true) ∧ t.issue? r g = none ∨
      (r ≠ 0 ∧ t.isFull = false) ∧ t.issue? r g = some
        ⟨t.slots.setIfInBounds t.depth ⟨r, g &&& tagMask⟩, t.depth + 1⟩ := by
  unfold issue?
  by_cases hr : r = 0
  · exact .inl ⟨.inl hr, by simp [hr]⟩
  · cases hf : t.isFull with
    | true => exact .inl ⟨.inr rfl, by simp⟩
    | false => exact .inr ⟨⟨hr, rfl⟩, by rw [beq_false_of_ne hr]; rfl⟩

theorem WF.depth_lt (h : t.WF) (hf : t.isFull = false) : t.depth < capacity :=
  Nat.lt_of_le_of_ne h (by simpa [isFull] using hf)

/-- A write that is tracked goes behind the others. -/
theorem WF.issue (h : t.WF) {r : RegIndex} {g : Tag} (hr : r ≠ 0) (hf : t.isFull = false) :
    (t.issue r g).WF ∧ (t.issue r g).pending = t.pending ++ [⟨r, g &&& tagMask⟩] := by
  have hlt := h.depth_lt hf
  obtain ⟨hno, -⟩ | ⟨-, hi⟩ := t.issue?_cases r g
  · exact (hno.elim hr (by simp [hf])).elim
  rw [HazardTracker.issue, hi, Option.getD_some]
  have hw : WF ⟨t.slots.setIfInBounds t.depth ⟨r, g &&& tagMask⟩, t.depth + 1⟩ := hlt
  refine ⟨hw, List.ext_getElem? fun k => ?_⟩
  rw [hw.getElem?_pending, slot_setIfInBounds hlt]
  rcases Nat.lt_trichotomy k t.depth with hk | rfl | hk
  · rw [List.getElem?_append_left (by rwa [h.length_pending]), h.getElem?_pending, if_pos hk,
      if_pos (by simp; omega), if_neg (by omega)]
  · simp [h.length_pending]
  · rw [if_neg (by simp; omega), List.getElem?_eq_none]
    simp [h.length_pending]
    omega

/-! ## Committing -/

/-- The writes behind the one that is given up keep their order. -/
theorem WF.remove (h : t.WF) {n : Nat} (hn : n < t.depth) :
    (t.remove n).WF ∧ (t.remove n).pending = t.pending.eraseIdx n := by
  have hw : (t.remove n).WF := Nat.le_trans (Nat.sub_le _ _) h
  have hd : (t.remove n).depth = t.depth - 1 := rfl
  refine ⟨hw, List.ext_getElem? fun k => ?_⟩
  rw [hw.getElem?_pending, h.slot_remove (by omega), hd, List.getElem?_eraseIdx,
    h.getElem?_pending, h.getElem?_pending]
  -- what is left compares the slot that `k` is read from on either side of `n`
  grind

/-- A commit gives up the slot of the oldest such write, or there is none. -/
theorem commit?_cases (t : HazardTracker) (r : RegIndex) (g : Tag) :
    ⟨r, g⟩ ∉ t.pending ∧ t.commit? r g = none ∨
      ⟨r, g⟩ ∈ t.pending ∧ ∃ n < t.pending.length,
        t.commit? r g = some (t.remove n) ∧ t.pending.erase ⟨r, g⟩ = t.pending.eraseIdx n := by
  have he := t.pending.erase_eq_eraseIdx ⟨r, g⟩
  rw [List.idxOf?] at he
  unfold commit?
  cases hf : t.pending.findIdx? (· == ⟨r, g⟩) with
  | none =>
    refine .inl ⟨fun hm => ?_, rfl⟩
    simpa using List.findIdx?_eq_none_iff.mp hf _ hm
  | some n =>
    obtain ⟨hn, hw, -⟩ := List.findIdx?_eq_some_iff_getElem.mp hf
    rw [hf] at he
    have hw : t.pending[n] = ⟨r, g⟩ := by simpa using hw
    exact .inr ⟨hw ▸ List.getElem_mem hn, n, hn, rfl, he⟩

/-- The oldest write with the register and the tag leaves, if there is one. -/
theorem WF.commit (h : t.WF) (r : RegIndex) (g : Tag) :
    (t.commit r g).WF ∧ (t.commit r g).pending = t.pending.erase ⟨r, g⟩ := by
  rcases t.commit?_cases r g with ⟨hm, hc⟩ | ⟨-, n, hn, hc, he⟩
  · rw [HazardTracker.commit, hc, List.erase_of_not_mem hm]
    exact ⟨h, rfl⟩
  · rw [HazardTracker.commit, hc, he]
    exact h.remove (h.length_pending ▸ hn)

/-- The oldest write leaves when it is committed. -/
theorem WF.commit_cons (h : t.WF) {w : PendingWrite} {l : List PendingWrite}
    (hp : t.pending = w :: l) :
    (t.commit w.target w.tag).WF ∧ (t.commit w.target w.tag).pending = l := by
  obtain ⟨hw, he⟩ := h.commit w.target w.tag
  rw [hp, List.erase_cons_head] at he
  exact ⟨hw, he⟩

/-! ## Queries -/

theorem isPending_iff {r : RegIndex} :
    t.isPending r = true ↔ r ≠ 0 ∧ ∃ w ∈ t.pending, w.target = r := by
  simp [isPending]

theorem isPending_of_conflicts {regs : List (Option RegIndex)} (hc : t.conflicts regs = false)
    {r : RegIndex} (hr : some r ∈ regs) : t.isPending r = false := by
  have := List.any_eq_false.mp hc _ hr
  simpa using this

/-- A register that is not in the way of an instruction has no pending write. -/
theorem ne_of_conflicts {regs : List (Option RegIndex)} (hc : t.conflicts regs = false)
    {r : RegIndex} (hr : some r ∈ regs) (h0 : r ≠ 0) {w : PendingWrite} (hw : w ∈ t.pending) :
    w.target ≠ r := by
  intro hwr
  have := isPending_iff.mpr ⟨h0, w, hw, hwr⟩
  rw [isPending_of_conflicts hc hr] at this
  cases this

end HazardTracker

namespace DecodedInstruction

variable {d : DecodedInstruction}

theorem target_mem_hazards (h : d.target ≠ 0) : some d.target ∈ d.hazards := by
  have h : (d.target != 0) = true := bne_iff_ne.mpr h
  simp only [hazards, Bool.true_and, h, if_true]
  exact List.mem_cons_of_mem _ (List.mem_cons_of_mem _ List.mem_cons_self)

theorem source1_mem_hazards (hr : d.opcode.traits.readsRs1 = true) (h : d.source1 ≠ 0) :
    some d.source1 ∈ d.hazards := by
  have h : (d.source1 != 0) = true := bne_iff_ne.mpr h
  simp only [hazards, hr, Bool.true_and, h, if_true]
  exact List.mem_cons_self

theorem source2_mem_hazards (hr : d.opcode.traits.readsRs2 = true) (h : d.source2 ≠ 0) :
    some d.source2 ∈ d.hazards := by
  have h : (d.source2 != 0) = true := bne_iff_ne.mpr h
  simp only [hazards, hr, Bool.true_and, h, if_true]
  exact List.mem_cons_of_mem _ List.mem_cons_self

end DecodedInstruction

end RiscvPipeline
