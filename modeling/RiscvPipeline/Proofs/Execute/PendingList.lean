import RiscvPipeline.Proofs.Execute.Control

/-!
# The tracker and the list of pending writes

The tracker of pending writes is an array of slots of which the first `depth` are taken, and the
list that it stands for is the one of the writes in them, oldest first (`HazardTracker.pending`).
Issuing and committing give the same answers on the list, where committing is `List.erase`, and
leave the list that the tracker then stands for (`HazardTracker.act_refines`). Since a slot that is
given up is cleared, trackers with the same list are the same (`HazardTracker.Tidy.ext`).
`HazardTracker.tracks_list` says so of every history from the empty tracker.
-/

namespace RiscvPipeline.HazardTracker

/-! ## Operations -/

/-- An operation that changes the tracker. -/
inductive Action
  | issue (target : RegIndex) (tag : Tag)
  | commit (target : RegIndex) (tag : Tag)
  | flush

/-- An operation on the tracker: whether a write was added or removed, and the tracker after it.
Flushing drops whatever is pending and answers nothing. -/
def act (t : HazardTracker) : Action → Option Bool × HazardTracker
  | .issue r g => (some (t.issue? r g).isSome, t.issue r g)
  | .commit r g => (some (t.commit? r g).isSome, t.commit r g)
  | .flush => (none, {})

/-- The operation on a list of at most `capacity` writes, oldest first. Of equal writes `List.erase`
removes the first. -/
def actList (l : List PendingWrite) : Action → Option Bool × List PendingWrite
  | .issue r g =>
    if r ≠ 0 ∧ l.length < capacity then (some true, l ++ [⟨r, g % 8⟩]) else (some false, l)
  | .commit r g => if ⟨r, g⟩ ∈ l then (some true, l.erase ⟨r, g⟩) else (some false, l)
  | .flush => (none, [])

/-- The tracker after some operations. -/
def after (as : List Action) : HazardTracker := as.foldl (fun t a => (t.act a).2) {}

/-- The list after some operations. -/
def afterList (as : List Action) : List PendingWrite := as.foldl (fun l a => (actList l a).2) []

variable {t u : HazardTracker}

/-! ## What is kept -/

theorem and_tagMask (g : Tag) : g &&& tagMask = g % 8 := by
  refine BitVec.eq_of_toNat_eq ?_
  rw [BitVec.toNat_and, BitVec.toNat_umod]
  exact Nat.and_two_pow_sub_one_eq_mod g.toNat 3

/-- Tags have three bits, and slots that are not taken are empty. -/
structure Tidy (t : HazardTracker) : Prop extends t.Sound where
  tags : ∀ w ∈ t.pending, w.tag.toNat ≤ 7
  vacant : ∀ k, t.depth ≤ k → t.slot k = {}

namespace Tidy

theorem empty : Tidy {} where
  toSound := .empty
  tags := by simp [pending]
  vacant k _ := by
    by_cases hk : k < 3
    · simp [slot, hk]
    · exact slot_of_capacity_le (Nat.le_of_not_lt hk)

theorem issue (h : t.Tidy) (r : RegIndex) (g : Tag) : (t.issue r g).Tidy := by
  have hs := h.toSound.issue r g
  obtain ⟨-, hi⟩ | ⟨⟨hr, hf⟩, hi⟩ := t.issue?_cases r g
  · rwa [HazardTracker.issue, hi]
  · refine ⟨hs, fun w hw => ?_, fun k hk => ?_⟩
    · rw [(h.wf.issue hr hf).2, and_tagMask, List.mem_append, List.mem_singleton] at hw
      obtain hw | rfl := hw
      · exact h.tags w hw
      · exact Nat.le_of_lt_succ (Nat.mod_lt _ (by decide))
    · rw [HazardTracker.issue, hi, Option.getD_some] at hk ⊢
      have hk : t.depth + 1 ≤ k := hk
      rw [slot_setIfInBounds (h.wf.depth_lt hf), if_neg (by omega)]
      exact h.vacant k (by omega)

theorem commit (h : t.Tidy) (r : RegIndex) (g : Tag) : (t.commit r g).Tidy := by
  refine ⟨h.toSound.commit r g, fun w hw => ?_, fun k hk => ?_⟩
  · rw [(h.wf.commit r g).2] at hw
    exact h.tags w (List.mem_of_mem_erase hw)
  · obtain ⟨-, hc⟩ | ⟨-, n, hn, hc, -⟩ := t.commit?_cases r g
    · rw [HazardTracker.commit, hc] at hk ⊢
      exact h.vacant k hk
    · rw [h.wf.length_pending] at hn
      rw [HazardTracker.commit, hc, Option.getD_some] at hk ⊢
      have hk : t.depth - 1 ≤ k := hk
      rw [h.wf.slot_remove (by omega)]
      split
      · rfl
      · rw [if_neg (by omega)]
        exact h.vacant k (by omega)

theorem act (h : t.Tidy) (a : Action) : (t.act a).2.Tidy := by
  cases a with
  | issue r g => exact h.issue r g
  | commit r g => exact h.commit r g
  | flush => exact .empty

/-- The slots hold the pending writes and are empty behind them. -/
theorem slot_eq (h : t.Tidy) (k : Nat) : t.slot k = (t.pending[k]?).getD {} := by
  rw [h.wf.getElem?_pending]
  split
  next => rfl
  next hk => exact h.vacant k (Nat.le_of_not_lt hk)

/-- A tracker has no state but the pending writes. -/
theorem ext (h : t.Tidy) (hu : u.Tidy) (hp : t.pending = u.pending) : t = u := by
  have hd : t.depth = u.depth := by rw [← h.wf.length_pending, hp, hu.wf.length_pending]
  have hs : t.slots = u.slots := by
    refine Vector.ext fun k hk => ?_
    have hslot : t.slot k = u.slot k := by rw [h.slot_eq, hu.slot_eq, hp]
    simpa [slot, hk] using hslot
  obtain ⟨_, _⟩ := t
  cases hs
  cases hd
  rfl

end Tidy

/-! ## Refinement -/

/-- An operation on the tracker is the operation on the list. -/
theorem act_refines (h : t.Tidy) (a : Action) :
    (t.act a).1 = (actList t.pending a).1 ∧ (t.act a).2.pending = (actList t.pending a).2 := by
  cases a with
  | issue r g =>
    obtain ⟨hno, hi⟩ | ⟨⟨hr, hf⟩, hi⟩ := t.issue?_cases r g
    · have hno : ¬ (r ≠ 0 ∧ t.pending.length < capacity) := by
        rw [h.wf.length_pending]
        rintro ⟨hr, hlt⟩
        exact Nat.ne_of_lt hlt (eq_of_beq (hno.resolve_left hr))
      rw [act, actList, if_neg hno, HazardTracker.issue, hi]
      exact ⟨rfl, rfl⟩
    · have hlt : t.pending.length < capacity := h.wf.length_pending ▸ h.wf.depth_lt hf
      rw [act, actList, if_pos ⟨hr, hlt⟩, (h.wf.issue hr hf).2, hi, and_tagMask]
      exact ⟨rfl, rfl⟩
  | commit r g =>
    rw [act, actList, (h.wf.commit r g).2]
    obtain ⟨hm, hc⟩ | ⟨hm, n, -, hc, -⟩ := t.commit?_cases r g
    · rw [if_neg hm, hc, List.erase_of_not_mem hm]
      exact ⟨rfl, rfl⟩
    · rw [if_pos hm, hc]
      exact ⟨rfl, rfl⟩
  | flush => exact ⟨rfl, rfl⟩

/-- A write that is not added or not found changes nothing, the slots included. -/
theorem act_refused (a : Action) (ha : (t.act a).1 = some false) : (t.act a).2 = t := by
  cases a with
  | issue r g =>
    have hi : t.issue? r g = none := by simpa [act] using ha
    rw [act, HazardTracker.issue, hi, Option.getD_none]
  | commit r g =>
    have hc : t.commit? r g = none := by simpa [act] using ha
    rw [act, HazardTracker.commit, hc, Option.getD_none]
  | flush => cases ha

theorem after_concat (as : List Action) (a : Action) : after (as ++ [a]) = ((after as).act a).2 :=
  List.foldl_append ..

theorem afterList_concat (as : List Action) (a : Action) :
    afterList (as ++ [a]) = (actList (afterList as) a).2 :=
  List.foldl_append ..

/-- The operations so far keep the tracker tidy, and what is pending is the list after them. -/
theorem after_refines (as : List Action) :
    (after as).Tidy ∧ (after as).pending = afterList as := by
  induction as using List.reverseRecOn with
  | nil => exact ⟨.empty, rfl⟩
  | append_singleton as a ih =>
    obtain ⟨ht, hp⟩ := ih
    rw [after_concat, afterList_concat, ← hp]
    exact ⟨ht.act a, (act_refines ht a).2⟩

/-! ## Queries -/

/-- What a tracker shows of the list that it stands for. -/
structure Shows (t : HazardTracker) (l : List PendingWrite) : Prop where
  pending : t.pending = l
  depth : t.depth = l.length
  bound : t.depth ≤ capacity
  vacant : ∀ w ∈ t.slots.toList.drop t.depth, w = {}
  targets : ∀ w ∈ l, w.target ≠ 0
  tags : ∀ w ∈ l, w.tag.toNat ≤ 7
  isEmpty : t.isEmpty = l.isEmpty
  isFull : t.isFull = decide (l.length = capacity)
  latest : t.latest? = l.getLast?.map (·.target)
  isPending : ∀ r, t.isPending r = l.any (·.target == r)
  conflicts : ∀ rs, t.conflicts rs = true ↔ ∃ w ∈ l, some w.target ∈ rs

theorem WF.latest?_eq (h : t.WF) : t.latest? = t.pending.getLast?.map (·.target) := by
  rw [List.getLast?_eq_getElem?, h.getElem?_pending, h.length_pending, latest?, isEmpty]
  rcases Nat.eq_zero_or_pos t.depth with hd | hd
  · simp [hd]
  · have hlt : t.depth - 1 < t.depth := Nat.sub_lt hd Nat.one_pos
    simp [Nat.ne_of_gt hd, hlt]

namespace Tidy

theorem isPending_eq (h : t.Tidy) (r : RegIndex) :
    t.isPending r = t.pending.any (·.target == r) := by
  rw [Bool.eq_iff_iff, isPending_iff, List.any_eq_true]
  simp only [beq_iff_eq]
  exact ⟨And.right, fun ⟨w, hw, hr⟩ => ⟨hr ▸ h.targets w hw, w, hw, hr⟩⟩

theorem conflicts_iff (h : t.Tidy) (rs : List (Option RegIndex)) :
    t.conflicts rs = true ↔ ∃ w ∈ t.pending, some w.target ∈ rs := by
  simp only [HazardTracker.conflicts, List.any_eq_true, Option.any_eq_true, h.isPending_eq,
    beq_iff_eq]
  constructor
  · rintro ⟨_, hr, r, rfl, w, hw, rfl⟩
    exact ⟨w, hw, hr⟩
  · rintro ⟨w, hw, hr⟩
    exact ⟨_, hr, _, rfl, w, hw, rfl⟩

theorem shows (h : t.Tidy) : t.Shows t.pending where
  pending := rfl
  depth := h.wf.length_pending.symm
  bound := h.wf
  vacant w hw := by
    obtain ⟨k, hk⟩ := List.mem_iff_getElem?.mp hw
    rw [List.getElem?_drop, Vector.getElem?_toList] at hk
    rw [← h.vacant (t.depth + k) (Nat.le_add_right _ _), slot, hk]
    rfl
  targets := h.targets
  tags := h.tags
  isEmpty := by
    rw [Bool.eq_iff_iff, HazardTracker.isEmpty, beq_iff_eq, List.isEmpty_iff,
      ← List.length_eq_zero_iff, h.wf.length_pending]
  isFull := by
    rw [h.wf.length_pending]
    rfl
  latest := h.wf.latest?_eq
  isPending := h.isPending_eq
  conflicts := h.conflicts_iff

end Tidy

/-- What every further operation on a tracker does is what it does on the list. -/
structure Follows (t : HazardTracker) : Prop where
  answer : ∀ a, (t.act a).1 = (actList t.pending a).1
  pending : ∀ a, (t.act a).2.pending = (actList t.pending a).2
  refused : ∀ a, (t.act a).1 = some false → (t.act a).2 = t

/-- In every history from the empty tracker the tracker shows the list after the same operations and
answers the next one as the list does, and it is told apart from others by its list alone. -/
theorem tracks_list (as : List Action) :
    (after as).Shows (afterList as) ∧ (after as).Follows ∧
      ∀ bs, after as = after bs ↔ (after as).pending = (after bs).pending := by
  obtain ⟨ht, hp⟩ := after_refines as
  refine ⟨hp ▸ ht.shows, ?_, fun bs => ⟨fun h => h ▸ rfl, ht.ext (after_refines bs).1⟩⟩
  exact {
    answer := fun a => (act_refines ht a).1
    pending := fun a => (act_refines ht a).2
    refused := act_refused }

example : (after [.issue 5 1, .issue 5 2, .issue 6 9, .commit 5 2]).slots.toList =
    [⟨5, 1⟩, ⟨6, 1⟩, {}] := by decide

end RiscvPipeline.HazardTracker
