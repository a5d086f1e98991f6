import Mathlib.Logic.Basic
import RiscvPipeline.Memory.Queue

/-! The ring of memory operations as a list. -/

namespace RiscvPipeline.MemoryQueue

/-- The positions of the ring fit each other. -/
structure WF (q : MemoryQueue) : Prop where
  head : q.head < capacity
  tail : q.tail = (q.head + q.count) % capacity
  count : q.count ≤ capacity

theorem WF.empty : WF {} := ⟨by decide, rfl, by decide⟩

variable {q : MemoryQueue}

@[simp] theorem length_toList : q.toList.length = q.count := by simp [toList]

theorem isEmpty_eq : q.isEmpty = q.toList.isEmpty := by
  rw [Bool.eq_iff_iff, isEmpty, beq_iff_eq, List.isEmpty_iff, ← List.length_eq_zero_iff,
    length_toList]

theorem slot_setIfInBounds (n k : Nat) (e : QueueEntry) (hn : n < capacity) :
    slot { q with slots := q.slots.setIfInBounds n e } k = if n = k then e else q.slot k := by
  have : n < 2 := hn
  simp only [slot, Vector.getElem?_setIfInBounds]
  split <;> simp_all

/-- An operation that is taken goes behind the others. -/
theorem WF.push (h : q.WF) (hf : q.isFull = false) (e : QueueEntry) :
    ∃ r, q.push? e = some r ∧ r.WF ∧ r.toList = q.toList ++ [e] := by
  obtain ⟨hh, ht, hc⟩ := h
  have hlt : q.count < capacity := Nat.lt_of_le_of_ne hc (by simpa [isFull] using hf)
  have hp : q.push? e = some { q with
      slots := q.slots.setIfInBounds q.tail e
      tail := (q.tail + 1) % capacity
      count := q.count + 1 } := by
    unfold push?
    rw [hf]
    rfl
  refine ⟨_, hp, ⟨hh, ?_, hlt⟩, ?_⟩
  · simp only [ht, capacity]; omega
  · have htl : q.tail < capacity := ht ▸ Nat.mod_lt _ (by decide)
    simp only [toList, List.range_succ, List.map_append, List.map_cons, List.map_nil]
    congr 1
    · refine List.map_congr_left fun i hi => ?_
      refine (slot_setIfInBounds (q := q) _ _ e htl).trans (if_neg ?_)
      simp only [List.mem_range, ht, capacity] at hi hlt ⊢
      omega
    · exact congrArg (fun x => [x]) ((slot_setIfInBounds (q := q) _ _ e htl).trans (if_pos ht))

theorem pop_nil (hl : q.toList = []) : q.pop? = none := by
  unfold pop?
  rw [isEmpty_eq, hl]
  rfl

/-- The oldest operation leaves first. -/
theorem WF.pop_cons (h : q.WF) {e : QueueEntry} {l : List QueueEntry} (hl : q.toList = e :: l) :
    ∃ r, q.pop? = some (e, r) ∧ r.WF ∧ r.toList = l := by
  obtain ⟨hh, ht, hc⟩ := h
  have he : q.isEmpty = false := by rw [isEmpty_eq, hl]; rfl
  obtain ⟨c, hcs⟩ : ∃ c, q.count = c + 1 := by
    refine Nat.exists_eq_succ_of_ne_zero fun h0 => ?_
    rw [← length_toList, hl] at h0
    cases h0
  have hl' := hl
  simp only [toList, hcs, List.range_succ_eq_map, List.map_cons, List.map_map,
    List.cons.injEq] at hl'
  obtain ⟨h0, hrest⟩ := hl'
  have hhd : q.slot q.head = e := by
    rwa [Nat.add_zero, Nat.mod_eq_of_lt hh] at h0
  have hp : q.pop? = some (e, { q with
      slots := q.slots.setIfInBounds q.head {}
      head := (q.head + 1) % capacity
      count := q.count - 1 }) := by
    unfold pop?
    rw [he, hhd]
    rfl
  refine ⟨_, hp, ⟨Nat.mod_lt _ (by decide), ?_, ?_⟩, ?_⟩
  · simp only [ht, hcs, capacity]; omega
  · simp only [hcs]; omega
  · rw [← hrest]
    simp only [toList, hcs, Nat.add_sub_cancel]
    refine List.map_congr_left fun i hi => ?_
    have hi : i < c := List.mem_range.mp hi
    have hne : q.head ≠ ((q.head + 1) % capacity + i) % capacity := by
      simp only [hcs, capacity] at hc hh ⊢
      omega
    have hmod : ((q.head + 1) % capacity + i) % capacity = (q.head + (i + 1)) % capacity := by
      simp only [capacity]
      omega
    refine (slot_setIfInBounds (q := q) _ _ {} hh).trans ((if_neg hne).trans ?_)
    rw [hmod]
    rfl

theorem slot_flushSlot (n k : Nat) (hn : n < capacity) :
    (q.flushSlot n).slot k = if n = k then { q.slot k with flushed := true } else q.slot k := by
  refine (slot_setIfInBounds (q := q) n k _ hn).trans ?_
  split
  next h => rw [h]
  next => rfl

theorem slot_foldl_flushSlot {ns : List Nat} (hns : ∀ n ∈ ns, n < capacity) (k : Nat) :
    (ns.foldl flushSlot q).slot k =
      if k ∈ ns then { q.slot k with flushed := true } else q.slot k := by
  induction ns generalizing q with
  | nil => simp
  | cons n ns ih =>
    have hn : n < capacity := hns n List.mem_cons_self
    rw [List.foldl_cons, ih fun m hm => hns m (List.mem_cons_of_mem _ hm), slot_flushSlot n k hn]
    rcases eq_or_ne n k with rfl | hne
    · simp
    · simp [hne, hne.symm]

/-- The slots with an entry, oldest first. -/
def held (q : MemoryQueue) : List Nat := (List.range q.count).map fun i => (q.head + i) % capacity

theorem flush_eq : q.flush = q.held.foldl flushSlot q := (List.foldl_map).symm

/-- Flushing marks what is held and touches no other slot. -/
theorem slot_flush (k : Nat) : q.flush.slot k =
    if k ∈ q.held then { q.slot k with flushed := true } else q.slot k := by
  rw [flush_eq]
  refine slot_foldl_flushSlot (fun n hn => ?_) k
  obtain ⟨i, -, rfl⟩ := List.mem_map.1 hn
  exact Nat.mod_lt _ (by decide)

theorem positions_flush :
    q.flush.head = q.head ∧ q.flush.tail = q.tail ∧ q.flush.count = q.count := by
  rw [flush_eq]
  generalize q.held = ns
  induction ns generalizing q with
  | nil => exact ⟨rfl, rfl, rfl⟩
  | cons n ns ih => exact ih

/-- Flushing marks every operation and moves none. -/
theorem WF.flush (h : q.WF) :
    q.flush.WF ∧ q.flush.toList = q.toList.map fun e => { e with flushed := true } := by
  obtain ⟨hh, ht, hc⟩ := positions_flush (q := q)
  refine ⟨⟨by rw [hh]; exact h.head, by rw [ht, hh, hc]; exact h.tail,
    by rw [hc]; exact h.count⟩, ?_⟩
  rw [toList, toList, hh, hc, List.map_map]
  refine List.map_congr_left fun i hi => ?_
  have hm : (q.head + i) % capacity ∈ q.held := List.mem_map.2 ⟨i, hi, rfl⟩
  rw [slot_flush, if_pos hm]
  rfl

end RiscvPipeline.MemoryQueue
