import RiscvPipeline.Proofs.Memory.Queue

/-!
# The ring and the list

The queue of memory operations is a ring of two slots, and the list that it stands for is the one of
its entries, oldest first. The same operations on a list of at most `MemoryQueue.capacity` entries
give the same answers and the list of the ring after them (`MemoryQueue.act_refines`), so that every
history from the empty ring is one of the list. `MemoryQueue.refines_list` puts it together with
what the list does not show: the positions, and the slots that an operation leaves alone.
-/

namespace RiscvPipeline.MemoryQueue

/-! ## Operations -/

/-- An operation that changes the queue. -/
inductive Action
  | push (e : QueueEntry)
  | pop
  | flush

/-- What an operation returns. -/
inductive Answer
  | pushed (taken : Bool)
  | popped (e : Option QueueEntry)
  | flushed
  deriving DecidableEq

/-- An operation on the ring: its answer, and the ring after it. -/
def act (q : MemoryQueue) : Action → Answer × MemoryQueue
  | .push e =>
    match q.push? e with
    | some r => (.pushed true, r)
    | none => (.pushed false, q)
  | .pop =>
    match q.pop? with
    | some (e, r) => (.popped (some e), r)
    | none => (.popped none, q)
  | .flush => (.flushed, q.flush)

/-- The operation on a list of at most `capacity` entries. -/
def actList (l : List QueueEntry) : Action → Answer × List QueueEntry
  | .push e => if l.length < capacity then (.pushed true, l ++ [e]) else (.pushed false, l)
  | .pop => (.popped l.head?, l.tail)
  | .flush => (.flushed, l.map fun e => { e with flushed := true })

/-- The answers to some operations, and the state after them. -/
def runWith {σ : Type} (f : σ → Action → Answer × σ) (s : σ) : List Action → List Answer × σ
  | [] => ([], s)
  | a :: as => ((f s a).1 :: (runWith f (f s a).2 as).1, (runWith f (f s a).2 as).2)

variable {q : MemoryQueue} {l : List QueueEntry}

/-! ## Refinement -/

/-- The ring stands for the list. -/
structure Stands (q : MemoryQueue) (l : List QueueEntry) : Prop where
  wf : q.WF
  toList : q.toList = l

theorem Stands.empty : Stands {} [] := ⟨.empty, rfl⟩

theorem Stands.length (h : q.Stands l) : l.length = q.count := h.toList ▸ length_toList

theorem Stands.isFull (h : q.Stands l) : q.isFull = decide (l.length = capacity) := by
  rw [h.length]
  rfl

theorem Stands.peek? (h : q.Stands l) : q.peek? = l.head? := by
  obtain ⟨hw, rfl⟩ := h
  rw [MemoryQueue.peek?, isEmpty_eq]
  cases hl : q.toList with
  | nil => rfl
  | cons e es =>
    obtain ⟨r, hp, -, -⟩ := hw.pop_cons hl
    have he : q.isEmpty = false := by rw [isEmpty_eq, hl]; rfl
    rw [pop?, he] at hp
    exact congrArg some (Prod.mk.inj (Option.some.inj hp)).1

/-- An operation on the ring is the operation on the list. -/
theorem act_refines (h : q.Stands l) (a : Action) :
    (q.act a).1 = (actList l a).1 ∧ (q.act a).2.Stands (actList l a).2 := by
  cases a with
  | push e =>
    cases hf : q.isFull with
    | true =>
      have hlen : l.length = capacity := by simpa [h.isFull] using hf
      have hp : q.push? e = none := by rw [push?, hf]; rfl
      rw [act, hp, actList, if_neg (by omega)]
      exact ⟨rfl, h⟩
    | false =>
      have hne : l.length ≠ capacity := by simpa [h.isFull] using hf
      have hle : l.length ≤ capacity := h.length ▸ h.wf.count
      obtain ⟨r, hp, hr, hl⟩ := h.wf.push hf e
      rw [act, hp, actList, if_pos (by omega)]
      exact ⟨rfl, hr, by rw [hl, h.toList]⟩
  | pop =>
    cases l with
    | nil =>
      rw [act, pop_nil h.toList]
      exact ⟨rfl, h⟩
    | cons e l =>
      obtain ⟨r, hp, hr, hl⟩ := h.wf.pop_cons h.toList
      rw [act, hp]
      exact ⟨rfl, hr, hl⟩
  | flush =>
    obtain ⟨hr, hl⟩ := h.wf.flush
    exact ⟨rfl, hr, by rw [act, hl, h.toList, actList]⟩

theorem runWith_refines (h : q.Stands l) (as : List Action) :
    (runWith act q as).1 = (runWith actList l as).1 ∧
      (runWith act q as).2.Stands (runWith actList l as).2 := by
  induction as generalizing q l with
  | nil => exact ⟨rfl, h⟩
  | cons a as ih =>
    obtain ⟨ha, hs⟩ := act_refines h a
    obtain ⟨has, hlast⟩ := ih hs
    exact ⟨by rw [runWith, runWith, ha, has], hlast⟩

/-- What a queue shows of the list that it stands for. -/
structure Shows (q : MemoryQueue) (l : List QueueEntry) : Prop where
  head : q.head < capacity
  tail : q.tail < capacity
  tail_eq : q.tail = (q.head + q.count) % capacity
  count : q.count ≤ capacity
  toList : q.toList = l
  length : q.count = l.length
  isEmpty : q.isEmpty = l.isEmpty
  isFull : q.isFull = decide (l.length = capacity)
  peek : q.peek? = l.head?

/-- What the operations on a queue leave as it is. -/
structure Spares (q : MemoryQueue) : Prop where
  refused : ∀ e, (q.act (.push e)).1 = .pushed false → (q.act (.push e)).2 = q
  nothing : (q.act .pop).1 = .popped none → (q.act .pop).2 = q
  positions : q.flush.head = q.head ∧ q.flush.tail = q.tail ∧ q.flush.count = q.count
  slots : ∀ k, q.flush.slot k = if k ∈ q.held then { q.slot k with flushed := true } else q.slot k

theorem Stands.shows (h : q.Stands l) : q.Shows l where
  head := h.wf.head
  tail := h.wf.tail ▸ Nat.mod_lt _ (by decide)
  tail_eq := h.wf.tail
  count := h.wf.count
  toList := h.toList
  length := h.length.symm
  isEmpty := h.toList ▸ isEmpty_eq
  isFull := h.isFull
  peek := h.peek?

theorem spares (q : MemoryQueue) : q.Spares where
  refused e h := by
    cases hp : q.push? e with
    | none => rw [act, hp]
    | some r => rw [act, hp] at h; cases h
  nothing h := by
    cases hp : q.pop? with
    | none => rw [act, hp]
    | some r => rw [act, hp] at h; cases h
  positions := positions_flush
  slots := slot_flush

/-- In every history from the empty ring the operations answer as those on the list do, and the ring
afterwards shows that list. -/
theorem refines_list (as : List Action) :
    let q := (runWith act {} as).2
    let l := (runWith actList [] as).2
    (runWith act {} as).1 = (runWith actList [] as).1 ∧ q.Shows l ∧ q.Spares := by
  intro q l
  obtain ⟨ha, hs⟩ := runWith_refines .empty as
  exact ⟨ha, hs.shows, spares q⟩

end RiscvPipeline.MemoryQueue
