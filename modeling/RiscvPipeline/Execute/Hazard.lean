import RiscvPipeline.Signals

/-! The registers that outstanding loads will write. -/

namespace RiscvPipeline

/-- At most three pending writes, oldest first, in the slots below `depth`. The others are empty. -/
structure HazardTracker where
  slots : Vector PendingWrite 3 := Vector.replicate 3 {}
  depth : Nat := 0
  deriving DecidableEq

namespace HazardTracker

def capacity : Nat := 3

/-- Tags are three bits wide. -/
def tagMask : Tag := 7

variable (t : HazardTracker)

/-- The write at a slot, which is never out of range. -/
def slot (n : Nat) : PendingWrite := (t.slots[n]?).getD {}

/-- The pending writes, oldest first. -/
def pending : List PendingWrite := t.slots.toList.take t.depth

def isEmpty : Bool := t.depth == 0

def isFull : Bool := t.depth == capacity

/-- The register of the youngest pending write. -/
def latest? : Option RegIndex := if t.isEmpty then none else some (t.slot (t.depth - 1)).target

/-- Some pending write targets the register. Register 0 is never written. -/
def isPending (r : RegIndex) : Bool := r != 0 && t.pending.any (·.target == r)

/-- Some of the registers has a pending write. -/
def conflicts (regs : List (Option RegIndex)) : Bool := regs.any fun r => r.any t.isPending

/-- Adds a write, unless it targets register 0 or the tracker is full. -/
def issue? (target : RegIndex) (tag : Tag) : Option HazardTracker :=
  if target == 0 || t.isFull then none
  else some {
    slots := t.slots.setIfInBounds t.depth ⟨target, tag &&& tagMask⟩
    depth := t.depth + 1 }

/-- Gives up a slot: the writes behind it each take the slot before theirs, and the last one is
cleared. -/
def remove (n : Nat) : HazardTracker :=
  let moved : Vector PendingWrite 3 := Vector.ofFn fun i =>
    if n ≤ i.val ∧ i.val + 1 < t.depth then t.slot (i.val + 1) else t.slot i.val
  { slots := moved.setIfInBounds (t.depth - 1) {}
    depth := t.depth - 1 }

/-- Removes the oldest write with this register and tag, if there is one. -/
def commit? (target : RegIndex) (tag : Tag) : Option HazardTracker :=
  match t.pending.findIdx? (· == ⟨target, tag⟩) with
  | none => none
  | some n => some (t.remove n)

/-- Adds a write if that is possible. -/
def issue (target : RegIndex) (tag : Tag) : HazardTracker := (t.issue? target tag).getD t

/-- Removes a write if it is there. -/
def commit (target : RegIndex) (tag : Tag) : HazardTracker := (t.commit? target tag).getD t

end HazardTracker

end RiscvPipeline
