import RiscvPipeline.Memory.Lanes
import RiscvPipeline.Signals

/-! The queue between the execute and the memory-access stage: a ring of two entries. -/

namespace RiscvPipeline

/-- A memory operation as the bus wants it. -/
structure QueueEntry where
  /-- A trap has overtaken the operation, so its result is not written back. -/
  flushed : Bool := false
  tag : Tag := 0
  data : Word := 0
  strobes : BitVec 8 := 0
  signExtends : Bool := false
  target : RegIndex := 0
  word : BitVec 32 := 0
  pc : Word := 0
  size : AccessSize := .double
  store : Bool := false
  addr : Word := 0
  deriving DecidableEq, Inhabited

namespace QueueEntry

/-- Puts the bytes of an operation into their lanes. Stores write no register. -/
def ofMemoryOp (m : MemoryOp) : QueueEntry :=
  { tag := m.tag
    data := Lanes.replicate m.data m.size
    strobes := Lanes.strobes m.addr m.size
    signExtends := m.signExtends
    target := if m.store then 0 else m.target
    word := m.word
    pc := m.pc
    size := m.size
    store := m.store
    addr := m.addr }

/-- The value a load takes from the doubleword around its address. -/
def loaded (e : QueueEntry) (dword : Word) : Word :=
  Lanes.extract dword e.addr e.size e.signExtends

end QueueEntry

/-- A ring buffer: `count` entries from `head` on, of which the next is put at `tail`. -/
structure MemoryQueue where
  slots : Vector QueueEntry 2 := Vector.replicate 2 {}
  head : Nat := 0
  tail : Nat := 0
  count : Nat := 0
  deriving DecidableEq

namespace MemoryQueue

def capacity : Nat := 2

variable (q : MemoryQueue)

def isEmpty : Bool := q.count == 0

def isFull : Bool := q.count == capacity

/-- The slot at a position, which is never out of range. -/
def slot (n : Nat) : QueueEntry := (q.slots[n]?).getD {}

/-- The entries, oldest first. -/
def toList : List QueueEntry :=
  (List.range q.count).map fun i => q.slot ((q.head + i) % capacity)

/-- Appends an entry unless the ring is full. -/
def push? (e : QueueEntry) : Option MemoryQueue :=
  if q.isFull then none
  else some { q with
    slots := q.slots.setIfInBounds q.tail e
    tail := (q.tail + 1) % capacity
    count := q.count + 1 }

/-- The oldest entry. -/
def peek? : Option QueueEntry := if q.isEmpty then none else some (q.slot q.head)

/-- Removes the oldest entry and empties its slot. -/
def pop? : Option (QueueEntry × MemoryQueue) :=
  if q.isEmpty then none
  else some (q.slot q.head, { q with
    slots := q.slots.setIfInBounds q.head {}
    head := (q.head + 1) % capacity
    count := q.count - 1 })

/-- Marks the entry at a slot as flushed. -/
def flushSlot (n : Nat) : MemoryQueue :=
  { q with slots := q.slots.setIfInBounds n { q.slot n with flushed := true } }

/-- Marks every entry as flushed. -/
def flush : MemoryQueue :=
  (List.range q.count).foldl (fun r i => r.flushSlot ((q.head + i) % capacity)) q

end MemoryQueue

end RiscvPipeline
