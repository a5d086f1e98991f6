import Std.Data.ExtTreeMap
import RiscvPipeline.Word

/-! Byte-addressed memory. -/

namespace RiscvPipeline

/-- `size` bytes of memory. Bytes that were never written are zero. -/
structure Ram where
  size : Nat
  written : Std.ExtTreeMap Nat (BitVec 8) := ∅

namespace Ram

variable (m : Ram)

/-- The byte at an offset. -/
def byte (n : Nat) : BitVec 8 := m.written.getD n 0

def setByte (n : Nat) (b : BitVec 8) : Ram := { m with written := m.written.insert n b }

/-- All bytes from an offset on lie in memory. -/
def covers (offset count : Nat) : Bool := offset + count ≤ m.size

/-- The little-endian number of `count` bytes from an offset on. -/
def number (offset : Nat) : Nat → Nat
  | 0 => 0
  | count + 1 => (m.byte offset).toNat + 256 * number (offset + 1) count

/-- The doubleword at an offset. -/
def read? (offset : Nat) : Option Word :=
  if m.covers offset 8 then some (BitVec.ofNat 64 (m.number offset 8)) else none

/-- Byte `i` of a word. -/
def lane (value : Word) (i : Nat) : BitVec 8 := value.extractLsb' (8 * i) 8

/-- Writes those bytes of a doubleword whose strobe is set. -/
def write? (offset : Nat) (value : Word) (strobes : BitVec 8) : Option Ram :=
  if m.covers offset 8 then
    some <| (List.range 8).foldl
      (fun r i => if strobes.getLsbD i then r.setByte (offset + i) (lane value i) else r) m
  else none

/-- Writes consecutive bytes. -/
def setBytes (offset : Nat) : List (BitVec 8) → Ram → Ram
  | [], m => m
  | b :: bs, m => setBytes (offset + 1) bs (m.setByte offset b)

/-- Writes consecutive bytes if all of them lie in memory. -/
def load? (offset : Nat) (bytes : List (BitVec 8)) : Option Ram :=
  if m.covers offset bytes.length then some (setBytes offset bytes m) else none

/-- Fills the memory with zeros. -/
def clear : Ram := { m with written := ∅ }

/-- The whole doublewords, in order. -/
def doublewords : List Word :=
  (List.range (m.size / 8)).filterMap fun n => m.read? (8 * n)

@[simp] theorem byte_setByte (n k : Nat) (b : BitVec 8) :
    (m.setByte n b).byte k = if n = k then b else m.byte k := by
  simp [setByte, byte, Std.ExtTreeMap.getD_insert]

end Ram

end RiscvPipeline
