/-! Machine words and the bit fields cut out of them. -/

namespace RiscvPipeline

/-- A 64-bit machine word: register contents, addresses and bus data. -/
abbrev Word := BitVec 64

namespace Word

/-- The low `width` bits set, all of them from 64 on. -/
def mask (width : Nat) : Word := BitVec.allOnes 64 >>> (64 - width)

/-- Copies bit `width - 1` into every bit above it. Widths 0 and 64 and above leave the word
alone. -/
def signExtendFrom (value : Word) (width : Nat) : Word :=
  if width = 0 ∨ 64 ≤ width then value
  else (value <<< (64 - width)).sshiftRight (64 - width)

/-- The low half, sign-extended: the form in which every 32-bit result is written. -/
def signExtendLow (value : BitVec 32) : Word := value.signExtend 64

/-- One for true, zero for false. -/
def ofBool (b : Bool) : Word := if b then 1 else 0

/-- No bit is set from `width` up. -/
def fits (value : Word) (width : Nat) : Bool := value &&& ~~~ mask width == 0

/-- The word with the low three bits cleared: the address of the doubleword around it. -/
def alignDown (addr : Word) : Word := addr &&& ~~~ 7#64

/-- The byte lane of an address within its doubleword. -/
def lane (addr : Word) : Nat := addr.toNat % 8

end Word

/-- Bits `hi` down to `lo` of an instruction word, moved to the bottom. -/
def bitField (word : BitVec 32) (hi lo : Nat) : BitVec 32 :=
  (word >>> lo) &&& ((1#32 <<< (hi + 1 - lo)) - 1)

end RiscvPipeline
