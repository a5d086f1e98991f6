import RiscvPipeline.Decimal.Shortest
import RiscvPipeline.Signals
import RiscvPipeline.Text.Hex

/-! The register file: 32 integer registers, of which the first is always zero, and 32
floating-point registers. -/

namespace RiscvPipeline

structure Registers where
  values : Vector Word 64 := Vector.replicate 64 0
  deriving DecidableEq

namespace Registers

variable (r : Registers)

/-- The low six bits of an index count. -/
def read (i : RegIndex) : Word := (r.values[i.toNat % 64]?).getD 0

/-- Writes a register. Writes to register 0 are lost. -/
def write (i : RegIndex) (v : Word) : Registers :=
  if i.toNat % 64 = 0 then r else { r with values := r.values.setIfInBounds (i.toNat % 64) v }

/-- The index of a floating-point register, of whose number the low five bits count. -/
def floatIndex (i : RegIndex) : RegIndex := fpBank + (i &&& 31)

def readFloat (i : RegIndex) : Word := r.read (floatIndex i)

def writeFloat (i : RegIndex) (v : Word) : Registers := r.write (floatIndex i) v

/-- The conventional names of the integer registers. -/
def abiNames : List String :=
  ["zero", "ra", "sp", "gp", "tp", "t0", "t1", "t2", "s0", "s1", "a0", "a1", "a2", "a3", "a4",
    "a5", "a6", "a7", "s2", "s3", "s4", "s5", "s6", "s7", "s8", "s9", "s10", "s11", "t3", "t4",
    "t5", "t6"]

/-- The line of an integer register, unless it is zero. -/
def integerLine? (i : Nat) (name : String) : Option String :=
  let v := r.read (BitVec.ofNat 8 i)
  if v = 0 then none
  else some ("  x" ++ Text.padRight 2 (toString i) ++ " " ++ Text.padRight 5 name ++ " = " ++
    Text.hexWord v.toNat)

/-- The line of a floating-point register, unless its bits are all zero. -/
def floatLine? (i : Nat) : Option String :=
  let v := r.readFloat (BitVec.ofNat 8 i)
  if v = 0 then none
  else some ("  f" ++ Text.padRight 2 (toString i) ++ "       = " ++ Text.hexWord v.toNat ++ " (" ++
    Decimal.shortest ⟨v⟩ ++ ")")

/-- The registers that are not zero, one to a line. -/
def dump : List String :=
  (abiNames.zipIdx.filterMap fun (name, i) => r.integerLine? i name) ++
    (List.range 32).filterMap r.floatLine?

end Registers

end RiscvPipeline
