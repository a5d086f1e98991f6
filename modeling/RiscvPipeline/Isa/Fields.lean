import RiscvPipeline.Word

/-! The operand fields and immediates of a 32-bit instruction word. -/

namespace RiscvPipeline.Fields

/-- The `width` bits from bit `pos` up. -/
@[inline] def bits (w : BitVec 32) (pos width : Nat) : BitVec width :=
  .ofNat width (w.toNat >>> pos)

theorem bits_eq (w : BitVec 32) (pos width : Nat) : bits w pos width = w.extractLsb' pos width :=
  rfl

def opcode (w : BitVec 32) : BitVec 7 := bits w 0 7

def rd (w : BitVec 32) : BitVec 5 := bits w 7 5

def rs1 (w : BitVec 32) : BitVec 5 := bits w 15 5

def rs2 (w : BitVec 32) : BitVec 5 := bits w 20 5

def funct3 (w : BitVec 32) : BitVec 3 := bits w 12 3

def csr (w : BitVec 32) : BitVec 12 := bits w 20 12

/-- The immediate of loads, register-immediate operations and indirect jumps. -/
def immI (w : BitVec 32) : Word := (bits w 20 12).signExtend 64

/-- The immediate of stores. -/
def immS (w : BitVec 32) : Word := (bits w 25 7 ++ bits w 7 5).signExtend 64

/-- The offset of conditional branches. -/
def immB (w : BitVec 32) : Word :=
  (bits w 31 1 ++ bits w 7 1 ++ bits w 25 6 ++ bits w 8 4 ++ 0#1).signExtend 64

/-- The upper immediate. -/
def immU (w : BitVec 32) : Word := (bits w 12 20 ++ 0#12).signExtend 64

/-- The offset of direct jumps. -/
def immJ (w : BitVec 32) : Word :=
  (bits w 31 1 ++ bits w 12 8 ++ bits w 20 1 ++ bits w 21 10 ++ 0#1).signExtend 64

end RiscvPipeline.Fields
