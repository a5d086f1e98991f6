import RiscvPipeline.Datapath.Alu

/-! Integer multiplication and division. A division by zero gives all ones and the dividend as
remainder. -/

namespace RiscvPipeline.MulDiv

/-- The upper half of a 128-bit product. -/
def upper (product : Int) : Word := BitVec.ofInt 64 (product >>> (64 : Nat))

/-- A quotient, or all ones for a zero divisor. -/
def quotient {n : Nat} (signed : Bool) (a b : BitVec n) : BitVec n :=
  if b = 0 then BitVec.allOnes n else if signed then a.sdiv b else a.udiv b

/-- A remainder, or the dividend for a zero divisor. -/
def remainder {n : Nat} (signed : Bool) (a b : BitVec n) : BitVec n :=
  if b = 0 then a else if signed then a.srem b else a.umod b

/-- The result of a multiplication or division; zero for every other instruction. -/
def execute (o : Opcode) (a b : Word) : Word :=
  match o with
  | .mul => a * b
  | .mulw => Word.onLow (· * ·) a b
  | .mulh => upper (a.toInt * b.toInt)
  | .mulhsu => upper (a.toInt * b.toNat)
  | .mulhu => upper (a.toNat * b.toNat)
  | .div => quotient true a b
  | .divu => quotient false a b
  | .divw => Word.onLow (quotient true) a b
  | .divuw => Word.onLow (quotient false) a b
  | .rem => remainder true a b
  | .remu => remainder false a b
  | .remw => Word.onLow (remainder true) a b
  | .remuw => Word.onLow (remainder false) a b
  | _ => 0

end RiscvPipeline.MulDiv
