import RiscvPipeline.Double.Basic
import RiscvPipeline.Double.Flags
import RiscvPipeline.Isa.Opcode

/-! The double-precision unit: arithmetic, comparisons, conversions and moves, each with the
exception flags it raises. -/

namespace RiscvPipeline.Fpu

/-- The four arithmetic operations. -/
inductive Arith
  | add
  | sub
  | mul
  | div
  deriving DecidableEq

namespace Arith

def apply : Arith → Double → Double → Double
  | add, a, b => a.add b
  | sub, a, b => a.sub b
  | mul, a, b => a.mul b
  | div, a, b => a.div b

/-- What rounding a sum lost, computed by further sums. -/
def sumError (a b r : Double) : Double :=
  let bv := r.sub a
  let av := r.sub bv
  (a.sub av).add (b.sub bv)

/-- The unit's own test for a result that needed no rounding: the rounding error, itself computed
in double precision, is zero. -/
def exact (o : Arith) (a b r : Double) : Bool :=
  match o with
  | add => (sumError a b r).isZero
  | sub => (sumError a b.neg r).isZero
  | mul => (a.mulAdd b r.neg).isZero
  | div => (r.mulAdd b a.neg).isZero

/-- The flags a division raises for its divisor alone. -/
def divisorFlags (a b : Double) : FpFlags :=
  if b.isZero && !a.isNaN then if a.isZero then .nv else .dz else .none

/-- The flags of an operation with result `r`. Signalling operands are accounted for elsewhere. -/
def flags (o : Arith) (a b r : Double) : FpFlags :=
  let divisor := if o = div then divisorFlags a b else .none
  let invalid := divisor ||| .when (r.isNaN && !a.isNaN && !b.isNaN) .nv
  if !r.isFinite || !a.isFinite || !b.isFinite then
    invalid ||| .when (r.isInfinite && a.isFinite && b.isFinite && !invalid.contains .dz)
      (.of ||| .nx)
  else if o.exact a b r then invalid
  else invalid ||| .nx ||| .when (r.magnitude < Double.normalBound) .uf

end Arith

/-- Conversion to an integer between `lo` and `hi`, toward zero. What lies outside saturates and is
invalid, a NaN goes to `hi`. The comparison with `hi` is one of doubles: if `hi` itself is none, a
value that equals the double next to it saturates without being invalid. -/
def toInteger (lo hi : Int) (x : Double) : Int × FpFlags :=
  if x.isNaN then (hi, .nv)
  else if x.isInfinite then (if x.negative then lo else hi, .nv)
  else if x.trunc < lo then (lo, .nv)
  else if x.trunc > (Double.ofInt hi).trunc then (hi, .nv)
  else (min x.trunc hi, .when (!x.isIntegral) .nx)

/-- Conversion of an integer, inexact if the integer is no double. -/
def fromInteger (n : Int) : Double × FpFlags :=
  let r := Double.ofInt n
  (r, .when (r.trunc != n) .nx)

def arith? : Opcode → Option Arith
  | .faddD => some .add
  | .fsubD => some .sub
  | .fmulD => some .mul
  | .fdivD => some .div
  | _ => none

/-- Result and flags, signalling operands aside. -/
def compute (o : Opcode) (a b : Word) : Word × FpFlags :=
  let x : Double := ⟨a⟩
  let y : Double := ⟨b⟩
  match arith? o, o with
  | some op, _ =>
    let r := op.apply x y
    (r.canonical.bits, op.flags x y r)
  | none, .fminD => ((x.min y).bits, .none)
  | none, .fmaxD => ((x.max y).bits, .none)
  | none, .feqD => (.ofBool (x.eq y), .none)
  | none, .fltD => (.ofBool (x.lt y), .when (x.isNaN || y.isNaN) .nv)
  | none, .fleD => (.ofBool (x.le y), .when (x.isNaN || y.isNaN) .nv)
  | none, .fcvtWD =>
    let (n, f) := toInteger (-0x80000000) 0x7fffffff x
    (.signExtendLow (BitVec.ofInt 32 n), f)
  | none, .fcvtWuD =>
    let (n, f) := toInteger 0 0xffffffff x
    (.signExtendLow (BitVec.ofInt 32 n), f)
  | none, .fcvtLD =>
    let (n, f) := toInteger (-0x8000000000000000) 0x7fffffffffffffff x
    (BitVec.ofInt 64 n, f)
  | none, .fcvtLuD =>
    let (n, f) := toInteger 0 0xffffffffffffffff x
    (BitVec.ofInt 64 n, f)
  | none, .fcvtDW => ((Double.ofInt (a.setWidth 32).toInt).bits, .none)
  | none, .fcvtDWu => ((Double.ofInt (a.setWidth 32).toNat).bits, .none)
  | none, .fcvtDL =>
    let (r, f) := fromInteger a.toInt
    (r.bits, f)
  | none, .fcvtDLu =>
    let (r, f) := fromInteger a.toNat
    (r.bits, f)
  | none, .fmovDX => (a, .none)
  | none, .fmovXD => (a, .none)
  | none, _ => (0, .none)

/-- An operand the operation reads as a number is a signalling NaN. -/
def signals (o : Opcode) (a b : Word) : Bool :=
  o.traits.fpRs1 && o != .fmovXD &&
    ((Double.mk a).isSignaling || (o.traits.readsRs2 && (Double.mk b).isSignaling))

/-- Result and flags of a floating-point instruction; zero for every other instruction. -/
def execute (o : Opcode) (a b : Word) : Word × FpFlags :=
  let (r, f) := compute o a b
  (r, .when (signals o a b) .nv ||| f)

end RiscvPipeline.Fpu
