import RiscvPipeline.Word

/-! The five accrued exception flags of floating-point arithmetic. -/

namespace RiscvPipeline

/-- A set of floating-point exception flags. -/
structure FpFlags where
  bits : BitVec 5
  deriving DecidableEq

namespace FpFlags

def none : FpFlags := ⟨0⟩

/-- Invalid operation. -/
def nv : FpFlags := ⟨16⟩

/-- Division by zero. -/
def dz : FpFlags := ⟨8⟩

/-- Overflow. -/
def of : FpFlags := ⟨4⟩

/-- Underflow. -/
def uf : FpFlags := ⟨2⟩

/-- Inexact result. -/
def nx : FpFlags := ⟨1⟩

instance : Inhabited FpFlags := ⟨none⟩

instance : OrOp FpFlags := ⟨fun a b => ⟨a.bits ||| b.bits⟩⟩

def isEmpty (f : FpFlags) : Bool := f.bits == 0

/-- Every flag of `g` is set in `f`. -/
def contains (f g : FpFlags) : Bool := f.bits &&& g.bits == g.bits

/-- The flag if the condition holds. -/
def when (c : Bool) (f : FpFlags) : FpFlags := if c then f else none

theorem none_or (f : FpFlags) : none ||| f = f := congrArg FpFlags.mk BitVec.zero_or

end FpFlags

end RiscvPipeline
