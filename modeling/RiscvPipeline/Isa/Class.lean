import RiscvPipeline.Word

/-! How instructions are grouped: encoding formats, execution classes, access sizes and the
functional units they run on. -/

namespace RiscvPipeline

/-- The encoding formats of the base instruction set. -/
inductive Format
  | r
  | i
  | s
  | sb
  | u
  | uj
  deriving DecidableEq

/-- The number of bytes a memory access moves, as a power of two. -/
inductive AccessSize
  | byte
  | half
  | word
  | double
  deriving DecidableEq

instance : Inhabited AccessSize := ⟨.double⟩

/-- The functional units that take more than one cycle. -/
inductive Slot
  | mul
  | div
  | fpu
  deriving DecidableEq

/-- How an instruction is carried out. Atomic memory operations are recognised and not
executed. -/
inductive ExecClass
  | alu
  | shift
  | branch
  | jump
  | load
  | store
  | csr
  | trapReturn
  | fence
  | wfi
  | ecall
  | ebreak
  | mul
  | div
  | fpu
  | atomic
  deriving DecidableEq

namespace Format

def name : Format → String
  | r => "R"
  | i => "I"
  | s => "S"
  | sb => "SB"
  | u => "U"
  | uj => "UJ"

end Format

namespace AccessSize

def ofCode (c : BitVec 2) : AccessSize :=
  match c.toNat with
  | 0 => byte
  | 1 => half
  | 2 => word
  | _ => double

def code : AccessSize → Nat
  | byte => 0
  | half => 1
  | word => 2
  | double => 3

def bytes (s : AccessSize) : Nat := 1 <<< s.code

def bits (s : AccessSize) : Nat := 8 * s.bytes

/-- The address is a multiple of the size. -/
def aligned (s : AccessSize) (addr : Word) : Bool :=
  addr &&& (BitVec.ofNat 64 s.bytes - 1) == 0

theorem ofCode_code (s : AccessSize) : ofCode (BitVec.ofNat 2 s.code) = s := by cases s <;> rfl

end AccessSize

namespace Slot

def all : List Slot := [mul, div, fpu]

def name : Slot → String
  | mul => "mul"
  | div => "div"
  | fpu => "fpu"

end Slot

namespace ExecClass

/-- The functional unit a class is dispatched to. -/
def slot? : ExecClass → Option Slot
  | mul => some .mul
  | div => some .div
  | fpu => some .fpu
  | _ => none

/-- Loads and stores go through the memory-access stage. -/
def isMemory : ExecClass → Bool
  | load | store => true
  | _ => false

/-- Every bit of the encoding is given: there are no operand fields. -/
def isFixed : ExecClass → Bool
  | fence | wfi | ecall | ebreak | trapReturn => true
  | _ => false

def name : ExecClass → String
  | alu => "Alu"
  | shift => "Shift"
  | branch => "Branch"
  | jump => "Jump"
  | load => "Load"
  | store => "Store"
  | csr => "Csr"
  | trapReturn => "TrapReturn"
  | fence => "Fence"
  | wfi => "Wfi"
  | ecall => "Ecall"
  | ebreak => "Ebreak"
  | mul => "Mul"
  | div => "Div"
  | fpu => "Fpu"
  | atomic => "Atomic"

end ExecClass

/-- One value for each functional unit. -/
structure PerSlot (α : Type) where
  mul : α
  div : α
  fpu : α
  deriving DecidableEq

namespace PerSlot

variable {α β : Type}

instance [Inhabited α] : Inhabited (PerSlot α) := ⟨default, default, default⟩

def replicate (a : α) : PerSlot α := ⟨a, a, a⟩

@[inline] def get (p : PerSlot α) : Slot → α
  | .mul => p.mul
  | .div => p.div
  | .fpu => p.fpu

@[inline] def set (p : PerSlot α) (s : Slot) (a : α) : PerSlot α :=
  match s with
  | .mul => { p with mul := a }
  | .div => { p with div := a }
  | .fpu => { p with fpu := a }

@[inline] def ofFn (f : Slot → α) : PerSlot α := ⟨f .mul, f .div, f .fpu⟩

@[inline] def map (f : α → β) (p : PerSlot α) : PerSlot β := ⟨f p.mul, f p.div, f p.fpu⟩

/-- Some unit satisfies the test. -/
@[inline] def any (f : α → Bool) (p : PerSlot α) : Bool := f p.mul || f p.div || f p.fpu

@[simp] theorem get_set_same (p : PerSlot α) (s : Slot) (a : α) : (p.set s a).get s = a := by
  cases s <;> rfl

theorem get_set_other (p : PerSlot α) {s t : Slot} (h : t ≠ s) (a : α) :
    (p.set s a).get t = p.get t := by
  cases s <;> cases t <;> first | rfl | exact absurd rfl h

@[simp] theorem get_ofFn (f : Slot → α) (s : Slot) : (ofFn f).get s = f s := by cases s <;> rfl

@[simp] theorem get_map (f : α → β) (p : PerSlot α) (s : Slot) :
    (p.map f).get s = f (p.get s) := by
  cases s <;> rfl

end PerSlot

end RiscvPipeline
