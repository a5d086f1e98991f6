import RiscvPipeline.Isa.Opcode

/-! The single-cycle integer datapath: sums and comparisons, bitwise logic, shifts, and the
conditions of branches. Operations on 32-bit words look at the low halves of their operands and
sign-extend their result. -/

namespace RiscvPipeline

namespace Word

/-- The low half. -/
def low (a : Word) : BitVec 32 := a.setWidth 32

/-- A 32-bit operation on the low halves. -/
def onLow (f : BitVec 32 → BitVec 32 → BitVec 32) (a b : Word) : Word :=
  signExtendLow (f a.low b.low)

end Word

/-- The bitwise operations. -/
inductive LogicOp
  | and
  | or
  | xor
  deriving DecidableEq

namespace LogicOp

/-- The control lines, of which exactly one is set. -/
def lines : LogicOp → BitVec 8
  | and => 1
  | or => 2
  | xor => 4

/-- Reads the control lines; anything but one of three lines set is refused. -/
def ofLines? (b : BitVec 8) : Option LogicOp :=
  if b = 1 then some and else if b = 2 then some or else if b = 4 then some xor else none

theorem ofLines?_lines (m : LogicOp) : ofLines? m.lines = some m := by cases m <;> rfl

def apply : LogicOp → Word → Word → Word
  | and, a, b => a &&& b
  | or, a, b => a ||| b
  | xor, a, b => a ^^^ b

def ofOpcode? : Opcode → Option LogicOp
  | .and | .andi => some and
  | .or | .ori => some or
  | .xor | .xori => some xor
  | _ => none

end LogicOp

/-- The directions of a shift. -/
inductive ShiftOp
  | left
  | logicalRight
  | arithmeticRight
  deriving DecidableEq

namespace ShiftOp

def apply {n : Nat} : ShiftOp → BitVec n → Nat → BitVec n
  | left, a, k => a <<< k
  | logicalRight, a, k => a >>> k
  | arithmeticRight, a, k => a.sshiftRight k

def ofOpcode? : Opcode → Option ShiftOp
  | .sll | .slli | .sllw | .slliw => some left
  | .srl | .srli | .srlw | .srliw => some logicalRight
  | .sra | .srai | .sraw | .sraiw => some arithmeticRight
  | _ => none

end ShiftOp

namespace Alu

/-- Sums, differences and comparisons; zero for every other instruction. -/
def arithmetic (o : Opcode) (a b : Word) : Word :=
  match o with
  | .add | .addi => a + b
  | .addw | .addiw => Word.onLow (· + ·) a b
  | .sub => a - b
  | .subw => Word.onLow (· - ·) a b
  | .slt | .slti => .ofBool (a.slt b)
  | .sltu | .sltiu => .ofBool (a.ult b)
  | _ => 0

/-- Shifts by the low bits of `b`, as many as the operand width takes; zero for every other
instruction. -/
def shift (o : Opcode) (a b : Word) : Word :=
  match ShiftOp.ofOpcode? o with
  | none => 0
  | some s =>
    if o.traits.narrow then .signExtendLow (s.apply a.low (b.toNat % 32))
    else s.apply a (b.toNat % 64)

/-- The result of a single-cycle instruction; zero for every other instruction. -/
def execute (o : Opcode) (a b : Word) : Word :=
  match LogicOp.ofOpcode? o with
  | some m => m.apply a b
  | none =>
    match o.cls, o with
    | .shift, _ => shift o a b
    | _, .lui => b
    | _, .auipc => a + b
    | _, _ => arithmetic o a b

/-- Whether a conditional branch is taken; no other instruction is one. -/
def branchTaken (o : Opcode) (a b : Word) : Bool :=
  match o with
  | .beq => a == b
  | .bne => a != b
  | .blt => a.slt b
  | .bge => !a.slt b
  | .bltu => a.ult b
  | .bgeu => !a.ult b
  | _ => false

end Alu

end RiscvPipeline
