import RiscvPipeline.Datapath.Alu
import RiscvPipeline.Clocked
import RiscvPipeline.Text.Hex

/-! The registered logic unit: its result appears one cycle after its operands. -/

namespace RiscvPipeline.LogicUnit

structure Input where
  lines : BitVec 8 := 0
  a : Word := 0
  b : Word := 0

/-- Control lines of which not exactly one is set. -/
structure LinesFault where
  lines : BitVec 8

/-- The control lines in binary, at least three of them. -/
def LinesFault.message (f : LinesFault) : String :=
  "logic mode 0b" ++ Text.padLeft '0' 3 (Text.binaryDigits f.lines.toNat) ++ " is not one-hot"

/-- The result for the next cycle. -/
def propose (i : Input) : Except LinesFault Word :=
  match LogicOp.ofLines? i.lines with
  | some m => .ok (m.apply i.a i.b)
  | none => .error ⟨i.lines⟩

/-- The unit with control lines that were found to be proper. Its state is its result. -/
def clocked : Clocked Word (LogicOp × Word × Word) Word Word where
  output s _ := s
  propose _ i := i.1.apply i.2.1 i.2.2
  hold s := s
  edge _ p := p
  reset _ := 0

end RiscvPipeline.LogicUnit
