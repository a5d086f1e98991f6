import RiscvPipeline.Isa.Fields
import RiscvPipeline.Isa.Opcode

/-! Decoded instructions and the registers they touch. -/

namespace RiscvPipeline

/-- An index into the register file: the integer registers from 0, the floating-point registers
from 32. The buses that carry it are eight bits wide. -/
abbrev RegIndex := BitVec 8

/-- The index of floating-point register 0. -/
def fpBank : RegIndex := 32

/-- An instruction as the decoder hands it to the execute stage. -/
structure DecodedInstruction where
  pc : Word
  word : BitVec 32
  opcode : Opcode
  /-- It was encoded in sixteen bits. -/
  compressed : Bool := false
  /-- The decoder could not classify it. -/
  unsupported : Bool := false
  deriving DecidableEq

namespace DecodedInstruction

variable (d : DecodedInstruction)

/-- The length in bytes. -/
def length : Word := if d.compressed then 2 else 4

/-- The index of a register field in the bank it names. -/
def inBank (floating : Bool) (r : BitVec 5) : RegIndex :=
  if floating then fpBank ||| r.setWidth 8 else r.setWidth 8

def source1 : RegIndex := inBank d.opcode.traits.fpRs1 (Fields.rs1 d.word)

def source2 : RegIndex := inBank d.opcode.traits.fpRs2 (Fields.rs2 d.word)

/-- The register written, or 0 if none is. -/
def target : RegIndex :=
  if d.opcode.traits.writesRd then inBank d.opcode.traits.fpRd (Fields.rd d.word) else 0

/-- The registers that pending loads must not target when this instruction starts: those it
reads and the one it writes. Register 0 never matters. -/
def hazards : List (Option RegIndex) :=
  let pick (used : Bool) (r : RegIndex) : Option RegIndex := if used && r != 0 then some r else none
  [pick d.opcode.traits.readsRs1 d.source1, pick d.opcode.traits.readsRs2 d.source2,
    pick true d.target]

end DecodedInstruction

end RiscvPipeline
