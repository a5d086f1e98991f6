import RiscvPipeline.Isa.Class
import RiscvPipeline.Text.Blank

/-! The instructions of the core: their mnemonics, classes, operands and fixed encoding bits. -/

namespace RiscvPipeline

/-- An instruction, without its operands. -/
inductive Opcode
  | add
  | addi
  | addiw
  | addw
  | and
  | andi
  | auipc
  | beq
  | bge
  | bgeu
  | blt
  | bltu
  | bne
  | jal
  | jalr
  | lb
  | lh
  | lw
  | ld
  | lbu
  | lhu
  | lwu
  | lui
  | or
  | ori
  | slli
  | slt
  | slti
  | sltu
  | sltiu
  | sll
  | sllw
  | slliw
  | sra
  | sraw
  | srai
  | sraiw
  | srl
  | srli
  | srliw
  | srlw
  | sb
  | sh
  | sw
  | sd
  | sub
  | subw
  | xor
  | xori
  | csrrw
  | csrrs
  | csrrc
  | csrrwi
  | csrrci
  | csrrsi
  | uret
  | sret
  | hret
  | mret
  | fence
  | fenceI
  | wfi
  | div
  | divu
  | divw
  | divuw
  | mul
  | mulw
  | mulh
  | mulhsu
  | mulhu
  | rem
  | remu
  | remw
  | remuw
  | amoaddW
  | amoxorW
  | amoorW
  | amoandW
  | amominW
  | amomaxW
  | amominuW
  | amomaxuW
  | amoswapW
  | lrW
  | scW
  | amoaddD
  | amoxorD
  | amoorD
  | amoandD
  | amominD
  | amomaxD
  | amominuD
  | amomaxuD
  | amoswapD
  | lrD
  | scD
  | ecall
  | ebreak
  | faddD
  | fcvtDW
  | fcvtDWu
  | fcvtDL
  | fcvtDLu
  | fcvtWD
  | fcvtWuD
  | fcvtLD
  | fcvtLuD
  | fdivD
  | feqD
  | fld
  | fleD
  | fltD
  | fmaxD
  | fminD
  | fmovDX
  | fmovXD
  | fmulD
  | fsd
  | fsubD
  deriving DecidableEq

/-- The major opcodes that carry operands. -/
inductive Major
  | load
  | loadFp
  | opImm
  | auipc
  | opImm32
  | store
  | storeFp
  | amo
  | op
  | lui
  | op32
  | opFp
  | branch
  | jalr
  | jal
  | system

/-- The low seven bits of an instruction word. -/
def Major.code : Major → BitVec 7
  | load => 0x03
  | loadFp => 0x07
  | opImm => 0x13
  | auipc => 0x17
  | opImm32 => 0x1b
  | store => 0x23
  | storeFp => 0x27
  | amo => 0x2f
  | op => 0x33
  | lui => 0x37
  | op32 => 0x3b
  | opFp => 0x53
  | branch => 0x63
  | jalr => 0x67
  | jal => 0x6f
  | system => 0x73

/-- What the core knows about an instruction. -/
structure Traits where
  mnemonic : String
  format : Format
  cls : ExecClass
  /-- The encoding bits that no operand changes. -/
  base : BitVec 32
  readsRs1 : Bool
  readsRs2 : Bool
  writesRd : Bool
  /-- The result is 32 bits wide. -/
  narrow : Bool := false
  unsigned : Bool := false
  size : AccessSize := .double
  /-- Loaded values are sign-extended. -/
  signExtends : Bool := false
  /-- The destination is a floating-point register. -/
  fpRd : Bool := false
  fpRs1 : Bool := false
  fpRs2 : Bool := false

namespace Traits

/-- The facts that follow from the format alone. -/
def ofFormat (mnemonic : String) (format : Format) (cls : ExecClass) (base : BitVec 32) : Traits :=
  match format with
  | .r => ⟨mnemonic, format, cls, base, true, true, true, false, false, .double, false,
      false, false, false⟩
  | .i => ⟨mnemonic, format, cls, base, true, false, true, false, false, .double, false,
      false, false, false⟩
  | .s | .sb => ⟨mnemonic, format, cls, base, true, true, false, false, false, .double, false,
      false, false, false⟩
  | .u | .uj => ⟨mnemonic, format, cls, base, false, false, true, false, false, .double, false,
      false, false, false⟩

def onWords (t : Traits) : Traits := { t with narrow := true }

def onUnsigned (t : Traits) : Traits := { t with unsigned := true }

def access (t : Traits) (size : AccessSize) (signed : Bool) : Traits :=
  { t with size := size, signExtends := signed }

/-- Which of `rd`, `rs1` and `rs2` name floating-point registers. -/
def fpOperands (t : Traits) (rd rs1 rs2 : Bool) : Traits :=
  { t with fpRd := rd, fpRs1 := rs1, fpRs2 := rs2 }

def noRs1 (t : Traits) : Traits := { t with readsRs1 := false }

def noRs2 (t : Traits) : Traits := { t with readsRs2 := false }

def noOperands (t : Traits) : Traits :=
  { t with readsRs1 := false, readsRs2 := false, writesRd := false }

end Traits

namespace Opcode

/-- Every instruction, in table order. -/
def all : List Opcode :=
  [add, addi, addiw, addw, and, andi, auipc, beq, bge, bgeu, blt, bltu, bne, jal, jalr, lb, lh,
    lw, ld, lbu, lhu, lwu, lui, or, ori, slli, slt, slti, sltu, sltiu, sll, sllw, slliw, sra,
    sraw, srai, sraiw, srl, srli, srliw, srlw, sb, sh, sw, sd, sub, subw, xor, xori, csrrw,
    csrrs, csrrc, csrrwi, csrrci, csrrsi, uret, sret, hret, mret, fence, fenceI, wfi, div, divu,
    divw, divuw, mul, mulw, mulh, mulhsu, mulhu, rem, remu, remw, remuw, amoaddW, amoxorW,
    amoorW, amoandW, amominW, amomaxW, amominuW, amomaxuW, amoswapW, lrW, scW, amoaddD, amoxorD,
    amoorD, amoandD, amominD, amomaxD, amominuD, amomaxuD, amoswapD, lrD, scD, ecall, ebreak,
    faddD, fcvtDW, fcvtDWu, fcvtDL, fcvtDLu, fcvtWD, fcvtWuD, fcvtLD, fcvtLuD, fdivD, feqD, fld,
    fleD, fltD, fmaxD, fminD, fmovDX, fmovXD, fmulD, fsd, fsubD]

/-- The position in the table. -/
def index (o : Opcode) : Nat := o.ctorIdx

def ofIndex? (n : Nat) : Option Opcode := all[n]?

/-- An encoding whose only fixed field is the major opcode. -/
def major (m : Major) : BitVec 32 := m.code.setWidth 32

/-- An encoding fixed in its major opcode and function fields. -/
def fixedBits (m : Major) (funct3 : BitVec 3) (funct7 : BitVec 7) : BitVec 32 :=
  funct7 ++ 0#10 ++ funct3 ++ 0#5 ++ m.code

/-- The instruction table. -/
def traits : Opcode → Traits
  | add => .ofFormat "ADD" .r .alu (fixedBits .op 0 0)
  | addi => .ofFormat "ADDI" .i .alu (fixedBits .opImm 0 0)
  | addiw => Traits.ofFormat "ADDIW" .i .alu (fixedBits .opImm32 0 0) |>.onWords
  | addw => Traits.ofFormat "ADDW" .r .alu (fixedBits .op32 0 0) |>.onWords
  | and => .ofFormat "AND" .r .alu (fixedBits .op 7 0)
  | andi => .ofFormat "ANDI" .i .alu (fixedBits .opImm 7 0)
  | auipc => .ofFormat "AUIPC" .u .alu (major .auipc)
  | beq => .ofFormat "BEQ" .sb .branch (fixedBits .branch 0 0)
  | bge => .ofFormat "BGE" .sb .branch (fixedBits .branch 5 0)
  | bgeu => Traits.ofFormat "BGEU" .sb .branch (fixedBits .branch 7 0) |>.onUnsigned
  | blt => .ofFormat "BLT" .sb .branch (fixedBits .branch 4 0)
  | bltu => Traits.ofFormat "BLTU" .sb .branch (fixedBits .branch 6 0) |>.onUnsigned
  | bne => .ofFormat "BNE" .sb .branch (fixedBits .branch 1 0)
  | jal => .ofFormat "JAL" .uj .jump (major .jal)
  | jalr => .ofFormat "JALR" .i .jump (fixedBits .jalr 0 0)
  | lb => Traits.ofFormat "LB" .i .load (fixedBits .load 0 0) |>.access .byte true
  | lh => Traits.ofFormat "LH" .i .load (fixedBits .load 1 0) |>.access .half true
  | lw => Traits.ofFormat "LW" .i .load (fixedBits .load 2 0) |>.access .word true
  | ld => Traits.ofFormat "LD" .i .load (fixedBits .load 3 0) |>.access .double true
  | lbu => Traits.ofFormat "LBU" .i .load (fixedBits .load 4 0) |>.access .byte false |>.onUnsigned
  | lhu => Traits.ofFormat "LHU" .i .load (fixedBits .load 5 0) |>.access .half false |>.onUnsigned
  | lwu => Traits.ofFormat "LWU" .i .load (fixedBits .load 6 0) |>.access .word false |>.onUnsigned
  | lui => .ofFormat "LUI" .u .alu (major .lui)
  | or => .ofFormat "OR" .r .alu (fixedBits .op 6 0)
  | ori => .ofFormat "ORI" .i .alu (fixedBits .opImm 6 0)
  | slli => .ofFormat "SLLI" .i .shift (fixedBits .opImm 1 0)
  | slt => .ofFormat "SLT" .r .alu (fixedBits .op 2 0)
  | slti => .ofFormat "SLTI" .i .alu (fixedBits .opImm 2 0)
  | sltu => Traits.ofFormat "SLTU" .r .alu (fixedBits .op 3 0) |>.onUnsigned
  | sltiu => Traits.ofFormat "SLTIU" .i .alu (fixedBits .opImm 3 0) |>.onUnsigned
  | sll => .ofFormat "SLL" .r .shift (fixedBits .op 1 0)
  | sllw => Traits.ofFormat "SLLW" .r .shift (fixedBits .op32 1 0) |>.onWords
  | slliw => Traits.ofFormat "SLLIW" .i .shift (fixedBits .opImm32 1 0) |>.onWords
  | sra => .ofFormat "SRA" .r .shift (fixedBits .op 5 0x20)
  | sraw => Traits.ofFormat "SRAW" .r .shift (fixedBits .op32 5 0x20) |>.onWords
  | srai => .ofFormat "SRAI" .i .shift (fixedBits .opImm 5 0x20)
  | sraiw => Traits.ofFormat "SRAIW" .i .shift (fixedBits .opImm32 5 0x20) |>.onWords
  | srl => .ofFormat "SRL" .r .shift (fixedBits .op 5 0)
  | srli => .ofFormat "SRLI" .i .shift (fixedBits .opImm 5 0)
  | srliw => Traits.ofFormat "SRLIW" .i .shift (fixedBits .opImm32 5 0) |>.onWords
  | srlw => Traits.ofFormat "SRLW" .r .shift (fixedBits .op32 5 0) |>.onWords
  | sb => Traits.ofFormat "SB" .s .store (fixedBits .store 0 0) |>.access .byte false
  | sh => Traits.ofFormat "SH" .s .store (fixedBits .store 1 0) |>.access .half false
  | sw => Traits.ofFormat "SW" .s .store (fixedBits .store 2 0) |>.access .word false
  | sd => Traits.ofFormat "SD" .s .store (fixedBits .store 3 0) |>.access .double false
  | sub => .ofFormat "SUB" .r .alu (fixedBits .op 0 0x20)
  | subw => Traits.ofFormat "SUBW" .r .alu (fixedBits .op32 0 0x20) |>.onWords
  | xor => .ofFormat "XOR" .r .alu (fixedBits .op 4 0)
  | xori => .ofFormat "XORI" .i .alu (fixedBits .opImm 4 0)
  | csrrw => .ofFormat "CSRRW" .i .csr (fixedBits .system 1 0)
  | csrrs => .ofFormat "CSRRS" .i .csr (fixedBits .system 2 0)
  | csrrc => .ofFormat "CSRRC" .i .csr (fixedBits .system 3 0)
  | csrrwi => Traits.ofFormat "CSRRWI" .i .csr (fixedBits .system 5 0) |>.noRs1
  | csrrci => Traits.ofFormat "CSRRCI" .i .csr (fixedBits .system 7 0) |>.noRs1
  | csrrsi => Traits.ofFormat "CSRRSI" .i .csr (fixedBits .system 6 0) |>.noRs1
  | uret => Traits.ofFormat "URET" .i .trapReturn 0x00200073 |>.noOperands
  | sret => Traits.ofFormat "SRET" .i .trapReturn 0x10200073 |>.noOperands
  | hret => Traits.ofFormat "HRET" .i .trapReturn 0x20200073 |>.noOperands
  | mret => Traits.ofFormat "MRET" .i .trapReturn 0x30200073 |>.noOperands
  | fence => Traits.ofFormat "FENCE" .i .fence 0x0ff0000f |>.noOperands
  | fenceI => Traits.ofFormat "FENCE_I" .i .fence 0x0000100f |>.noOperands
  | wfi => Traits.ofFormat "WFI" .i .wfi 0x10500073 |>.noOperands
  | div => .ofFormat "DIV" .r .div (fixedBits .op 4 0x01)
  | divu => Traits.ofFormat "DIVU" .r .div (fixedBits .op 5 0x01) |>.onUnsigned
  | divw => Traits.ofFormat "DIVW" .r .div (fixedBits .op32 4 0x01) |>.onWords
  | divuw => Traits.ofFormat "DIVUW" .r .div (fixedBits .op32 5 0x01) |>.onWords |>.onUnsigned
  | mul => .ofFormat "MUL" .r .mul (fixedBits .op 0 0x01)
  | mulw => Traits.ofFormat "MULW" .r .mul (fixedBits .op32 0 0x01) |>.onWords
  | mulh => .ofFormat "MULH" .r .mul (fixedBits .op 1 0x01)
  | mulhsu => .ofFormat "MULHSU" .r .mul (fixedBits .op 2 0x01)
  | mulhu => Traits.ofFormat "MULHU" .r .mul (fixedBits .op 3 0x01) |>.onUnsigned
  | rem => .ofFormat "REM" .r .div (fixedBits .op 6 0x01)
  | remu => Traits.ofFormat "REMU" .r .div (fixedBits .op 7 0x01) |>.onUnsigned
  | remw => Traits.ofFormat "REMW" .r .div (fixedBits .op32 6 0x01) |>.onWords
  | remuw => Traits.ofFormat "REMUW" .r .div (fixedBits .op32 7 0x01) |>.onWords |>.onUnsigned
  | amoaddW => .ofFormat "AMOADD_W" .r .atomic (fixedBits .amo 2 0)
  | amoxorW => .ofFormat "AMOXOR_W" .r .atomic (fixedBits .amo 2 0x10)
  | amoorW => .ofFormat "AMOOR_W" .r .atomic (fixedBits .amo 2 0x20)
  | amoandW => .ofFormat "AMOAND_W" .r .atomic (fixedBits .amo 2 0x30)
  | amominW => .ofFormat "AMOMIN_W" .r .atomic (fixedBits .amo 2 0x40)
  | amomaxW => .ofFormat "AMOMAX_W" .r .atomic (fixedBits .amo 2 0x50)
  | amominuW => .ofFormat "AMOMINU_W" .r .atomic (fixedBits .amo 2 0x60)
  | amomaxuW => .ofFormat "AMOMAXU_W" .r .atomic (fixedBits .amo 2 0x70)
  | amoswapW => .ofFormat "AMOSWAP_W" .r .atomic (fixedBits .amo 2 0x04)
  | lrW => Traits.ofFormat "LR_W" .r .atomic (fixedBits .amo 2 0x08) |>.noRs2
  | scW => .ofFormat "SC_W" .r .atomic (fixedBits .amo 2 0x0c)
  | amoaddD => .ofFormat "AMOADD_D" .r .atomic (fixedBits .amo 3 0)
  | amoxorD => .ofFormat "AMOXOR_D" .r .atomic (fixedBits .amo 3 0x10)
  | amoorD => .ofFormat "AMOOR_D" .r .atomic (fixedBits .amo 3 0x20)
  | amoandD => .ofFormat "AMOAND_D" .r .atomic (fixedBits .amo 3 0x30)
  | amominD => .ofFormat "AMOMIN_D" .r .atomic (fixedBits .amo 3 0x40)
  | amomaxD => .ofFormat "AMOMAX_D" .r .atomic (fixedBits .amo 3 0x50)
  | amominuD => .ofFormat "AMOMINU_D" .r .atomic (fixedBits .amo 3 0x60)
  | amomaxuD => .ofFormat "AMOMAXU_D" .r .atomic (fixedBits .amo 3 0x70)
  | amoswapD => .ofFormat "AMOSWAP_D" .r .atomic (fixedBits .amo 3 0x04)
  | lrD => Traits.ofFormat "LR_D" .r .atomic (fixedBits .amo 3 0x08) |>.noRs2
  | scD => .ofFormat "SC_D" .r .atomic (fixedBits .amo 3 0x0c)
  | ecall => Traits.ofFormat "ECALL" .i .ecall 0x00000073 |>.noOperands
  | ebreak => Traits.ofFormat "EBREAK" .i .ebreak 0x00100073 |>.noOperands
  | faddD => Traits.ofFormat "FADD_D" .r .fpu (fixedBits .opFp 7 0x01) |>.fpOperands true true true
  | fcvtDW =>
    Traits.ofFormat "FCVT_D_W" .r .fpu (fixedBits .opFp 7 0x69)
      |>.fpOperands true false false |>.noRs2 |>.onWords
  | fcvtDWu =>
    Traits.ofFormat "FCVT_D_WU" .r .fpu (fixedBits .opFp 7 0x69 ||| 0x100000)
      |>.fpOperands true false false |>.noRs2 |>.onWords |>.onUnsigned
  | fcvtDL =>
    Traits.ofFormat "FCVT_D_L" .r .fpu (fixedBits .opFp 7 0x69 ||| 0x200000)
      |>.fpOperands true false false |>.noRs2
  | fcvtDLu =>
    Traits.ofFormat "FCVT_D_LU" .r .fpu (fixedBits .opFp 7 0x69 ||| 0x300000)
      |>.fpOperands true false false |>.noRs2 |>.onUnsigned
  | fcvtWD =>
    Traits.ofFormat "FCVT_W_D" .r .fpu (fixedBits .opFp 7 0x61)
      |>.fpOperands false true false |>.noRs2 |>.onWords
  | fcvtWuD =>
    Traits.ofFormat "FCVT_WU_D" .r .fpu (fixedBits .opFp 7 0x61 ||| 0x100000)
      |>.fpOperands false true false |>.noRs2 |>.onWords |>.onUnsigned
  | fcvtLD =>
    Traits.ofFormat "FCVT_L_D" .r .fpu (fixedBits .opFp 7 0x61 ||| 0x200000)
      |>.fpOperands false true false |>.noRs2
  | fcvtLuD =>
    Traits.ofFormat "FCVT_LU_D" .r .fpu (fixedBits .opFp 7 0x61 ||| 0x300000)
      |>.fpOperands false true false |>.noRs2 |>.onUnsigned
  | fdivD => Traits.ofFormat "FDIV_D" .r .fpu (fixedBits .opFp 7 0x0d) |>.fpOperands true true true
  | feqD => Traits.ofFormat "FEQ_D" .r .fpu (fixedBits .opFp 2 0x51) |>.fpOperands false true true
  | fld =>
    Traits.ofFormat "FLD" .i .load (fixedBits .loadFp 3 0)
      |>.access .double false |>.fpOperands true false false
  | fleD => Traits.ofFormat "FLE_D" .r .fpu (fixedBits .opFp 0 0x51) |>.fpOperands false true true
  | fltD => Traits.ofFormat "FLT_D" .r .fpu (fixedBits .opFp 1 0x51) |>.fpOperands false true true
  | fmaxD => Traits.ofFormat "FMAX_D" .r .fpu (fixedBits .opFp 1 0x15) |>.fpOperands true true true
  | fminD => Traits.ofFormat "FMIN_D" .r .fpu (fixedBits .opFp 0 0x15) |>.fpOperands true true true
  | fmovDX =>
    Traits.ofFormat "FMOV_D_X" .r .fpu (fixedBits .opFp 0 0x79)
      |>.fpOperands true false false |>.noRs2
  | fmovXD =>
    Traits.ofFormat "FMOV_X_D" .r .fpu (fixedBits .opFp 0 0x71)
      |>.fpOperands false true false |>.noRs2
  | fmulD => Traits.ofFormat "FMUL_D" .r .fpu (fixedBits .opFp 7 0x09) |>.fpOperands true true true
  | fsd =>
    Traits.ofFormat "FSD" .s .store (fixedBits .storeFp 3 0)
      |>.access .double false |>.fpOperands false false true
  | fsubD => Traits.ofFormat "FSUB_D" .r .fpu (fixedBits .opFp 7 0x05) |>.fpOperands true true true

def mnemonic (o : Opcode) : String := o.traits.mnemonic

def cls (o : Opcode) : ExecClass := o.traits.cls

/-- Looks an instruction up by its mnemonic. Surrounding blanks, case and the choice between
dots and underscores do not matter. -/
def ofMnemonic? (name : String) : Option Opcode :=
  let wanted := String.ofList <|
    (Text.trimBlank name.toList).map fun c => if c = '.' then '_' else c.toUpper
  all.find? (·.mnemonic == wanted)

/-- Looks an instruction up by its mnemonic as the table writes it. -/
def ofName? (name : String) : Option Opcode := all.find? (·.mnemonic == name)

/-- A value moved up to bit `pos` of an instruction word. -/
def place {n : Nat} (value : BitVec n) (pos : Nat) : BitVec 32 := value.setWidth 32 <<< pos

/-- The instruction word with the given operands. Of the register numbers the low five bits
count. An immediate keeps the bits its format has room for, a shift amount those of the operand
width; the immediate of a CSR instruction is the CSR address. Fields that the encoding fixes
ignore their operand. -/
def encode (o : Opcode) (rd rs1 rs2 : BitVec 8) (imm : Word) : BitVec 32 :=
  let t := o.traits
  let rd := rd.setWidth 5
  let rs1 := rs1.setWidth 5
  let rs2 := rs2.setWidth 5
  if t.cls.isFixed then t.base
  else
    t.base ||| match t.format with
      | .r => place rd 7 ||| place rs1 15 ||| (if t.readsRs2 then place rs2 20 else 0)
      | .i =>
        let width :=
          match t.cls with
          | .shift => if t.narrow then 5 else 6
          | _ => 12
        place (imm.setWidth width) 20 ||| place rs1 15 ||| place rd 7
      | .s =>
        place (imm.extractLsb' 5 7) 25 ||| place rs2 20 ||| place rs1 15 |||
          place (imm.extractLsb' 0 5) 7
      | .sb =>
        place (imm.extractLsb' 12 1) 31 ||| place (imm.extractLsb' 5 6) 25 ||| place rs2 20 |||
          place rs1 15 ||| place (imm.extractLsb' 1 4) 8 ||| place (imm.extractLsb' 11 1) 7
      | .u => place (imm.extractLsb' 12 20) 12 ||| place rd 7
      | .uj =>
        place (imm.extractLsb' 20 1) 31 ||| place (imm.extractLsb' 1 10) 21 |||
          place (imm.extractLsb' 11 1) 20 ||| place (imm.extractLsb' 12 8) 12 ||| place rd 7

end Opcode

end RiscvPipeline
