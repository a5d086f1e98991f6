import RiscvPipeline.Error
import RiscvPipeline.Json.Fields
import RiscvPipeline.Program

/-! Program images: instructions by mnemonic, with initial registers and memory. -/

namespace RiscvPipeline

/-- An instruction as an image spells it. -/
structure InstructionSpec where
  mnemonic : String
  rd : BitVec 8 := 0
  rs1 : BitVec 8 := 0
  rs2 : BitVec 8 := 0
  imm : Word := 0

/-- A doubleword of initial memory. -/
structure MemoryWord where
  addr : Word
  value : Word

structure ProgramImage where
  base : Word := resetVector
  instructions : List InstructionSpec
  /-- Initial registers, in the order of their indices. -/
  registers : List (RegIndex × Word) := []
  memory : List MemoryWord := []

namespace InstructionSpec

/-- Encodes the instruction at position `n` of an image. -/
def decode (n : Nat) (s : InstructionSpec) : Except SimError DecodedInstruction :=
  match Opcode.ofMnemonic? s.mnemonic with
  | none => .error (.program (.unknownMnemonic n s.mnemonic))
  | some o => do
    checkWidth "rd" (s.rd.setWidth 64) 5
    checkWidth "rs1" (s.rs1.setWidth 64) 5
    checkWidth "rs2" (s.rs2.setWidth 64) 5
    return { pc := 0, word := o.encode s.rd s.rs1 s.rs2 s.imm, opcode := o }

end InstructionSpec

namespace ProgramImage

open Json Record

def instructionOfJson? (j : Json) : Option InstructionSpec := do
  let r ← j.record? ["op", "rd", "rs1", "rs2", "imm"]
  return {
    mnemonic := ← r.required "op" string?
    rd := ← r.optional "rd" (unsigned? 8) 0
    rs1 := ← r.optional "rs1" (unsigned? 8) 0
    rs2 := ← r.optional "rs2" (unsigned? 8) 0
    imm := ← r.optional "imm" (signed? 64) 0 }

def memoryOfJson? (j : Json) : Option MemoryWord := do
  let r ← j.record? ["addr", "value"]
  return {
    addr := ← r.required "addr" (unsigned? 64)
    value := ← r.required "value" (unsigned? 64) }

def registersOfJson? (j : Json) : Option (List (RegIndex × Word)) := do
  let entries ← j.numberedMembers? 256 (unsigned? 64)
  return entries.map fun (k, v) => (BitVec.ofNat 8 k, v)

def ofJson? (j : Json) : Option ProgramImage := do
  let r ← j.record? ["base", "instructions", "registers", "memory"]
  return {
    base := ← r.optional "base" (unsigned? 64) resetVector
    instructions := ← r.required "instructions" (list? instructionOfJson?)
    registers := ← r.optional "registers" registersOfJson? []
    memory := ← r.optional "memory" (list? memoryOfJson?) [] }

def ofDocument (j : Option Json) : Except SimError ProgramImage :=
  match j.bind ofJson? with
  | none => .error .json
  | some p => .ok p

/-- Reads the text of an image. -/
def read (text : String) : Except SimError ProgramImage := ofDocument (Json.parse text)

/-- Encodes instructions in order, the first of them at position `n`. -/
def pushAll (n : Nat) (p : Program) : List InstructionSpec → Except SimError Program
  | [] => .ok p
  | s :: r => do
    let d ← s.decode n
    pushAll (n + 1) (p.push d) r

/-- The program of an image. -/
def program (i : ProgramImage) : Except SimError Program :=
  pushAll 0 { base := i.base } i.instructions

/-- The initial registers, all of which must exist. -/
def initialRegisters (i : ProgramImage) : Except SimError (List (RegIndex × Word)) :=
  i.registers.mapM fun (r, v) => do
    checkWidth "register index" (r.setWidth 64) 6
    return (r, v)

end ProgramImage

end RiscvPipeline
