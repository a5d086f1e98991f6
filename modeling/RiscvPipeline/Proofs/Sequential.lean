import RiscvPipeline.Datapath.Alu
import RiscvPipeline.Memory.Ram
import RiscvPipeline.Program
import RiscvPipeline.Registers
import RiscvPipeline.Units.Latency

/-! Sequential execution: one instruction after the other, each with all of its effect at once. -/

namespace RiscvPipeline.Sequential

/-- The classes of instructions that work on registers and memory alone. -/
def isPlain : ExecClass → Bool
  | .alu | .shift | .branch | .jump | .load | .store | .fence | .mul | .div | .fpu => true
  | _ => false

structure State where
  pc : Word
  registers : Registers
  ram : Ram

/-- The value of the bytes from an offset on, lowest first. -/
def loadBytes (m : Ram) (offset : Nat) (size : AccessSize) (signed : Bool) : Word :=
  if signed then (BitVec.ofNat size.bits (m.number offset size.bytes)).signExtend 64
  else BitVec.ofNat 64 (m.number offset size.bytes)

/-- The low bytes of a value, lowest first. -/
def bytesOf (value : Word) (size : AccessSize) : List (BitVec 8) :=
  (List.range size.bytes).map (Ram.lane value)

namespace State

variable (s : State)

/-- Register 0 is zero. -/
def read (r : RegIndex) : Word := if r = 0 then 0 else s.registers.read r

/-- The result of an instruction is written, and the next instruction follows. -/
def write (d : DecodedInstruction) (v : Word) : State :=
  { s with pc := s.pc + d.length, registers := s.registers.write d.target v }

/-- The address of a load or store. -/
def address (d : DecodedInstruction) : Word :=
  s.read d.source1 +
    (if d.opcode.cls = .store then Fields.immS d.word else Fields.immI d.word)

/-- The result of an operation that takes one cycle. -/
def alu (d : DecodedInstruction) : Word :=
  match d.opcode.traits.format with
  | .i => Alu.execute d.opcode (s.read d.source1) (Fields.immI d.word)
  | .u => Alu.execute d.opcode s.pc (Fields.immU d.word)
  | _ => Alu.execute d.opcode (s.read d.source1) (s.read d.source2)

end State

/-- The effect of an instruction, with memory from `base` on. -/
def execute (base : Word) (d : DecodedInstruction) (s : State) : State :=
  let a := s.read d.source1
  let b := s.read d.source2
  let offset := (s.address d).toNat - base.toNat
  let size := d.opcode.traits.size
  match d.opcode.cls with
  | .alu | .shift => s.write d (s.alu d)
  | .branch =>
    { s with pc :=
        if Alu.branchTaken d.opcode a b then s.pc + Fields.immB d.word else s.pc + d.length }
  | .jump =>
    { s.write d (s.pc + d.length) with pc :=
        if d.opcode = .jal then s.pc + Fields.immJ d.word
        else (a + Fields.immI d.word) &&& ~~~ 1#64 }
  | .load => s.write d (loadBytes s.ram offset size d.opcode.traits.signExtends)
  | .store => { s with pc := s.pc + d.length, ram := s.ram.setBytes offset (bytesOf b size) }
  | .mul => s.write d (Slot.mul.evaluate d.opcode a b).1
  | .div => s.write d (Slot.div.evaluate d.opcode a b).1
  | .fpu => s.write d (Slot.fpu.evaluate d.opcode a b).1
  | _ => { s with pc := s.pc + d.length }

/-- A load or store is aligned and lies in memory. -/
def Proper (base : Word) (d : DecodedInstruction) (s : State) : Prop :=
  d.opcode.cls.isMemory = true →
    (s.address d).toNat % d.opcode.traits.size.bytes = 0 ∧ base.toNat ≤ (s.address d).toNat ∧
      (s.address d).toNat - base.toNat + d.opcode.traits.size.bytes ≤ s.ram.size

/-- The state after so many instructions, unless the program was left before. -/
def after (p : Program) (base : Word) (s : State) : Nat → Option State
  | 0 => some s
  | n + 1 => (after p base s n).bind fun t => (p.at? t.pc).map fun d => execute base d t

/-- Every load and store on the way is aligned and lies in memory. -/
def Safe (p : Program) (base : Word) (s : State) : Prop :=
  ∀ n t d, after p base s n = some t → p.at? t.pc = some d → Proper base d t

instance (base : Word) (d : DecodedInstruction) (s : State) : Decidable (Proper base d s) :=
  inferInstanceAs (Decidable (_ → _))

/-- The program is left within so many instructions, and every load and store of them is aligned
and lies in memory. -/
def leaves (p : Program) (base : Word) : Nat → State → Bool
  | 0, _ => false
  | n + 1, s =>
    match p.at? s.pc with
    | some d => decide (Proper base d s) && leaves p base n (execute base d s)
    | none => true

variable {p : Program} {base : Word} {s : State}

theorem after_succ (n : Nat) : after p base s (n + 1) =
    (p.at? s.pc).bind fun d => after p base (execute base d s) n := by
  induction n with
  | zero => cases h : p.at? s.pc <;> simp [after, h]
  | succ n ih =>
    have hs : after p base s (n + 2) =
        (after p base s (n + 1)).bind fun t => (p.at? t.pc).map fun d => execute base d t := rfl
    rw [hs, ih]
    cases p.at? s.pc <;> rfl

/-- A program that is left is executed safely. -/
theorem safe_of_leaves {n : Nat} (h : leaves p base n s = true) : Safe p base s := by
  induction n generalizing s with
  | zero => cases h
  | succ n ih =>
    intro k t d ht hd
    unfold leaves at h
    cases hs : p.at? s.pc with
    | none =>
      cases k with
      | zero =>
        cases ht
        cases hs.symm.trans hd
      | succ k =>
        rw [after_succ, hs] at ht
        cases ht
    | some e =>
      rw [hs] at h
      simp only [Bool.and_eq_true, decide_eq_true_eq] at h
      cases k with
      | zero =>
        cases ht
        cases hs.symm.trans hd
        exact h.1
      | succ k =>
        rw [after_succ, hs] at ht
        exact ih h.2 k t d ht hd

end RiscvPipeline.Sequential
