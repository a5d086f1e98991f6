import RiscvPipeline.Csr.Register
import RiscvPipeline.Datapath.Alu
import RiscvPipeline.Execute.State

/-! The acceptance of instructions: what each of them does in the cycle in which it is accepted, and
what keeps it from being accepted. -/

namespace RiscvPipeline.Execute

namespace Cycle

variable (c : Cycle)

/-- The stage is ready for the next instruction. -/
def ready : Cycle := { c with next.phase := .waiting }

/-- The instruction has to wait. -/
def stall (p : Phase) : Cycle := { c with next.phase := p, out.hold := true }

/-- Raises exceptions of the instruction at `pc`. -/
def raise (pc npc : Word) (f : ExceptionPulses → ExceptionPulses) : Cycle :=
  { c with out.exceptions := f { c.out.exceptions with pc, npc } }

/-- Writes a result, or keeps it while the register file is taken. Register 0 needs no write. -/
def complete (writeReady : Bool) (target : RegIndex) (result : Word) : Cycle :=
  if target = 0 then c.ready
  else if writeReady then
    { c.ready with out.write := { enable := true, target, data := result } }
  else
    { c with
      next.current := { c.next.current with target, result }
      next.phase := .single }

/-- Accepts an instruction, which continues at `npc`. Jumps that link through `ra` are calls and
returns. -/
def accept (d : DecodedInstruction) (npc : Word) : Cycle :=
  let rd := Fields.rd d.word
  let rs1 := Fields.rs1 d.word
  { next := { c.next with npc, phase := .waiting }
    out := { c.out with
      valid := true
      pc := d.pc
      npc := npc
      word := d.word
      call := (d.opcode == .jal || d.opcode == .jalr) && rd == 1
      ret := d.opcode == .jalr && rs1 == 1 && rd == 0
      mret := d.opcode == .mret
      uret := d.opcode == .uret } }

/-- Keeps an accepted instruction until it is finished. -/
def keep (f : InFlight) (p : Phase) : Cycle :=
  { c with next.current := f, next.phase := p }

end Cycle

/-- The address of the following instruction. -/
def following (d : DecodedInstruction) : Word := d.pc + d.length

/-- The first operand, from the bank that the instruction names. -/
def operandA (d : DecodedInstruction) (i : Input) : Word :=
  if d.opcode.traits.fpRs1 then i.fa else i.a

/-- The second operand. -/
def operandB (d : DecodedInstruction) (i : Input) : Word :=
  if d.opcode.traits.fpRs2 then i.fb else i.b

/-- The instruction needs the floating-point unit or a register of its bank. -/
def usesFloat (d : DecodedInstruction) : Bool :=
  let t := d.opcode.traits
  t.cls == .fpu || t.fpRd || t.fpRs1 || t.fpRs2

/-- The instruction is not carried out. -/
def isIllegal (fpuEnabled : Bool) (d : DecodedInstruction) : Bool :=
  d.unsupported || d.opcode.cls == .atomic || (!fpuEnabled && usesFloat d)

/-- The result of an operation that takes one cycle. -/
def aluResult (d : DecodedInstruction) (i : Input) : Word :=
  match d.opcode.traits.format with
  | .i => Alu.execute d.opcode (operandA d i) (Fields.immI d.word)
  | .u => Alu.execute d.opcode d.pc (Fields.immU d.word)
  | _ => Alu.execute d.opcode (operandA d i) (operandB d i)

/-- Where a branch continues. -/
def branchTarget (d : DecodedInstruction) (i : Input) : Word :=
  if Alu.branchTaken d.opcode (operandA d i) (operandB d i) then d.pc + Fields.immB d.word
  else following d

/-- Where a jump continues. An indirect target is made even. -/
def jumpTarget (d : DecodedInstruction) (i : Input) : Word :=
  if d.opcode = .jal then d.pc + Fields.immJ d.word
  else (operandA d i + Fields.immI d.word) &&& ~~~ 1#64

/-- The address of a load or store. -/
def memoryAddress (d : DecodedInstruction) (i : Input) : Word :=
  operandA d i + (if d.opcode.cls = .store then Fields.immS d.word else Fields.immI d.word)

/-- The memory operation of a load or store. -/
def memoryOp (d : DecodedInstruction) (i : Input) (tag : Tag) : MemoryOp :=
  { pc := d.pc
    word := d.word
    target := d.target
    tag := tag
    data := operandB d i
    signExtends := d.opcode.traits.signExtends
    store := d.opcode.cls == .store
    size := d.opcode.traits.size
    addr := memoryAddress d i }

/-- The next tag. Tags are three bits wide. -/
def nextTag (t : Tag) : Tag := (t + 1) &&& 7

/-- The register that holds the return address of a trap. -/
def returnRegister : Opcode → CsrRegister
  | .uret => .uepc
  | .sret => .sepc
  | .hret => .hepc
  | _ => .mepc

/-- Sends a load or store to the memory-access stage. A misaligned one raises an exception
instead. -/
def Cycle.memory (c : Cycle) (d : DecodedInstruction) (i : Input) (tag : Tag) : Cycle :=
  let store := d.opcode.cls == .store
  if !d.opcode.traits.size.aligned (memoryAddress d i) then
    (c.raise d.pc (following d) fun e =>
      { e with misalignedLoad := !store, misalignedStore := store }).accept d (following d)
  else if !i.memoryReady || (d.target != 0 && c.next.hazards.isFull) then c.stall .hold
  else
    Cycle.accept
      { next := { c.next with
          tag := nextTag tag
          hazards := if store then c.next.hazards else c.next.hazards.issue d.target tag }
        out := { c.out with memoryOp := some (memoryOp d i tag) } }
      d (following d)

/-- The slot of an operation that starts. -/
def SlotState.start (d : DecodedInstruction) (i : Input) : SlotState :=
  { busy := true, enable := true, opcode := some d.opcode, a := operandA d i, b := operandB d i }

/-- Starts an operation on a functional unit, if all units are idle. -/
def Cycle.dispatch (c : Cycle) (s : Slot) (d : DecodedInstruction) (i : Input)
    (slots : PerSlot SlotState) : Cycle :=
  if slots.any (·.busy) || i.units.any (·.busy) then c.stall .hold
  else
    Cycle.keep
      (Cycle.accept { c with next.slots := c.next.slots.set s (.start d i) } d (following d))
      { pc := d.pc, word := d.word, opcode := some d.opcode, target := d.target } .multi

/-- The instruction writes the register without looking at its value. -/
def swaps (o : Opcode) : Bool := o == .csrrw || o == .csrrwi

/-- Starts an access to a control and status register. A swap into register 0 does not read, and
setting or clearing with operand field 0 does not write. -/
def Cycle.accessCsr (c : Cycle) (d : DecodedInstruction) (i : Input) : Cycle :=
  let rs1 := Fields.rs1 d.word
  let operand := if d.opcode.traits.readsRs1 then operandA d i else rs1.setWidth 64
  let writes := swaps d.opcode || rs1 != 0
  let reads := !(swaps d.opcode && Fields.rd d.word == 0)
  Cycle.keep
    (Cycle.accept
      { c with next.csr :=
          { phase := .request
            command := if reads then .read else .write
            addr := (Fields.csr d.word).setWidth 16
            data := if reads then 0 else operand } }
      d (following d))
    { pc := d.pc
      word := d.word
      opcode := some d.opcode
      target := d.target
      operand := operand
      writePending := reads && writes } .single

/-- Starts a bus transaction without data. -/
def Cycle.command (c : Cycle) (d : DecodedInstruction) (command : CsrCommand) (addr : CsrAddress) :
    Cycle :=
  Cycle.keep
    (Cycle.accept { c with next.csr := { phase := .request, command, addr } } d (following d))
    { pc := d.pc, word := d.word, opcode := some d.opcode } .single

/-- Accepts an instruction that nothing stands in the way of, or finds that memory or a functional
unit does. -/
def Cycle.start (c : Cycle) (fpuEnabled : Bool) (r : State) (d : DecodedInstruction) (i : Input) :
    Cycle :=
  let next := following d
  if isIllegal fpuEnabled d then
    (c.raise d.pc next fun e => { e with illegal := true }).accept d next
  else
    match d.opcode.cls with
    | .alu | .shift => (c.accept d next).complete i.writeReady d.target (aluResult d i)
    | .branch => c.accept d (branchTarget d i)
    | .jump => (c.accept d (jumpTarget d i)).complete i.writeReady d.target next
    | .load | .store => c.memory d i r.tag
    | .mul => c.dispatch .mul d i r.slots
    | .div => c.dispatch .div d i r.slots
    | .fpu => c.dispatch .fpu d i r.slots
    | .csr => c.accessCsr d i
    | .trapReturn => c.command d .trapReturn (returnRegister d.opcode).addr
    | .wfi => c.command d .wfi 0
    | .ecall => (c.raise d.pc next fun e => { e with ecall := true }).accept d next
    | .ebreak => (c.raise d.pc next fun e => { e with breakpoint := true }).accept d next
    | .fence | .atomic => c.accept d next

/-- Looks at the instruction that is presented. It is taken only at the next program counter, not
while the core is held, and after bus transactions and pending loads of its registers. -/
def Cycle.issue (c : Cycle) (fpuEnabled : Bool) (r : State) (i : Input) : Cycle :=
  let c := c.ready
  match i.instruction with
  | none => c
  | some d =>
    if d.pc ≠ r.npc ∨ i.npcWrite.isSome then c
    else if i.hold then { c with out.hold := true }
    else if r.csr.phase ≠ .idle then c.stall .hold
    else if r.hazards.conflicts d.hazards then c.stall .hazard
    else c.start fpuEnabled r d i

end RiscvPipeline.Execute
