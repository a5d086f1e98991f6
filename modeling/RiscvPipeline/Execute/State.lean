import RiscvPipeline.Csr.Bus
import RiscvPipeline.Execute.Hazard
import RiscvPipeline.Program

/-! The registers, inputs and outputs of the execute stage. -/

namespace RiscvPipeline.Execute

inductive Phase
  /-- Ready for an instruction. -/
  | waiting
  /-- A result waits for the register file, or a bus transaction is under way. -/
  | single
  /-- A functional unit is at work. -/
  | multi
  /-- The memory queue or a functional unit is not available. -/
  | hold
  /-- A register has a pending load. -/
  | hazard
  deriving DecidableEq

def Phase.name : Phase → String
  | waiting => "WaitInstr"
  | single => "SingleCycle"
  | multi => "MultiCycle"
  | hold => "Hold"
  | hazard => "Hazard"

inductive CsrPhase
  | idle
  | request
  | response
  deriving DecidableEq

/-- The bus transaction of the stage. -/
structure CsrTransaction where
  phase : CsrPhase := .idle
  command : CsrCommand := .none
  addr : CsrAddress := 0
  data : Word := 0
  /-- A trap came in between, so the response is ignored. -/
  discard : Bool := false
  deriving DecidableEq

/-- An operation on a functional unit. -/
structure SlotState where
  busy : Bool := false
  /-- The unit is triggered in this cycle. -/
  enable : Bool := false
  /-- A trap came in between, so the result is dropped. -/
  suppress : Bool := false
  opcode : Option Opcode := none
  a : Word := 0
  b : Word := 0
  deriving DecidableEq, Inhabited

/-- The instruction that is not finished yet. -/
structure InFlight where
  pc : Word := 0
  word : BitVec 32 := 0
  opcode : Option Opcode := none
  target : RegIndex := 0
  result : Word := 0
  /-- The operand of an access to a control and status register. -/
  operand : Word := 0
  /-- The register is still to be written. -/
  writePending : Bool := false
  deriving DecidableEq

/-- The registers of the stage. -/
structure State where
  phase : Phase := .waiting
  npc : Word := resetVector
  current : InFlight := {}
  slots : PerSlot SlotState := .replicate {}
  hazards : HazardTracker := {}
  tag : Tag := 0
  csr : CsrTransaction := {}
  deriving DecidableEq

structure Input where
  instruction : Option DecodedInstruction := none
  /-- No instruction may start. -/
  hold : Bool := false
  /-- The operands, read from the register file as integers and as floating-point numbers. -/
  a : Word := 0
  b : Word := 0
  fa : Word := 0
  fb : Word := 0
  /-- The register file takes a write. -/
  writeReady : Bool := false
  /-- The memory-access stage takes an operation. -/
  memoryReady : Bool := false
  /-- The register write that the memory-access stage completes. -/
  retired : Option PendingWrite := none
  csr : CsrResponse := {}
  units : PerSlot UnitResponse := .replicate {}
  /-- A trap, with the address of its handler. -/
  trap : Option Word := none
  /-- A debug access sets the next program counter. -/
  npcWrite : Option Word := none
  deriving DecidableEq

structure Output where
  readIndex1 : RegIndex := 0
  readIndex2 : RegIndex := 0
  write : WriteBack := {}
  /-- The instruction must be presented again. -/
  hold : Bool := false
  /-- An instruction is not finished. -/
  busy : Bool := false
  memoryOp : Option MemoryOp := none
  /-- A trap squashes the loads under way. -/
  flush : Bool := false
  csr : CsrRequest := {}
  units : PerSlot UnitRequest := .replicate {}
  exceptions : ExceptionPulses := {}
  fpuValid : Bool := false
  trapReady : Bool := false
  /-- An instruction is accepted. -/
  valid : Bool := false
  pc : Word := 0
  npc : Word := 0
  word : BitVec 32 := 0
  call : Bool := false
  ret : Bool := false
  mret : Bool := false
  uret : Bool := false
  deriving DecidableEq, Inhabited

/-- A cycle in the making: the next registers and the outputs so far. -/
structure Cycle where
  next : State
  out : Output

namespace State

variable (s : State)

/-- Nothing is in flight. -/
def isQuiescent : Bool :=
  (s.phase == .waiting || s.phase == .hold || s.phase == .hazard) && s.csr.phase == .idle &&
    !s.slots.any (·.busy)

end State

end RiscvPipeline.Execute
