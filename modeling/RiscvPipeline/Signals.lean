import RiscvPipeline.Double.Flags
import RiscvPipeline.Isa.Decoded

/-! The bundles of signals that connect the components. -/

namespace RiscvPipeline

/-- The number that tells the loads to one register apart. -/
abbrev Tag := BitVec 8

/-- A write request at the register file. -/
structure WriteBack where
  enable : Bool := false
  target : RegIndex := 0
  data : Word := 0
  tag : Tag := 0
  deriving DecidableEq, Inhabited

/-- A register that an outstanding load will write. -/
structure PendingWrite where
  target : RegIndex := 0
  tag : Tag := 0
  deriving DecidableEq, Inhabited

/-- A load or store handed over to the memory-access stage. -/
structure MemoryOp where
  pc : Word := 0
  word : BitVec 32 := 0
  /-- The register a load writes. -/
  target : RegIndex := 0
  tag : Tag := 0
  /-- The register value a store writes. -/
  data : Word := 0
  signExtends : Bool := false
  store : Bool := false
  size : AccessSize := .double
  addr : Word := 0
  deriving DecidableEq, Inhabited

/-- The request side of the data-memory bus. -/
structure MemoryRequest where
  valid : Bool := false
  write : Bool := false
  addr : Word := 0
  /-- Write data, each byte in its lane. -/
  data : Word := 0
  /-- The lanes to write. -/
  strobes : BitVec 8 := 0
  size : AccessSize := .double
  /-- A response is welcome. -/
  ready : Bool := false
  deriving DecidableEq, Inhabited

/-- The response side of the data-memory bus. -/
structure MemoryResponse where
  /-- A request is accepted this cycle. -/
  ready : Bool := false
  valid : Bool := false
  /-- The address of the request that is answered. -/
  addr : Word := 0
  /-- The aligned doubleword around the address. -/
  data : Word := 0
  loadFault : Bool := false
  storeFault : Bool := false
  deriving DecidableEq, Inhabited

/-- The trigger of a functional unit. -/
structure UnitRequest where
  enable : Bool := false
  opcode : Option Opcode := none
  a : Word := 0
  b : Word := 0
  deriving DecidableEq, Inhabited

/-- The answer of a functional unit. -/
structure UnitResponse where
  busy : Bool := false
  valid : Bool := false
  result : Word := 0
  flags : FpFlags := .none
  deriving DecidableEq, Inhabited

/-- The exceptions raised by the execute stage in one cycle. -/
structure ExceptionPulses where
  /-- The address of the instruction at fault. -/
  pc : Word := 0
  npc : Word := 0
  illegal : Bool := false
  misalignedLoad : Bool := false
  misalignedStore : Bool := false
  breakpoint : Bool := false
  ecall : Bool := false
  /-- The flags of a floating-point result. -/
  fpu : FpFlags := .none
  deriving DecidableEq, Inhabited

namespace ExceptionPulses

/-- Some pulse is raised. -/
def any (e : ExceptionPulses) : Bool :=
  e.illegal || e.misalignedLoad || e.misalignedStore || e.breakpoint || e.ecall || !e.fpu.isEmpty

end ExceptionPulses

end RiscvPipeline
