import RiscvPipeline.Csr.Arbiter
import RiscvPipeline.Debug.Port
import RiscvPipeline.Execute.State
import RiscvPipeline.Memory.Access
import RiscvPipeline.Trap

/-! What the components of the machine drive in one cycle. -/

namespace RiscvPipeline

structure Signals where
  execute : Execute.Output := {}
  access : MemoryAccess.Output := {}
  units : PerSlot UnitResponse := .replicate {}
  bus : CsrArbiter.Output := {}
  csr : CsrResponse := {}
  memory : MemoryResponse := {}
  trap : TrapController.Output := {}
  debug : DebugPort.Output := {}
  deriving DecidableEq

end RiscvPipeline
