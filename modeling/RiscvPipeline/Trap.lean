import RiscvPipeline.Cause
import RiscvPipeline.Clocked
import RiscvPipeline.Signals

/-! The trap controller: keeps one trap until the execute stage takes it, and holds an interrupt
back while there is another. -/

namespace RiscvPipeline

/-- A trap as it is recorded. -/
structure Trap where
  cause : Word := 0
  epc : Word := 0
  tval : Word := 0
  deriving DecidableEq, Inhabited

namespace Trap

/-- The bit that tells interrupts from exceptions. -/
def interruptBit : Word := 1 <<< 63

def isInterrupt (t : Trap) : Bool := t.cause &&& interruptBit != 0

/-- An interrupt with a code; its return address is not yet known. -/
def interrupt (code : Word) : Trap := { cause := interruptBit ||| code }

def exception (c : Cause) (epc tval : Word) : Trap := { cause := c.word, epc, tval }

end Trap

namespace TrapController

structure Input where
  exceptions : ExceptionPulses := {}
  loadFault : Bool := false
  storeFault : Bool := false
  faultPc : Word := 0
  faultAddr : Word := 0
  /-- The execute stage takes a trap in this cycle. -/
  ready : Bool := false
  vector : Word := 0
  npc : Word := 0
  deriving DecidableEq

structure Output where
  /-- Where the execute stage is to continue. -/
  redirect : Option Word := none
  /-- The trap taken in this cycle. -/
  taken : Option Trap := none
  deriving DecidableEq, Inhabited

/-- The trap of a cycle. Faults of the memory go first, since they belong to older instructions. -/
def prioritize (i : Input) : Option Trap :=
  let e := i.exceptions
  if i.loadFault then some (.exception .loadFault i.faultPc i.faultAddr)
  else if i.storeFault then some (.exception .storeFault i.faultPc i.faultAddr)
  else if e.illegal then some (.exception .illegalInstruction e.pc 0)
  else if e.breakpoint then some (.exception .breakpoint e.pc e.pc)
  else if e.ecall then some (.exception .callFromMachine e.pc 0)
  else if e.misalignedLoad then some (.exception .loadMisaligned e.pc 0)
  else if e.misalignedStore then some (.exception .storeMisaligned e.pc 0)
  else none

end TrapController

structure TrapController where
  pending : Option Trap := none
  /-- The code of an interrupt that is not pending yet. -/
  latched : Option Word := none
  /-- The number of traps taken so far. -/
  taken : Nat := 0
  deriving DecidableEq

namespace TrapController

variable (s : TrapController)

/-- Requests an interrupt. -/
def raiseInterrupt (code : Word) : TrapController :=
  { s with latched := some (code &&& ~~~ Trap.interruptBit) }

def output (i : Input) : Output :=
  match s.pending with
  | none => {}
  | some t =>
    { redirect := some i.vector
      taken := if i.ready then some (if t.isInterrupt then { t with epc := i.npc } else t)
        else none }

def propose (i : Input) : Option Trap :=
  match s.pending with
  | none => prioritize i
  | some t => if i.ready then none else some t

/-- The clock edge: if no trap was pending and none was raised, a latched interrupt becomes
pending. -/
def edge (p : Option Trap) : TrapController :=
  match s.pending, p with
  | some _, none => { s with pending := none, taken := s.taken + 1 }
  | none, none => { s with pending := s.latched.map .interrupt, latched := none }
  | _, some t => { s with pending := some t }

def clocked : Clocked TrapController Input Output (Option Trap) where
  output := output
  propose := propose
  hold s := s.pending
  edge := edge
  reset s := { s with pending := none, latched := none }

end TrapController

end RiscvPipeline
