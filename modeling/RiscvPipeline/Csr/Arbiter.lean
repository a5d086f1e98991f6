import RiscvPipeline.Clocked
import RiscvPipeline.Csr.Bus

/-! The arbiter of the bus to the control and status registers. A master keeps the bus from its
request to its response; of two requests the one of the execute stage goes first. -/

namespace RiscvPipeline

namespace CsrArbiter

inductive Master
  | execute
  | debug
  deriving DecidableEq, Inhabited

def Master.index : Master → Nat
  | execute => 0
  | debug => 1

structure Input where
  execute : CsrRequest := {}
  debug : CsrRequest := {}
  slave : CsrResponse := {}
  deriving DecidableEq

structure Output where
  execute : CsrResponse := {}
  debug : CsrResponse := {}
  slave : CsrRequest := {}
  owner : Master := .execute
  deriving DecidableEq, Inhabited

/-- The request of a master. -/
def Input.request (i : Input) : Master → CsrRequest
  | .execute => i.execute
  | .debug => i.debug

structure Registers where
  acquired : Bool := false
  owner : Master := .execute
  deriving DecidableEq

end CsrArbiter

structure CsrArbiter where
  registers : CsrArbiter.Registers := {}
  /-- How often each master was given the bus. -/
  executeGrants : Nat := 0
  debugGrants : Nat := 0
  deriving DecidableEq

namespace CsrArbiter

variable (s : CsrArbiter) (i : Input)

/-- The master that is connected in this cycle. -/
def owner : Master :=
  if s.registers.acquired then s.registers.owner
  else if i.execute.valid then .execute
  else if i.debug.valid then .debug
  else s.registers.owner

def output : Output :=
  let owner := s.owner i
  { execute := if owner = .execute then i.slave else {}
    debug := if owner = .debug then i.slave else {}
    slave := i.request owner
    owner := owner }

def propose : Registers :=
  let owner := s.owner i
  let granted := !s.registers.acquired && (i.request owner).valid
  let done := i.slave.valid && (i.request owner).ready
  { acquired := (s.registers.acquired || granted) && !done
    owner := if granted then owner else s.registers.owner }

/-- The clock edge, at which a newly acquired bus counts as a grant. -/
def edge (p : Registers) : CsrArbiter :=
  let granted (m : Master) : Nat :=
    if p.acquired && !s.registers.acquired && p.owner = m then 1 else 0
  { registers := p
    executeGrants := s.executeGrants + granted .execute
    debugGrants := s.debugGrants + granted .debug }

def clocked : Clocked CsrArbiter Input Output Registers where
  output := output
  propose := propose
  hold s := s.registers
  edge := edge
  reset s := { s with registers := {} }

end CsrArbiter

end RiscvPipeline
