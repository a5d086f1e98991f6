import RiscvPipeline.Clocked
import RiscvPipeline.Csr.Bus
import RiscvPipeline.Debug.Request
import RiscvPipeline.Signals

/-! The debug port: carries out one access at a time. Control and status registers and run control
are reached over the bus, registers through the register file, and the next program counter
directly. -/

namespace RiscvPipeline

namespace DebugPort

inductive Phase
  | idle
  | csrRequest
  | csrResponse
  | access
  | responding
  deriving DecidableEq

structure Input where
  request : Option DebugRequest := none
  /-- The response is taken. -/
  ready : Bool := false
  csr : CsrResponse := {}
  /-- The register that is read. -/
  readData : Word := 0
  /-- The register file takes a write. -/
  writeReady : Bool := false
  npc : Word := 0
  halted : Bool := false
  deriving DecidableEq

/-- A register write. -/
structure RegisterWrite where
  target : RegIndex
  data : Word
  deriving DecidableEq

structure Output where
  ready : Bool := false
  valid : Bool := false
  data : Word := 0
  /-- The access was rejected. -/
  error : Bool := false
  csr : CsrRequest := {}
  readIndex : RegIndex := 0
  registerWrite : Option RegisterWrite := none
  npcWrite : Option Word := none
  deriving DecidableEq, Inhabited

/-- The address of run control: writing an odd number halts the core, an even one resumes it. -/
def runControl : BitVec 16 := 0

/-- The address of the next program counter. -/
def nextPc : BitVec 16 := 1

end DebugPort

structure DebugPort where
  phase : DebugPort.Phase := .idle
  request : DebugRequest := {}
  data : Word := 0
  error : Bool := false
  deriving DecidableEq

namespace DebugPort

/-- Where a new request is carried out; none if its address is bad. -/
def route? (q : DebugRequest) : Option Phase :=
  match q.region with
  | .csr => some .csrRequest
  | .registers => if q.addr.toNat < 64 then some .access else none
  | .control =>
    if q.addr = runControl then some (if q.write then .csrRequest else .access)
    else if q.addr = nextPc then some .access
    else none

/-- The bus command of a request. -/
def command (q : DebugRequest) : CsrCommand :=
  match q.region, q.write with
  | .control, _ => if q.wdata.getLsbD 0 then .halt else .resume
  | _, true => .write
  | _, false => .read

/-- The bus request of a request. -/
def busRequest (q : DebugRequest) : CsrRequest :=
  { valid := true
    command := command q
    addr := if q.region = .control then 0 else q.addr
    data := q.wdata }

/-- The register a request addresses. -/
def register (q : DebugRequest) : RegIndex := (q.addr &&& 0x3f).setWidth 8

variable (s : DebugPort) (i : Input)

def output : Output :=
  match s.phase with
  | .idle => { ready := true }
  | .csrRequest => { csr := busRequest s.request }
  | .csrResponse => { csr.ready := true }
  | .access =>
    match s.request.region with
    | .registers =>
      { readIndex := register s.request
        registerWrite :=
          if s.request.write && i.writeReady then some ⟨register s.request, s.request.wdata⟩
          else none }
    | _ =>
      { npcWrite :=
          if s.request.region = .control ∧ s.request.addr = nextPc ∧ s.request.write then
            some s.request.wdata
          else none }
  | .responding => { valid := true, data := s.data, error := s.error }

/-- Takes a new request. -/
def accept (q : DebugRequest) : DebugPort :=
  match route? q with
  | some p => { phase := p, request := q, data := 0, error := false }
  | none => { phase := .responding, request := q, data := 0, error := true }

/-- Finishes an access with the data it read. -/
def respond (data : Word) : DebugPort := { s with phase := .responding, data := data }

/-- Carries out an access that does not need the bus. -/
def access : DebugPort :=
  match s.request.region with
  | .registers =>
    if !s.request.write then s.respond i.readData
    else if i.writeReady then s.respond s.data
    else s
  | .control =>
    if s.request.addr = nextPc then s.respond (if s.request.write then s.data else i.npc)
    else s.respond (.ofBool i.halted)
  | .csr => s.respond (.ofBool i.halted)

def propose : DebugPort :=
  match s.phase with
  | .idle =>
    match i.request with
    | some q => accept q
    | none => s
  | .csrRequest => if i.csr.ready then { s with phase := .csrResponse } else s
  | .csrResponse =>
    if i.csr.valid then
      { s with phase := .responding, data := i.csr.data, error := i.csr.exception }
    else s
  | .access => s.access i
  | .responding => if i.ready then { s with phase := .idle } else s

def isIdle : Bool := s.phase == .idle

def clocked : Clocked DebugPort Input Output DebugPort where
  output := output
  propose := propose
  hold s := s
  edge _ p := p
  reset _ := {}

end DebugPort

end RiscvPipeline
