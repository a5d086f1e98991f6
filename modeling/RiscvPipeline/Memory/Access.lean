import RiscvPipeline.Clocked
import RiscvPipeline.Memory.Queue

/-! The memory-access stage: takes loads and stores from its queue, one at a time and in order,
puts them on the bus, and writes loaded values back. -/

namespace RiscvPipeline

namespace MemoryAccess

inductive Phase
  | idle
  /-- A request is on the bus and not yet accepted. -/
  | requesting
  /-- A response is outstanding. -/
  | waiting
  /-- A loaded value waits for the register file. -/
  | holding
  deriving DecidableEq

def Phase.name : Phase → String
  | idle => "Idle"
  | requesting => "WaitReqAccept"
  | waiting => "WaitResponse"
  | holding => "Hold"

structure Input where
  /-- An operation handed over by the execute stage. -/
  op : Option MemoryOp := none
  /-- A trap squashes everything under way. -/
  flush : Bool := false
  /-- The register file takes a write. -/
  writeReady : Bool := false
  bus : MemoryResponse := {}
  deriving DecidableEq

structure Output where
  /-- The queue has room. -/
  ready : Bool := false
  write : WriteBack := {}
  bus : MemoryRequest := {}
  loadFault : Bool := false
  storeFault : Bool := false
  faultPc : Word := 0
  faultAddr : Word := 0
  deriving DecidableEq, Inhabited

end MemoryAccess

structure MemoryAccess where
  phase : MemoryAccess.Phase := .idle
  queue : MemoryQueue := {}
  /-- The operation on the bus. -/
  current : QueueEntry := {}
  /-- The value that waits for the register file. -/
  held : Word := 0
  deriving DecidableEq

namespace MemoryAccess

/-- The bus request of an operation. Only stores have strobes. -/
def request (e : QueueEntry) (ready : Bool) : MemoryRequest :=
  { valid := true
    write := e.store
    addr := e.addr
    data := e.data
    strobes := if e.store then e.strobes else 0
    size := e.size
    ready := ready }

/-- The write-back of a load. -/
def writeBack (e : QueueEntry) (data : Word) : WriteBack :=
  { enable := true, target := e.target, data := data, tag := e.tag }

/-- The register write that an output completes. -/
def retired (o : Output) (writeReady : Bool) : Option PendingWrite :=
  if o.write.enable && writeReady then some ⟨o.write.target, o.write.tag⟩ else none

variable (s : MemoryAccess) (i : Input)

/-- Nothing is queued or on the bus. -/
def isDrained : Bool := s.phase == .idle && s.queue.isEmpty

/-- Puts the next queued operation on the bus. -/
def issue (o : Output) : MemoryAccess × Output :=
  match s.queue.pop? with
  | none => ({ s with phase := .idle }, o)
  | some (head, rest) =>
    ({ s with
        phase := if i.bus.ready then .waiting else .requesting
        queue := rest
        current := head },
      { o with bus := request head o.bus.ready })

/-- The response is not for the doubleword of the operation on the bus. -/
def mismatched : Bool := i.bus.addr.alignDown != s.current.addr.alignDown

/-- The operation on the bus has no effect any more. -/
def squashed : Bool := s.current.flushed || i.flush || s.mismatched i

/-- The response reports a fault of the operation's own kind. -/
def faulted : Bool := if s.current.store then i.bus.storeFault else i.bus.loadFault

/-- The response completes a load into a register. -/
def loads : Bool :=
  !s.current.store && !s.squashed i && !s.faulted i && s.current.target != 0

/-- Adds the fault of the operation on the bus, unless it was squashed. -/
def report (o : Output) : Output :=
  if s.faulted i && !s.squashed i then
    { o with
      loadFault := !s.current.store
      storeFault := s.current.store
      faultPc := s.current.pc
      faultAddr := s.current.addr }
  else o

/-- A response has come. -/
def answered (o : Output) : MemoryAccess × Output :=
  let o := s.report i o
  if s.loads i then
    let data := s.current.loaded i.bus.data
    let o := { o with write := writeBack s.current data }
    if i.writeReady then s.issue i o else ({ s with phase := .holding, held := data }, o)
  else s.issue i o

/-- What happens on the bus and at the register file. -/
def advance (o : Output) : MemoryAccess × Output :=
  match s.phase with
  | .idle => s.issue i o
  | .requesting =>
    ({ s with phase := if i.bus.ready then .waiting else .requesting },
      { o with bus := request s.current false })
  | .waiting =>
    let o := { o with bus.ready := true }
    if i.bus.valid then s.answered i o else (s, o)
  | .holding =>
    if i.flush then s.issue i o
    else
      let o := { o with write := writeBack s.current s.held }
      if i.writeReady then s.issue i o else (s, o)

/-- Queues an operation. -/
def push (m : MemoryOp) : MemoryAccess :=
  { s with queue := (s.queue.push? (.ofMemoryOp m)).getD s.queue }

/-- Squashes everything under way. -/
def flush : MemoryAccess :=
  { s with queue := s.queue.flush, current.flushed := true }

/-- One cycle: the next state and the outputs. There is room for an operation if the queue was not
full at the start of the cycle. -/
def step : MemoryAccess × Output :=
  let ready := !s.queue.isFull
  let (next, o) := s.advance i { ready := ready }
  let next :=
    match i.op with
    | some m => if ready then next.push m else next
    | none => next
  (if i.flush then next.flush else next, o)

def clocked : Clocked MemoryAccess Input Output MemoryAccess where
  output s i := (s.step i).2
  propose s i := (s.step i).1
  hold s := s
  edge _ p := p
  reset _ := {}

end MemoryAccess

end RiscvPipeline
