import RiscvPipeline.Clocked
import RiscvPipeline.Memory.Ram
import RiscvPipeline.Memory.Timing
import RiscvPipeline.Signals

/-! The data memory: one request at a time, answered after the latency of its timing model. -/

namespace RiscvPipeline

namespace DataMemory

/-- What the memory is doing. -/
inductive Phase
  | idle
  /-- A response is due in so many cycles. -/
  | busy (remaining : Nat)
  | responding
  deriving DecidableEq

/-- The registers of the memory. -/
structure Registers where
  phase : Phase := .idle
  /-- Counts the cycles since reset, and wraps. -/
  tick : BitVec 32 := 0
  response : MemoryResponse := {}
  deriving DecidableEq

/-- The registers of the next cycle, and the request accepted in this one. -/
structure Proposal where
  registers : Registers
  accepted : Option MemoryRequest

end DataMemory

structure DataMemory where
  registers : DataMemory.Registers := {}
  ram : Ram
  base : Word
  readyPeriod : BitVec 32
  timing : MemoryTiming
  /-- The number of requests accepted so far. -/
  requests : Nat := 0

namespace DataMemory

def ofConfig (c : MemoryConfig) : DataMemory :=
  { ram := { size := c.size }
    base := c.base
    readyPeriod := if c.readyPeriod = 0 then 1 else c.readyPeriod
    timing := .ofConfig c }

variable (m : DataMemory)

/-- The offset of an address in the memory's region. -/
def offset? (addr : Word) : Option Nat :=
  if m.base.toNat ≤ addr.toNat ∧ addr.toNat - m.base.toNat < m.ram.size then
    some (addr.toNat - m.base.toNat)
  else none

/-- The aligned doubleword around an address. -/
def peek? (addr : Word) : Option Word := (m.offset? addr.alignDown).bind m.ram.read?

/-- Writes the lanes of the aligned doubleword around an address. -/
def store? (addr value : Word) (strobes : BitVec 8) : Option DataMemory :=
  (m.offset? addr.alignDown).bind fun n =>
    (m.ram.write? n value strobes).map fun r => { m with ram := r }

/-- Replaces the aligned doubleword around an address. -/
def poke? (addr value : Word) : Option DataMemory := m.store? addr value (BitVec.allOnes 8)

/-- Writes bytes from an address on. -/
def load? (addr : Word) (bytes : List (BitVec 8)) : Option DataMemory :=
  (m.offset? addr).bind fun n => (m.ram.load? n bytes).map fun r => { m with ram := r }

/-- The answer to a request. Outside the region there is no data, but a fault. -/
def respond (q : MemoryRequest) : MemoryResponse :=
  let dword := m.peek? q.addr
  { valid := true
    addr := q.addr
    data := if q.write then 0 else dword.getD 0
    loadFault := dword.isNone && !q.write
    storeFault := dword.isNone && q.write }

/-- Requests are accepted while none is outstanding, in every `readyPeriod`-th cycle. -/
def ready : Bool := m.registers.phase == .idle && m.registers.tick % m.readyPeriod == 0

def output (_ : MemoryRequest) : MemoryResponse :=
  match m.registers.phase with
  | .idle => { ready := m.ready }
  | .busy _ => {}
  | .responding => m.registers.response

def propose (q : MemoryRequest) : Proposal :=
  let next := { m.registers with tick := m.registers.tick + 1 }
  match m.registers.phase with
  | .idle =>
    if q.valid && m.ready then ⟨{ next with response := m.respond q }, some q⟩
    else ⟨next, none⟩
  | .busy n => ⟨{ next with phase := if n ≤ 1 then .responding else .busy (n - 1) }, none⟩
  | .responding => ⟨if q.ready then { next with phase := .idle } else next, none⟩

/-- The effect of accepting a request: a write reaches the memory, and the timing model says when
the response is due. -/
def accept (q : MemoryRequest) : DataMemory :=
  let written := if q.write then (m.store? q.addr q.data q.strobes).getD m else m
  let (latency, timing) := m.timing.access q.addr
  { written with
    registers.phase := if latency ≤ 1 then .responding else .busy (latency - 1)
    timing := timing
    requests := m.requests + 1 }

def edge (p : Proposal) : DataMemory :=
  let next := { m with registers := p.registers }
  match p.accepted with
  | some q => next.accept q
  | none => next

/-- Forgets an outstanding request; the contents and the request count stay. -/
def reset : DataMemory := { m with registers := {}, timing := m.timing.reset }

def clocked : Clocked DataMemory MemoryRequest MemoryResponse Proposal where
  output := output
  propose := propose
  hold m := ⟨m.registers, none⟩
  edge := edge
  reset := reset

end DataMemory

end RiscvPipeline
