import RiscvPipeline.Csr.File
import RiscvPipeline.Execute.Stage
import RiscvPipeline.Machine.Probe
import RiscvPipeline.Memory.Data
import RiscvPipeline.Program.Image
import RiscvPipeline.Registers
import RiscvPipeline.Statistics
import RiscvPipeline.Units.Functional

/-! The machine: the components on one clock, the program in front of them, and what is observed of
them. -/

namespace RiscvPipeline

structure Machine where
  program : Program
  registers : Registers := {}
  execute : Execute := {}
  access : MemoryAccess := {}
  units : PerSlot FunctionalUnit
  arbiter : CsrArbiter := {}
  csr : CsrFile
  memory : DataMemory
  trap : TrapController := {}
  debug : DebugPort := {}
  /-- The debug access that the port has not accepted yet. -/
  request : Option DebugRequest := none
  /-- The answer of the port that nobody has taken yet. -/
  response : Option DebugPort.Output := none
  /-- What was driven in the last cycle. -/
  signals : Signals := {}
  statistics : Statistics := {}
  /-- The waveform, if one is written. -/
  waveform : Option Vcd := none
  resetMode : ResetMode := .sync
  /-- The reset line. -/
  reset : Bool := false
  cycle : Nat := 0

namespace Machine

/-- The machine of a configuration, before its first cycle. -/
def ofConfig (c : Config) (p : Program) : Machine :=
  { program := p
    execute := { fpuEnabled := c.general.fpuEnabled }
    units := ⟨.latency (.new .mul c.units.mulLatency), .latency (.new .div c.units.divLatency),
      .latency (.new .fpu c.units.fpuLatency)⟩
    csr := .new c.csr.latency c.csr.trapVector c.csr.hartId
    memory := .ofConfig c.memory
    waveform := c.general.traceFile.map fun _ => Probe.waveform
    resetMode := c.resetMode }

/-- Builds a machine. The configuration must be within its limits, and the file of the waveform,
if there is one, must be among those that can be written. -/
def new (writable : String → Bool) (c : Config) (p : Program) : Except SimError Machine := do
  c.validate
  if c.general.traceFile.all writable then return ofConfig c p else throw .io

/-- Loads a doubleword of an image. -/
def loadWord (m : Machine) (w : MemoryWord) : Except SimError Machine :=
  match if w.addr.toNat % 8 = 0 then m.memory.poke? w.addr w.value else none with
  | some d => .ok { m with memory := d }
  | none => .error (.program (.memoryWord w.addr))

/-- Loads the initial registers and memory of an image. -/
def load (m : Machine) (i : ProgramImage) : Except SimError Machine := do
  let rs ← i.initialRegisters
  let r := rs.foldl (fun r (n, v) => r.write n v) m.registers
  i.memory.foldlM loadWord { m with registers := r }

/-- Builds a machine with an image in it. -/
def ofImage (writable : String → Bool) (c : Config) (i : ProgramImage) :
    Except SimError Machine := do
  let p ← i.program
  let m ← new writable c p
  m.load i

/-- Replaces the unit of a slot. -/
def withUnit (m : Machine) (s : Slot) (u : FunctionalUnit) : Machine :=
  { m with units := m.units.set s u }

/-- Requests an external interrupt. -/
def raiseInterrupt (m : Machine) (code : Word) : Machine :=
  { m with trap := m.trap.raiseInterrupt code }

/-- Resets every component. Registers, memory contents, counters and debug accesses stay. -/
def resetComponents (m : Machine) : Machine :=
  { m with
    execute := Execute.clocked.reset m.execute
    access := MemoryAccess.clocked.reset m.access
    units := m.units.map .reset
    arbiter := CsrArbiter.clocked.reset m.arbiter
    csr := CsrFile.clocked.reset m.csr
    memory := DataMemory.clocked.reset m.memory
    trap := TrapController.clocked.reset m.trap
    debug := DebugPort.clocked.reset m.debug
    signals := {} }

/-- Drives the reset line. An asynchronous reset takes effect at once. -/
def setReset (m : Machine) (level : Bool) : Machine :=
  let m := { m with reset := level }
  if level ∧ m.resetMode = .async then m.resetComponents else m

/-- The program has been left and nothing is in flight. -/
def isFinished (m : Machine) : Bool :=
  !m.program.contains m.execute.state.npc && m.execute.state.isQuiescent && m.access.isDrained &&
    m.trap.pending.isNone && m.debug.isIdle

/-- A short description. -/
def describe (m : Machine) : String :=
  "Simulator \x7b cycle: " ++ toString m.cycle ++ ", npc: " ++ toString m.execute.state.npc.toNat ++
    ", state: " ++ m.execute.state.phase.name ++ ", reset: " ++ toString m.reset ++ ", .. \x7d"

end Machine

end RiscvPipeline
