import RiscvPipeline.Machine.Basic

/-! The first half of a cycle: the components are evaluated against what all of them drive, until
nothing changes any more. -/

namespace RiscvPipeline.Machine

variable (m : Machine) (w : Signals)

def executeInput : Execute.Input :=
  { instruction := m.program.at? m.execute.state.npc
    hold := m.csr.halted
    a := m.registers.read w.execute.readIndex1
    b := m.registers.read w.execute.readIndex2
    fa := m.registers.read w.execute.readIndex1
    fb := m.registers.read w.execute.readIndex2
    writeReady := !w.access.write.enable
    memoryReady := w.access.ready
    retired := MemoryAccess.retired w.access true
    csr := w.bus.execute
    units := w.units
    trap := w.trap.redirect
    npcWrite := w.debug.npcWrite }

def accessInput : MemoryAccess.Input :=
  { op := w.execute.memoryOp
    flush := w.execute.flush
    writeReady := true
    bus := w.memory }

def arbiterInput : CsrArbiter.Input :=
  { execute := w.execute.csr
    debug := w.debug.csr
    slave := w.csr }

def trapInput : TrapController.Input :=
  { exceptions := w.execute.exceptions
    loadFault := w.access.loadFault
    storeFault := w.access.storeFault
    faultPc := w.access.faultPc
    faultAddr := w.access.faultAddr
    ready := w.execute.trapReady
    vector := m.csr.trapVector
    npc := m.execute.state.npc }

/-- The debug port writes registers when neither stage does. -/
def debugInput : DebugPort.Input :=
  { request := m.request
    ready := true
    csr := w.bus.debug
    readData := m.registers.read w.debug.readIndex
    writeReady := !w.access.write.enable && !w.execute.write.enable
    npc := m.execute.state.npc
    halted := m.csr.halted }

/-- What the components drive when they see `w`. -/
def evaluate : Signals :=
  { execute := Execute.clocked.output m.execute (m.executeInput w)
    access := MemoryAccess.clocked.output m.access (accessInput w)
    units := .ofFn fun s => (m.units.get s).response (w.execute.units.get s)
    bus := CsrArbiter.clocked.output m.arbiter (arbiterInput w)
    csr := CsrFile.clocked.output m.csr w.bus.slave
    memory := DataMemory.clocked.output m.memory w.access.bus
    trap := TrapController.clocked.output m.trap (m.trapInput w)
    debug := DebugPort.clocked.output m.debug (m.debugInput w) }

/-- The signals are in agreement with the components that drive them. -/
def Settled : Prop := m.evaluate w = w

instance : Decidable (m.Settled w) := inferInstanceAs (Decidable (_ = _))

/-- Evaluates at most `fuel` times from `w` on and stops at signals that do not change. -/
def settleFrom : Nat → Signals → Option Signals
  | 0, _ => none
  | fuel + 1, w =>
    let next := m.evaluate w
    if next = w then some w else settleFrom fuel next

/-- How often the signals are evaluated before they count as unstable. -/
def maxEvaluations : Nat := 16

/-- Every unit has an answer that lasts. -/
def unitsStable : Bool := !m.units.any fun u => !u.isStable

/-- The signals of the cycle. -/
def settle : Except SimError Signals :=
  match if m.unitsStable then m.settleFrom maxEvaluations {} else none with
  | some w => .ok w
  | none => .error (.combinationalLoop m.cycle maxEvaluations)

theorem settled_of_settleFrom {fuel : Nat} {v w : Signals} (h : m.settleFrom fuel v = some w) :
    m.Settled w := by
  induction fuel generalizing v with
  | zero => simp [settleFrom] at h
  | succ n ih =>
    simp only [settleFrom] at h
    split at h
    · next hv => cases h; exact hv
    · exact ih h

end RiscvPipeline.Machine
