import RiscvPipeline.Machine.Counting
import RiscvPipeline.Machine.Settle

/-! The second half of a cycle: register file, control and status registers, counters and waveform
are updated from the settled signals, and then every component is clocked. -/

namespace RiscvPipeline.Machine

variable (m : Machine) (w : Signals)

/-- The register file after the cycle. It takes one write: a loaded value goes before a result of
the execute stage, and both go before the debug port. -/
def writtenRegisters : Registers :=
  if w.access.write.enable then m.registers.write w.access.write.target w.access.write.data
  else if w.execute.write.enable then m.registers.write w.execute.write.target w.execute.write.data
  else
    match w.debug.registerWrite with
    | some r => m.registers.write r.target r.data
    | none => m.registers

/-- The effects on the control and status registers that do not come over their bus. -/
def sideEffects : CsrFile :=
  let c :=
    match w.trap.taken with
    | some t => m.csr.recordTrap t.cause t.epc t.tval
    | none => m.csr
  let c := if w.execute.exceptions.fpu.isEmpty then c else c.accrue w.execute.exceptions.fpu
  if w.execute.valid then c.retire else c

/-- The counters after the cycle. -/
def counted : Statistics :=
  let one (b : Bool) : Nat := if b then 1 else 0
  let s := { m.statistics with cycles := m.statistics.cycles + 1 }
  let s := s.countStall m.execute.state.phase (w.execute.hold && m.csr.halted)
  let s := { s with
    queueFull := s.queueFull + one !w.access.ready
    csrWait := s.csrWait + one (w.execute.csr.valid || w.execute.csr.ready)
    exceptions := s.exceptions +
      one (w.execute.exceptions.any || w.access.loadFault || w.access.storeFault) }
  if w.execute.valid then s.countInstruction (m.program.at? w.execute.pc) else s

/-- What the settled signals change outside the components. Under reset nothing is changed. -/
def commit : Machine :=
  if m.reset then m
  else
    { m with
      registers := m.writtenRegisters w
      csr := m.sideEffects w
      request := if w.debug.ready then none else m.request
      response := if w.debug.valid then some w.debug else m.response
      statistics := m.counted w }

/-- What the probes see. -/
def observation : Observation := ⟨m.reset, m.execute.state.phase, w⟩

/-- The file of control and status registers after the edge. What came over the bus was decided
before the other effects, and takes place after them. -/
def clockedCsr (committed : CsrFile) : CsrFile :=
  if m.reset then CsrFile.clocked.reset committed
  else CsrFile.clocked.edge committed (CsrFile.clocked.propose m.csr w.bus.slave)

/-- The clock edge, after `c` has been committed. -/
def clock (c : Machine) : Machine :=
  let arbiter := CsrArbiter.clocked.next m.reset m.arbiter (arbiterInput w)
  let memory := DataMemory.clocked.next m.reset m.memory w.access.bus
  let trap := TrapController.clocked.next m.reset m.trap (m.trapInput w)
  { c with
    execute := Execute.clocked.next m.reset m.execute (m.executeInput w)
    access := MemoryAccess.clocked.next m.reset m.access (accessInput w)
    units := .ofFn fun s => (m.units.get s).next m.reset (w.execute.units.get s)
    arbiter := arbiter
    csr := m.clockedCsr w c.csr
    memory := memory
    trap := trap
    debug := DebugPort.clocked.next m.reset m.debug (m.debugInput w)
    signals := w
    waveform := m.waveform.map fun v => v.record m.cycle (Probe.values (m.observation w))
    statistics := { c.statistics with
      executeGrants := arbiter.executeGrants
      debugGrants := arbiter.debugGrants
      memoryRequests := memory.requests
      traps := trap.taken }
    cycle := m.cycle + 1 }

/-- The machine after a cycle with settled signals `w`. -/
def advance : Machine := m.clock w (m.commit w)

/-- One clock cycle. If the signals do not settle nothing changes. -/
def tick : Except SimError Machine :=
  match m.settle with
  | .ok w => .ok (m.advance w)
  | .error e => .error e

end RiscvPipeline.Machine
