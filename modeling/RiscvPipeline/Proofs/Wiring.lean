import RiscvPipeline.Proofs.Memory.LockStep
import RiscvPipeline.Proofs.Settling

/-! A settled cycle, seen from each component: what it reads, and what becomes of it. -/

namespace RiscvPipeline

namespace Statistics

variable (x : Statistics)

@[simp] theorem countStall_instructions (f : Execute.Phase) (b : Bool) :
    (x.countStall f b).instructions = x.instructions := by
  unfold countStall
  cases f <;> cases b <;> rfl

@[simp] theorem countUnit_instructions (c : ExecClass) :
    (x.countUnit c).instructions = x.instructions := by
  unfold countUnit
  split <;> rfl

@[simp] theorem countKind_instructions (c : ExecClass) :
    (x.countKind c).instructions = x.instructions := by
  cases c <;> rfl

@[simp] theorem countInstruction_instructions (d : Option DecodedInstruction) :
    (x.countInstruction d).instructions = x.instructions + 1 := by
  cases d <;> simp [countInstruction]

end Statistics

namespace Machine

variable {m : Machine} {w : Signals}

/-! ## Signals -/

namespace Settled

variable (h : m.Settled w)
include h

theorem execute : w.execute = (m.execute.step (m.executeInput w)).out :=
  congrArg (·.execute) h.symm

theorem access : w.access = (m.access.step (accessInput w)).2 := congrArg (·.access) h.symm

theorem memory : w.memory = m.memory.output w.access.bus := congrArg (·.memory) h.symm

theorem units (k : Slot) : w.units.get k = (m.units.get k).response (w.execute.units.get k) := by
  have : w.units = _ := congrArg (·.units) h.symm
  rw [this]
  exact PerSlot.get_ofFn ..

theorem trap : w.trap = m.trap.output (m.trapInput w) := congrArg (·.trap) h.symm

theorem bus : w.bus = m.arbiter.output (arbiterInput w) := congrArg (·.bus) h.symm

theorem csr : w.csr = m.csr.output w.bus.slave := congrArg (·.csr) h.symm

theorem debug : w.debug = m.debug.output (m.debugInput w) := congrArg (·.debug) h.symm

/-- A pending trap redirects the execute stage at once. -/
theorem redirect : w.trap.redirect = m.trap.pending.map fun _ => m.csr.trapVector := by
  rw [h.trap, TrapController.output_redirect]
  rfl

theorem isSome_redirect : w.trap.redirect.isSome = m.trap.pending.isSome := by
  rw [h.redirect, Option.isSome_map]

/-- The execute stage takes a trap in the first cycle in which it is pending. -/
theorem trapReady : w.execute.trapReady = m.trap.pending.isSome := by
  rw [← h.isSome_redirect, h.execute]
  exact Execute.step_wired.trapReady

theorem flush : w.execute.flush = m.trap.pending.isSome := by
  rw [← h.isSome_redirect, h.execute]
  exact Execute.step_wired.flush

theorem ready : w.access.ready = !m.access.queue.isFull := by
  rw [h.access]
  exact m.access.step_ready _

theorem turn (hm : m.access.WF) :
    m.access.Turn (accessInput w) (m.access.step (accessInput w)).1 w.access := by
  have ht := MemoryAccess.step_turn (i := accessInput w) hm rfl
  rwa [← h.access] at ht

/-- An operation is only handed over when the queue takes it. -/
theorem admitted : m.access.admitted (accessInput w) =
    (w.execute.memoryOp.map QueueEntry.ofMemoryOp).toList := by
  have he := h.execute
  obtain ⟨_, hm⟩ | ⟨_, hm⟩ | ⟨_, _, _, _, hrd, _, hm⟩ :=
    Execute.step_handed (s := m.execute) (i := m.executeInput w)
  · simp [MemoryAccess.admitted, accessInput, he, hm]
  · simp [MemoryAccess.admitted, accessInput, he, hm]
  · have hfull : m.access.queue.isFull = false := by
      have : w.access.ready = true := hrd
      rw [h.ready] at this
      simpa using this
    simp [MemoryAccess.admitted, accessInput, he, hm, hfull]

end Settled

/-! ## The clock edge -/

section

variable (hr : m.reset = false)
include hr

theorem advance_execute : (m.advance w).execute =
    { m.execute with state := (m.execute.step (m.executeInput w)).next } := by
  simp [advance, clock, Clocked.next, hr, Execute.clocked]

theorem advance_access : (m.advance w).access = (m.access.step (accessInput w)).1 := by
  simp [advance, clock, Clocked.next, hr, MemoryAccess.clocked]

theorem advance_memory : (m.advance w).memory = m.memory.next w.access.bus := by
  simp [advance, clock, Clocked.next, hr, DataMemory.clocked, DataMemory.next]

theorem advance_trap : (m.advance w).trap = m.trap.edge (m.trap.propose (m.trapInput w)) := by
  simp [advance, clock, Clocked.next, hr, TrapController.clocked]

theorem advance_arbiter : (m.advance w).arbiter.registers = m.arbiter.propose (arbiterInput w) := by
  simp [advance, clock, Clocked.next, hr, CsrArbiter.clocked, CsrArbiter.edge]

theorem advance_csr : (m.advance w).csr =
    (m.sideEffects w).edge (m.csr.propose w.bus.slave) := by
  simp [advance, clock, clockedCsr, commit, hr, CsrFile.clocked]

theorem advance_debug : (m.advance w).debug = m.debug.propose (m.debugInput w) := by
  simp [advance, clock, Clocked.next, hr, DebugPort.clocked]

theorem advance_registers : (m.advance w).registers = m.writtenRegisters w := by
  simp [advance, clock, commit, hr]

theorem advance_request : (m.advance w).request = if w.debug.ready then none else m.request := by
  simp [advance, clock, commit, hr]

theorem advance_response :
    (m.advance w).response = if w.debug.valid then some w.debug else m.response := by
  simp [advance, clock, commit, hr]

end

theorem advance_request_of_reset (hr : m.reset = true) : (m.advance w).request = m.request := by
  simp [advance, clock, commit, hr]

@[simp] theorem advance_cycle : (m.advance w).cycle = m.cycle + 1 := rfl

@[simp] theorem advance_program : (m.advance w).program = m.program := by
  unfold advance clock commit
  cases m.reset <;> rfl

/-! ## Counted instructions -/

theorem counted_instructions : (m.counted w).instructions =
    m.statistics.instructions + if w.execute.valid = true then 1 else 0 := by
  unfold counted
  cases w.execute.valid <;> simp

theorem advance_instructions (hr : m.reset = false) :
    (m.advance w).statistics.instructions = (m.counted w).instructions := by
  simp [advance, clock, commit, hr]

end Machine

end RiscvPipeline
