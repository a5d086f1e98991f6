import RiscvPipeline.Proofs.Wiring

/-! Machines that nobody disturbs: no reset, no trap, no debug access, nothing on the bus to the
control and status registers. -/

namespace RiscvPipeline

/-- Nothing is raised but floating-point flags. -/
structure ExceptionPulses.Harmless (e : ExceptionPulses) : Prop where
  illegal : e.illegal = false
  misalignedLoad : e.misalignedLoad = false
  misalignedStore : e.misalignedStore = false
  breakpoint : e.breakpoint = false
  ecall : e.ecall = false

namespace Machine

/-- Nothing comes from outside, and nothing is to be expected. -/
structure Calm (m : Machine) : Prop where
  reset : m.reset = false
  fpuEnabled : m.execute.fpuEnabled = true
  pending : m.trap.pending = none
  latched : m.trap.latched = none
  request : m.request = none
  debug : m.debug.phase = .idle
  bus : m.csr.control.phase = .idle
  running : m.csr.halted = false
  transaction : m.execute.state.csr.phase = .idle

namespace Calm

variable {m : Machine} {w : Signals} (h : m.Calm) (hw : m.Settled w)
include h hw

theorem debugOutput : w.debug = { ready := true } := by
  rw [hw.debug]
  unfold DebugPort.output
  rw [h.debug]

theorem redirect : w.trap.redirect = none := by
  rw [hw.redirect, h.pending]
  rfl

theorem flush : w.execute.flush = false := by
  rw [hw.flush, h.pending]
  rfl

theorem input_trap : (m.executeInput w).trap = none := h.redirect hw

theorem input_npcWrite : (m.executeInput w).npcWrite = none := by
  rw [executeInput, h.debugOutput hw]

/-- No command reaches the control and status registers. -/
theorem slave : w.bus.slave.valid = false := by
  have he : w.execute.csr.valid = false := by
    have hd : w.execute.csr = m.execute.busDrive := by
      rw [hw.execute]
      exact Execute.step_wired.bus
    rw [hd, Execute.busDrive, h.transaction]
  have hd : w.debug.csr.valid = false := by rw [h.debugOutput hw]
  rw [hw.bus]
  show ((arbiterInput w).request (m.arbiter.owner (arbiterInput w))).valid = false
  cases m.arbiter.owner (arbiterInput w) with
  | execute => exact he
  | debug => exact hd

theorem control : (m.advance w).csr.control = m.csr.control := by
  have hp : m.csr.propose w.bus.slave = ⟨m.csr.control, []⟩ := by
    unfold CsrFile.propose
    rw [h.bus, h.slave hw]
    rfl
  rw [advance_csr h.reset, hp]
  rfl

/-- A machine stays undisturbed while its instructions raise nothing. -/
theorem advance (he : w.execute.exceptions.Harmless)
    (hf : w.access.loadFault = false ∧ w.access.storeFault = false)
    (ht : (m.execute.step (m.executeInput w)).next.csr.phase = .idle) : (m.advance w).Calm := by
  have hr := h.reset
  have hcontrol := h.control hw
  have hnone : m.trap.propose (m.trapInput w) = none := by
    unfold TrapController.propose TrapController.prioritize trapInput
    rw [h.pending]
    simp only [hf, he.illegal, he.breakpoint, he.ecall, he.misalignedLoad, he.misalignedStore]
    rfl
  have htrap : (m.advance w).trap.pending = none ∧ (m.advance w).trap.latched = none := by
    rw [advance_trap hr, hnone]
    unfold TrapController.edge
    rw [h.pending, h.latched]
    exact ⟨rfl, rfl⟩
  have hdebug : (m.advance w).debug = m.debug := by
    rw [advance_debug hr]
    unfold DebugPort.propose debugInput
    rw [h.debug, h.request]
  exact
    { reset := by rw [← hr]; simp [Machine.advance, clock, commit, hr]
      fpuEnabled := by rw [advance_execute hr]; exact h.fpuEnabled
      pending := htrap.1
      latched := htrap.2
      request := by
        have : (m.advance w).request = if w.debug.ready then none else m.request := by
          simp [Machine.advance, clock, commit, hr]
        rw [this, h.request]
        split <;> rfl
      debug := by rw [hdebug]; exact h.debug
      bus := by rw [hcontrol]; exact h.bus
      running := by
        show (m.advance w).csr.control.halted = false
        rw [hcontrol]
        exact h.running
      transaction := by rw [advance_execute hr]; exact ht }

end Calm

end Machine

end RiscvPipeline
