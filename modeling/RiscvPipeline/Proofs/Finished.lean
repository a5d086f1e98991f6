import RiscvPipeline.Proofs.Csr.Bank

/-!
# A finished machine stays as it is

A machine counts as finished when the execute stage has left the program and execute stage,
memory-access stage, trap controller and debug port have nothing in flight. Then nothing reaches the
units, the data memory and the bus to the control and status registers either, whatever state they
are in, so that a cycle changes nothing but counters (`Machine.Finished.step`). Two things are not
looked at, however, and both start something in the next cycle: an interrupt that has been requested
and is not pending yet, and a debug access that the port has not taken yet.
-/

namespace RiscvPipeline

/-! ## Components with nothing in flight -/

namespace Execute

attribute [local simp] opening_eq

theorem State.isQuiescent_iff {s : State} : s.isQuiescent = true ↔
    s.phase.IsOpen ∧ s.csr.phase = .idle ∧ ∀ k, (s.slots.get k).busy = false := by
  simp [isQuiescent, Phase.IsOpen, PerSlot.any_eq_false, or_assoc, and_assoc]

variable {s : Execute} {i : Input}

variable (s) in
/-- Nothing happens in a cycle, and nothing is in flight after it. -/
structure Quiet (c : Cycle) : Prop where
  quiescent : c.next.isQuiescent = true
  npc : c.next.npc = s.state.npc
  valid : c.out.valid = false
  write : c.out.write.enable = false
  memoryOp : c.out.memoryOp = none
  exceptions : c.out.exceptions = {}

/-- Without an instruction at the next program counter a stage with nothing in flight has nothing
to do. -/
theorem step_quiet (hs : s.state.isQuiescent = true) (hi : i.instruction = none)
    (ht : i.trap = none) (hn : i.npcWrite = none) : s.Quiet (s.step i) := by
  obtain ⟨hp, hc, hb⟩ := State.isQuiescent_iff.1 hs
  have h := step_outcome (s := s) (i := i)
  generalize s.step i = c at h
  cases h with
  | trapped _ ht' => rw [ht] at ht'; cases ht'
  | running _ hm | finished _ _ _ hm => simp [hm, Phase.IsOpen] at hp
  | parked _ hm | pending _ hm | answered _ _ _ hm => exact absurd hm hp.ne_single
  | accepted d _ _ _ ho =>
    have hd := ho.instruction
    rw [hi] at hd
    cases hd
  | passed p b _ _ hopen =>
    have hslots (k : Slot) : ((s.slotsLeft i).get k).busy = false :=
      Bool.eq_false_iff.2 fun hk => by
        have := slotsLeft_busy hk
        rw [hb k] at this
        cases this
    constructor
    · exact State.isQuiescent_iff.2 ⟨hopen, by simpa [transactionLeft_idle hc] using hc,
        fun k => by simpa using hslots k⟩
    all_goals simp [hn]

end Execute

namespace MemoryAccess

variable {s : MemoryAccess} {i : Input}

theorem pop?_of_isEmpty {q : MemoryQueue} (h : q.isEmpty = true) : q.pop? = none := by
  rw [MemoryQueue.pop?, h]
  rfl

/-- A stage with nothing to do stays as it is and drives nothing. -/
theorem step_drained (hs : s.isDrained = true) (hop : i.op = none) (hf : i.flush = false) :
    s.step i = (s, { ready := !s.queue.isFull }) := by
  simp only [isDrained, Bool.and_eq_true, beq_iff_eq] at hs
  obtain ⟨hp, hq⟩ := hs
  have hs : { s with phase := .idle } = s := by rw [← hp]
  unfold step advance issue
  simp only [hp, pop?_of_isEmpty hq, hop, hf, hs, Bool.false_eq_true, if_false]

end MemoryAccess

namespace DataMemory

variable {d : DataMemory} {q : MemoryRequest}

theorem next_of_not_valid (h : q.valid = false) : (d.next q).ram = d.ram :=
  next_ram (by rw [accepts, h, Bool.and_false, Bool.false_and])

end DataMemory

namespace TrapController

variable {s : TrapController}

theorem edge_of_nothing (hp : s.pending = none) (hl : s.latched = none) : s.edge none = s := by
  cases s
  cases hp
  cases hl
  rfl

end TrapController

namespace Machine

variable {m k : Machine} {w : Signals}

/-! ## Finished machines -/

/-- The machine is finished, and nothing is about to start. -/
structure Finished (m : Machine) : Prop where
  left : m.program.at? m.execute.state.npc = none
  quiescent : m.execute.state.isQuiescent = true
  drained : m.access.isDrained = true
  pending : m.trap.pending = none
  latched : m.trap.latched = none
  idle : m.debug.phase = .idle
  request : m.request = none

theorem finished_iff : m.Finished ↔
    m.isFinished = true ∧ m.trap.latched = none ∧ m.request = none := by
  simp only [isFinished, Program.contains, DebugPort.isIdle, Bool.and_eq_true, Bool.not_eq_true',
    Option.isSome_eq_false_iff, Option.isNone_iff_eq_none, beq_iff_eq]
  constructor
  · exact fun ⟨h1, h2, h3, h4, h5, h6, h7⟩ => ⟨⟨⟨⟨⟨h1, h2⟩, h3⟩, h4⟩, h6⟩, h5, h7⟩
  · exact fun ⟨⟨⟨⟨⟨h1, h2⟩, h3⟩, h4⟩, h6⟩, h5, h7⟩ => ⟨h1, h2, h3, h4, h5, h6, h7⟩

/-- What a program has computed is in `k` as it is in `m`. The cycle counter may differ. -/
structure Same (m k : Machine) : Prop where
  registers : k.registers = m.registers
  ram : k.memory.ram = m.memory.ram
  npc : k.execute.state.npc = m.execute.state.npc
  csr : ∀ a, CsrFile.SameAt a m.csr k.csr
  traps : k.trap.taken = m.trap.taken

theorem Same.refl (m : Machine) : Same m m := ⟨rfl, rfl, rfl, fun _ _ _ => rfl, rfl⟩

theorem Same.trans {n : Machine} (h : Same m k) (h' : Same k n) : Same m n where
  registers := h'.registers.trans h.registers
  ram := h'.ram.trans h.ram
  npc := h'.npc.trans h.npc
  csr a := (h.csr a).trans (h'.csr a)
  traps := h'.traps.trans h.traps

namespace Finished

section

variable (h : m.Finished) (hw : m.Settled w)
include h hw

theorem debug_eq : w.debug = { ready := true } := by
  rw [hw.debug, DebugPort.output, h.idle]

theorem trap_eq : w.trap = {} := by rw [hw.trap, TrapController.output, h.pending]

theorem execute_quiet : m.execute.Quiet (m.execute.step (m.executeInput w)) := by
  refine Execute.step_quiet h.quiescent h.left ?_ ?_
  · show w.trap.redirect = none
    rw [h.trap_eq hw]
  · show w.debug.npcWrite = none
    rw [h.debug_eq hw]

theorem access_step :
    m.access.step (accessInput w) = (m.access, { ready := !m.access.queue.isFull }) := by
  refine MemoryAccess.step_drained h.drained ?_ ?_
  · show w.execute.memoryOp = none
    rw [hw.execute]
    exact (h.execute_quiet hw).memoryOp
  · show w.execute.flush = false
    rw [hw.flush, h.pending]
    rfl

theorem access_eq : w.access = { ready := !m.access.queue.isFull } := by
  rw [hw.access, h.access_step hw]

/-- Neither master has anything to say. -/
theorem slave_eq : w.bus.slave = {} := by
  have hc : w.bus.slave = m.drives _ := (hw.connects rfl).1
  rw [hc]
  cases m.arbiter.owner (arbiterInput w) with
  | execute =>
    have hp : m.execute.state.csr.phase = .idle :=
      (Execute.State.isQuiescent_iff.1 h.quiescent).2.1
    rw [drives, Execute.busDrive, hp]
  | debug => rw [drives, DebugPort.busDrive, h.idle]

theorem propose_trap : m.trap.propose (m.trapInput w) = none := by
  have he : w.execute.exceptions = {} := by
    rw [hw.execute]
    exact (h.execute_quiet hw).exceptions
  rw [TrapController.propose, h.pending]
  simp [TrapController.prioritize, trapInput, he, h.access_eq hw]

theorem sideEffects_eq : m.sideEffects w = m.csr := by
  have hq := h.execute_quiet hw
  rw [sideEffects, h.trap_eq hw, hw.execute, hq.exceptions, hq.valid]
  rfl

theorem propose_csr : (m.csr.propose w.bus.slave).writes = [] := by
  rw [h.slave_eq hw, CsrFile.propose]
  cases m.csr.control.phase <;> rfl

theorem bank_eq (hr : m.reset = false) : (m.advance w).csr.bank = m.csr.bank.count := by
  rw [advance_csr hr, h.sideEffects_eq hw, CsrFile.edge_bank, h.propose_csr hw]
  rfl

end

/-- In a cycle of a finished machine nothing happens. -/
theorem step (h : m.Finished) (hr : m.reset = false) (hw : m.Settled w) :
    (m.advance w).Finished ∧ Same m (m.advance w) := by
  have hq := h.execute_quiet hw
  have hexecute := advance_execute (w := w) hr
  have haccess : (m.advance w).access = m.access := by rw [advance_access hr, h.access_step hw]
  have htrap : (m.advance w).trap = m.trap := by
    rw [advance_trap hr, h.propose_trap hw, TrapController.edge_of_nothing h.pending h.latched]
  have hdebug : (m.advance w).debug = m.debug := by
    have hin : (m.debugInput w).request = none := h.request
    rw [advance_debug hr, DebugPort.propose, h.idle, hin]
  have hrequest : (m.advance w).request = none := by
    rw [advance_request hr, h.request, ite_self]
  refine ⟨?_, ?_⟩
  · exact
      { left := by rw [advance_program, hexecute, hq.npc]; exact h.left
        quiescent := by rw [hexecute]; exact hq.quiescent
        drained := by rw [haccess]; exact h.drained
        pending := by rw [htrap]; exact h.pending
        latched := by rw [htrap]; exact h.latched
        idle := by rw [hdebug]; exact h.idle
        request := hrequest }
  · exact
      { registers := by
          have hwrite : w.execute.write.enable = false := by rw [hw.execute]; exact hq.write
          rw [advance_registers hr, writtenRegisters, h.access_eq hw, hwrite, h.debug_eq hw]
          rfl
        ram := by
          rw [advance_memory hr]
          exact DataMemory.next_of_not_valid (by rw [h.access_eq hw])
        npc := by rw [hexecute]; exact hq.npc
        csr := fun a hm hc => by
          show (m.advance w).csr.bank.read? a = m.csr.bank.read? a
          rw [h.bank_eq hw hr]
          exact CsrBank.read?_count _ hm hc
        traps := by rw [htrap] }

end Finished

/-- A machine that is finished stays finished for any number of cycles, in which no trap is taken
and registers, memory, next program counter and control and status registers stay as they are,
unless an interrupt has been requested or a debug access waits for the port. The cycle counter goes
on. -/
theorem finished_stays (hf : m.isFinished = true) (hr : m.reset = false)
    (hi : m.trap.latched = none) (hq : m.request = none) (n : Nat) :
    (m.after (.replicate n .tick)).isFinished = true ∧ Same m (m.after (.replicate n .tick)) ∧
      ∀ t ∈ m.cycles (.replicate n .tick), t.signals.trap.taken = none := by
  have h : (m.after (.replicate n .tick)).Finished ∧ Same m (m.after (.replicate n .tick)) ∧
      ∀ t ∈ m.cycles (.replicate n .tick), t.signals.trap.taken = none := by
    refine ticks_induction (P := fun k ts => k.Finished ∧ Same m k ∧
      ∀ t ∈ ts, t.signals.trap.taken = none) hr
      ⟨finished_iff.2 ⟨hf, hi, hq⟩, .refl m, by simp⟩ ?_ n
    intro k ts w hk hsettle ⟨hfin, hsame, hts⟩
    have hw := settled_of_settle hsettle
    obtain ⟨hnext, hstep⟩ := hfin.step hk hw
    refine ⟨hnext, hsame.trans hstep, List.forall_mem_append.2 ⟨hts, ?_⟩⟩
    rw [List.forall_mem_singleton]
    show w.trap.taken = none
    rw [hfin.trap_eq hw]
  exact ⟨(finished_iff.1 h.1).1, h.2⟩

/-- A program of one addition, which has been carried out. -/
def summed : Machine :=
  (ofConfig {}
    { instructions := #[{ pc := resetVector, word := 0x00500093, opcode := .addi }] }).after [.tick]

/-- The sum stays, and the cycle counter goes on. -/
theorem finished_stays_summed :
    let n := summed.after (.replicate 4 .tick)
    summed.isFinished = true ∧ summed.reset = false ∧ summed.trap.latched = none ∧
      summed.request = none ∧ n.isFinished = true ∧ n.registers = summed.registers ∧
      n.registers.read 1 = 5 ∧
      n.csr.read? CsrRegister.minstret.addr = summed.csr.read? CsrRegister.minstret.addr ∧
      n.csr.read? CsrRegister.mcycle.addr ≠ summed.csr.read? CsrRegister.mcycle.addr := by
  intro n
  have hf : summed.isFinished = true := by decide +kernel
  have hr : summed.reset = false := by decide +kernel
  have hi : summed.trap.latched = none := by decide +kernel
  have hq : summed.request = none := by decide +kernel
  obtain ⟨hn, hsame, -⟩ := finished_stays hf hr hi hq 4
  exact ⟨hf, hr, hi, hq, hn, hsame.registers, by decide +kernel,
    hsame.csr _ (by decide) (by decide), by decide +kernel⟩

/-- An interrupt is requested of a machine without a program. -/
def summoned : Machine := (ofConfig {} {}).after [.interrupt 7]

/-- The machine counts as finished, and takes a trap in the second cycle. -/
theorem trapped_summoned :
    let n := summoned.after (.replicate 2 .tick)
    summoned.Reachable ∧ summoned.reset = false ∧ summoned.isFinished = true ∧
      (summoned.after [.tick]).isFinished = false ∧ n.trap.taken = 1 ∧
      n.execute.state.npc ≠ summoned.execute.state.npc ∧
      n.csr.read? CsrRegister.mcause.addr ≠ summoned.csr.read? CsrRegister.mcause.addr := by
  intro n
  exact ⟨⟨fun _ => true, {}, _, _, _, rfl, rfl⟩, by decide +kernel, by decide +kernel,
    by decide +kernel, by decide +kernel, by decide +kernel, by decide +kernel⟩

/-- A debug access that the port has not taken does not count either. -/
example :
    let m := (ofConfig {} {}).after [.request { region := .registers, addr := 1, write := true }]
    m.isFinished = true ∧ (m.after [.tick]).isFinished = false := by
  decide +kernel

end Machine

end RiscvPipeline
