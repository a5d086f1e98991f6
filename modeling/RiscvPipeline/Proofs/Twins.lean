import RiscvPipeline.Proofs.Instants
import RiscvPipeline.Proofs.Memory.Contents

/-!
# Machines that cannot be told apart

Two machines are twins if they agree in all that their behaviour depends on. Counters, waveform,
grants and the signals of the last cycle are not part of it, nor is how the contents of the memory
are represented. Whatever is done to both of them, they remain twins, and so nothing that is seen of
a machine tells them apart (`Machine.Twin.indistinguishable`).
-/

namespace RiscvPipeline

theorem CsrArbiter.output_congr {s t : CsrArbiter} (h : t.registers = s.registers) (i : Input) :
    t.output i = s.output i := by
  unfold output owner
  rw [h]

theorem CsrArbiter.propose_congr {s t : CsrArbiter} (h : t.registers = s.registers) (i : Input) :
    t.propose i = s.propose i := by
  unfold propose owner
  rw [h]

/-- The failure without the cycle in which it occurred. -/
def SimError.timeless : SimError → SimError
  | combinationalLoop _ n => combinationalLoop 0 n
  | e => e

namespace Machine

variable {m n k : Machine} {w v : Signals}

/-- The machines agree in everything on which their behaviour depends. -/
structure Twin (m n : Machine) : Prop where
  program : n.program = m.program
  registers : n.registers = m.registers
  execute : n.execute = m.execute
  access : n.access = m.access
  units : n.units = m.units
  arbiter : n.arbiter.registers = m.arbiter.registers
  csr : n.csr = m.csr
  memory : m.memory.Same n.memory
  pending : n.trap.pending = m.trap.pending
  latched : n.trap.latched = m.trap.latched
  debug : n.debug = m.debug
  request : n.request = m.request
  resetMode : n.resetMode = m.resetMode
  reset : n.reset = m.reset

namespace Twin

theorem symm (h : Twin m n) : Twin n m where
  program := h.program.symm
  registers := h.registers.symm
  execute := h.execute.symm
  access := h.access.symm
  units := h.units.symm
  arbiter := h.arbiter.symm
  csr := h.csr.symm
  memory := h.memory.symm
  pending := h.pending.symm
  latched := h.latched.symm
  debug := h.debug.symm
  request := h.request.symm
  resetMode := h.resetMode.symm
  reset := h.reset.symm

theorem trans (h : Twin m n) (h' : Twin n k) : Twin m k where
  program := h'.program.trans h.program
  registers := h'.registers.trans h.registers
  execute := h'.execute.trans h.execute
  access := h'.access.trans h.access
  units := h'.units.trans h.units
  arbiter := h'.arbiter.trans h.arbiter
  csr := h'.csr.trans h.csr
  memory := h.memory.trans h'.memory
  pending := h'.pending.trans h.pending
  latched := h'.latched.trans h.latched
  debug := h'.debug.trans h.debug
  request := h'.request.trans h.request
  resetMode := h'.resetMode.trans h.resetMode
  reset := h'.reset.trans h.reset

section

variable (h : Twin m n)
include h

theorem executeInput (v : Signals) : n.executeInput v = m.executeInput v := by
  simp only [Machine.executeInput, h.program, h.execute, h.csr, h.registers]

theorem trapInput (v : Signals) : n.trapInput v = m.trapInput v := by
  simp only [Machine.trapInput, h.csr, h.execute]

theorem debugInput (v : Signals) : n.debugInput v = m.debugInput v := by
  simp only [Machine.debugInput, h.request, h.registers, h.execute, h.csr]

theorem trapOutput (i : TrapController.Input) : n.trap.output i = m.trap.output i := by
  unfold TrapController.output
  rw [h.pending]

theorem evaluate (v : Signals) : n.evaluate v = m.evaluate v := by
  have hb := CsrArbiter.output_congr h.arbiter (arbiterInput v)
  simp only [Machine.evaluate, Execute.clocked, MemoryAccess.clocked, CsrArbiter.clocked,
    CsrFile.clocked, DataMemory.clocked, TrapController.clocked, DebugPort.clocked,
    h.executeInput, h.trapInput, h.debugInput, h.trapOutput, h.execute, h.access, h.units, h.csr,
    h.debug, h.memory.output, hb]

theorem settleFrom (fuel : Nat) (v : Signals) : n.settleFrom fuel v = m.settleFrom fuel v := by
  induction fuel generalizing v with
  | zero => rfl
  | succ fuel ih => simp only [Machine.settleFrom, h.evaluate, ih]

theorem unitsStable : n.unitsStable = m.unitsStable := by
  unfold Machine.unitsStable
  rw [h.units]

/-- The same signals settle, or none in either machine. -/
theorem settle : (∃ w, m.settle = .ok w ∧ n.settle = .ok w) ∨
    ∃ e e', m.settle = .error e ∧ n.settle = .error e' ∧ e'.timeless = e.timeless := by
  unfold Machine.settle
  rw [h.unitsStable, h.settleFrom]
  split
  · exact .inl ⟨_, rfl, rfl⟩
  · exact .inr ⟨_, _, rfl, rfl, rfl⟩

theorem isFinished : n.isFinished = m.isFinished := by
  unfold Machine.isFinished
  rw [h.program, h.execute, h.access, h.pending, h.debug]

theorem writtenRegisters (w : Signals) : n.writtenRegisters w = m.writtenRegisters w := by
  unfold Machine.writtenRegisters
  rw [h.registers]

theorem sideEffects (w : Signals) : n.sideEffects w = m.sideEffects w := by
  unfold Machine.sideEffects
  rw [h.csr]

theorem nextArbiter (b : Bool) (i : CsrArbiter.Input) :
    (CsrArbiter.clocked.next b n.arbiter i).registers =
      (CsrArbiter.clocked.next b m.arbiter i).registers := by
  cases b with
  | true => rfl
  | false => exact CsrArbiter.propose_congr h.arbiter i

theorem nextTrap (b : Bool) (i : TrapController.Input) :
    let x := TrapController.clocked.next b m.trap i
    let y := TrapController.clocked.next b n.trap i
    y.pending = x.pending ∧ y.latched = x.latched := by
  cases b with
  | true => exact ⟨rfl, rfl⟩
  | false =>
    show (n.trap.edge (n.trap.propose i)).pending = (m.trap.edge (m.trap.propose i)).pending ∧
      (n.trap.edge (n.trap.propose i)).latched = (m.trap.edge (m.trap.propose i)).latched
    have hp : n.trap.propose i = m.trap.propose i := by
      unfold TrapController.propose
      rw [h.pending]
    rw [hp]
    unfold TrapController.edge
    rw [h.pending, h.latched]
    cases m.trap.pending <;> cases m.trap.propose i <;> simp

/-- A cycle does the same to both machines. -/
theorem advance (w : Signals) : Twin (m.advance w) (n.advance w) where
  program := by rw [advance_program, advance_program, h.program]
  registers := by
    simp only [Machine.advance, clock, commit, h.reset, h.writtenRegisters]
    split
    · exact h.registers
    · rfl
  execute := by simp only [Machine.advance, clock, commit, h.reset, h.execute, h.executeInput]
  access := by simp only [Machine.advance, clock, commit, h.reset, h.access]
  units := by simp only [Machine.advance, clock, commit, h.reset, h.units]
  arbiter := by
    have := h.nextArbiter m.reset (arbiterInput w)
    simpa only [Machine.advance, clock, commit, h.reset] using this
  csr := by
    simp only [Machine.advance, clock, clockedCsr, commit, h.reset, h.csr, h.sideEffects]
    split
    · rw [h.csr]
    · rfl
  memory := by
    have := h.memory.next m.reset w.access.bus
    simpa only [Machine.advance, clock, commit, h.reset] using this
  pending := by
    have := (h.nextTrap m.reset (m.trapInput w)).1
    simpa only [Machine.advance, clock, commit, h.reset, h.trapInput] using this
  latched := by
    have := (h.nextTrap m.reset (m.trapInput w)).2
    simpa only [Machine.advance, clock, commit, h.reset, h.trapInput] using this
  debug := by
    simp only [Machine.advance, clock, commit, h.reset, h.debug, h.debugInput]
  request := by
    simp only [Machine.advance, clock, commit, h.reset]
    split
    · exact h.request
    · simp only [h.request]
  resetMode := by
    simp only [Machine.advance, clock, commit, h.reset]
    split <;> exact h.resetMode
  reset := by rw [advance_reset, advance_reset, h.reset]

theorem resetComponents : Twin m.resetComponents n.resetComponents where
  program := h.program
  registers := h.registers
  execute := congrArg Execute.clocked.reset h.execute
  access := rfl
  units := by
    show n.units.map FunctionalUnit.reset = m.units.map FunctionalUnit.reset
    rw [h.units]
  arbiter := rfl
  csr := congrArg CsrFile.clocked.reset h.csr
  memory := h.memory.next true {}
  pending := rfl
  latched := rfl
  debug := rfl
  request := h.request
  resetMode := h.resetMode
  reset := h.reset

theorem setReset (level : Bool) : Twin (m.setReset level) (n.setReset level) := by
  unfold Machine.setReset
  have hlevel : Twin { m with reset := level } { n with reset := level } :=
    { h with reset := rfl }
  dsimp only
  by_cases hc : level = true ∧ m.resetMode = .async
  · rw [if_pos hc, if_pos (by rwa [h.resetMode])]
    exact hlevel.resetComponents
  · rw [if_neg hc, if_neg (by rwa [h.resetMode])]
    exact hlevel

/-- Whatever happens, it does the same to both machines. -/
theorem apply (e : Stimulus) : Twin (m.apply e) (n.apply e) := by
  cases e with
  | tick =>
    unfold Machine.apply tick
    obtain ⟨w, hm, hn⟩ | ⟨e, e', hm, hn, -⟩ := h.settle
    · rw [hm, hn]
      exact h.advance w
    · rw [hm, hn]
      exact h
  | reset level => exact h.setReset level
  | interrupt code => exact { h with latched := rfl }
  | request q => exact { h with request := rfl }
  | withdraw => exact { h with request := rfl }
  | collect => exact { h with }
  | register r v => exact { h with registers := congrArg (·.write r v) h.registers }
  | poke a v => exact { h with memory := h.memory.poke? a v }
  | bytes a b => exact { h with memory := h.memory.load? a b }
  | unit s u => exact { h with units := congrArg (·.set s u) h.units }

theorem run (limit : Nat) :
    (n.run limit).2.mapError SimError.timeless = (m.run limit).2.mapError SimError.timeless ∧
      Twin (m.run limit).1 (n.run limit).1 := by
  induction limit generalizing m n with
  | zero =>
    unfold Machine.run
    rw [h.isFinished]
    exact ⟨rfl, h⟩
  | succ limit ih =>
    unfold Machine.run tick
    rw [h.isFinished]
    split
    · exact ⟨rfl, h⟩
    · obtain ⟨w, hm, hn⟩ | ⟨e, e', hm, hn, he⟩ := h.settle
      · rw [hm, hn]
        exact ih (h.advance w)
      · rw [hm, hn]
        exact ⟨congrArg Except.error he, h⟩

theorem response (hr : n.response = m.response) (w : Signals) :
    (n.advance w).response = (m.advance w).response := by
  simp only [Machine.advance, clock, commit, h.reset, hr]
  split
  · exact hr
  · rfl

theorem awaitDebug (hr : n.response = m.response) (q : DebugRequest) (fuel : Nat) :
    (n.awaitDebug q fuel).2.mapError SimError.timeless =
        (m.awaitDebug q fuel).2.mapError SimError.timeless ∧
      Twin (m.awaitDebug q fuel).1 (n.awaitDebug q fuel).1 := by
  induction fuel generalizing m n with
  | zero => exact ⟨rfl, { h with request := rfl }⟩
  | succ fuel ih =>
    unfold Machine.awaitDebug tick
    obtain ⟨w, hm, hn⟩ | ⟨e, e', hm, hn, he⟩ := h.settle
    · rw [hm, hn]
      have hnext := h.advance w
      have hresponse := h.response hr w
      dsimp only
      rw [hresponse]
      cases hx : (m.advance w).response with
      | none => exact ih hnext hresponse
      | some r => exact ⟨rfl, { hnext with }⟩
    · rw [hm, hn]
      exact ⟨congrArg Except.error he, h⟩

theorem debugAccess (q : DebugRequest) :
    (n.debugAccess q).2.mapError SimError.timeless =
        (m.debugAccess q).2.mapError SimError.timeless ∧
      Twin (m.debugAccess q).1 (n.debugAccess q).1 :=
  awaitDebug (m := { m with request := some q, response := none })
    (n := { n with request := some q, response := none }) { h with request := rfl } rfl q
    debugTimeout

end

end Twin

/-! ## What is seen of a machine -/

/-- What can be done with a machine. -/
inductive Operation
  | stimulus (e : Stimulus)
  | run (limit : Nat)
  | access (q : DebugRequest)

def perform (m : Machine) : Operation → Machine
  | .stimulus e => m.apply e
  | .run limit => (m.run limit).1
  | .access q => (m.debugAccess q).1

/-- The machines look the same: the signals of the next cycle, the registers, the contents of the
memory, the control and status registers, the next program counter, and what a run or a debug access
returns. A failure may occur in another cycle. -/
structure Looks (m n : Machine) : Prop where
  signals : n.settle.mapError SimError.timeless = m.settle.mapError SimError.timeless
  registers : n.registers = m.registers
  ram : m.memory.ram.Same n.memory.ram
  peek : ∀ a, n.memory.peek? a = m.memory.peek? a
  csr : ∀ a, n.csr.read? a = m.csr.read? a
  halted : n.csr.halted = m.csr.halted
  npc : n.execute.state.npc = m.execute.state.npc
  finished : n.isFinished = m.isFinished
  run : ∀ limit, (n.run limit).2.mapError SimError.timeless =
    (m.run limit).2.mapError SimError.timeless
  debugAccess : ∀ q, (n.debugAccess q).2.mapError SimError.timeless =
    (m.debugAccess q).2.mapError SimError.timeless

/-- The machines look the same, and after whatever is done with both of them they still do. -/
def Indistinguishable (m n : Machine) : Prop :=
  ∀ ops : List Operation, Looks (ops.foldl perform m) (ops.foldl perform n)

namespace Twin

theorem looks (h : Twin m n) : Looks m n where
  signals := by
    obtain ⟨w, hm, hn⟩ | ⟨e, e', hm, hn, he⟩ := h.settle
    · rw [hm, hn]
    · rw [hm, hn]
      exact congrArg Except.error he
  registers := h.registers
  ram := h.memory.ram
  peek := h.memory.peek?
  csr a := by rw [h.csr]
  halted := by rw [h.csr]
  npc := by rw [h.execute]
  finished := h.isFinished
  run limit := (h.run limit).1
  debugAccess q := (h.debugAccess q).1

theorem perform (h : Twin m n) (o : Operation) : Twin (m.perform o) (n.perform o) := by
  cases o with
  | stimulus e => exact h.apply e
  | run limit => exact (h.run limit).2
  | access q => exact (h.debugAccess q).2

theorem indistinguishable (h : Twin m n) : Indistinguishable m n := by
  intro ops
  induction ops generalizing m n with
  | nil => exact h.looks
  | cons o ops ih => exact ih (h.perform o)

end Twin

end Machine
end RiscvPipeline
