import RiscvPipeline.Proofs.Csr.Bank
import RiscvPipeline.Proofs.Csr.Ownership
import RiscvPipeline.Proofs.Debug.Access
import RiscvPipeline.Proofs.Debug.NextPc

/-!
# Debug reads are invisible to the core

A debug access that reads changes nothing that the core looks at: the port writes neither a
register nor the next program counter, and the command it sends leaves the bank and run control
alone. What it takes from the core is the bus to the control and status registers. An execute stage
without a transaction does not notice that, and with a program none of whose instructions needs the
bus it has none. So two machines that differ only in the debug port, the bus and what it carries
remain so, whatever is read in either of them (`Machine.SameCore.apply`,
`Machine.SameCore.apply_access`).
-/

namespace RiscvPipeline

/-! ## What a read does -/

namespace DebugPort

variable {s : DebugPort} {i : Input}

/-- The port carries out no write. -/
structure Reads (s : DebugPort) : Prop where
  sound : s.Sound
  request : s.isIdle = false → s.request.write = false

namespace Reads

/-- A read writes neither a register nor the next program counter. -/
theorem writes (h : s.Reads) :
    (s.output i).registerWrite = none ∧ (s.output i).npcWrite = none := by
  unfold output
  cases hp : s.phase with
  | access =>
    have hw : s.request.write = false := h.request (by rw [isIdle, hp]; rfl)
    cases s.request.region <;> simp [hw]
  | _ => exact ⟨rfl, rfl⟩

/-- What the port drives does not depend on what it sees. -/
theorem output_eq (h : s.Reads) (i j : Input) : s.output i = s.output j := by
  rw [DebugPort.output_eq s i j, h.writes.1, ← (h.writes (i := j)).1]

/-- A read that goes over the bus is a read there as well. -/
theorem command (h : s.Reads) (hv : s.busDrive.valid = true) : s.busDrive.command = .read := by
  unfold busDrive at hv ⊢
  cases hp : s.phase with
  | csrRequest =>
    have hw : s.request.write = false := h.request (by rw [isIdle, hp]; rfl)
    show DebugPort.command s.request = .read
    unfold DebugPort.command
    rw [hw]
    cases hr : s.request.region with
    | csr | registers => rfl
    | control =>
      have hroute := (h.sound.route (.inl hp)).trans (congrArg some hp)
      cases hw.symm.trans (of_route?_control hr hroute).2
  | idle | csrResponse | access | responding => rw [hp] at hv; cases hv

end Reads

end DebugPort

/-- A command that reads leaves run control alone, and has nothing written. -/
theorem CsrFile.propose_of_read {f : CsrFile} {q : CsrRequest}
    (h : q.valid = true → q.command = .read) :
    (f.propose q).writes = [] ∧ (f.propose q).control.halted = f.halted := by
  unfold propose
  cases f.control.phase with
  | idle =>
    dsimp only
    split
    next hv =>
      rw [f.execute_read (h hv)]
      cases f.read? q.addr <;> exact ⟨rfl, rfl⟩
    · exact ⟨rfl, rfl⟩
  | busy n => exact ⟨rfl, rfl⟩
  | responding =>
    dsimp only
    split <;> exact ⟨rfl, rfl⟩

/-- Without a transaction the execute stage does not look at the bus. -/
theorem Execute.step_of_idle {s : Execute} (h : s.state.csr.phase = .idle) (i : Input)
    (c : CsrResponse) : s.step { i with csr := c } = s.step i := by
  unfold step Cycle.driveCsr Cycle.advance
  simp only [h]
  rfl

/-- A debug access is asked for, given up, or its answer taken. -/
def Stimulus.isAccess : Stimulus → Bool
  | .request _ | .withdraw | .collect => true
  | _ => false

namespace Signals

/-- The signals of the core. -/
def core (w : Signals) : Signals := { w with bus := {}, csr := {}, debug := {} }

theorem core_eq_iff {v w : Signals} : w.core = v.core ↔ w.execute = v.execute ∧
    w.access = v.access ∧ w.units = v.units ∧ w.memory = v.memory ∧ w.trap = v.trap := by
  simp [core]

end Signals

namespace Machine

variable {m n : Machine} {v w : Signals}

section

variable (h : m.debug.Reads) (hw : m.Settled w)
include h hw

theorem registerWrite_of_reads : w.debug.registerWrite = none := by
  rw [hw.debug]
  exact h.writes.1

theorem npcWrite_of_reads : w.debug.npcWrite = none := by
  rw [hw.debug]
  exact h.writes.2

/-- Only reads reach the file of control and status registers. -/
theorem propose_of_reads (hi : m.execute.state.csr.phase = .idle) :
    (m.csr.propose w.bus.slave).writes = [] ∧
      (m.csr.propose w.bus.slave).control.halted = m.csr.halted := by
  refine CsrFile.propose_of_read ?_
  have hslave : w.bus.slave = m.drives _ := (hw.connects rfl).1
  rw [hslave]
  cases m.arbiter.owner (arbiterInput w) with
  | execute =>
    show m.execute.busDrive.valid = true → _
    rw [Execute.busDrive, hi]
    exact fun hv => absurd hv Bool.false_ne_true
  | debug => exact h.command

end

/-! ## Machines with the same core -/

/-- The machines differ at most in the debug port and its accesses, in the bus and what the file of
control and status registers answers there, and in what is counted and recorded. -/
structure SameCore (m n : Machine) : Prop where
  program : n.program = m.program
  registers : n.registers = m.registers
  execute : n.execute = m.execute
  access : n.access = m.access
  units : n.units = m.units
  memory : n.memory = m.memory
  trap : n.trap = m.trap
  bank : n.csr.bank = m.csr.bank
  initial : n.csr.initial = m.csr.initial
  halted : n.csr.halted = m.csr.halted
  resetMode : n.resetMode = m.resetMode
  reset : n.reset = m.reset
  cycle : n.cycle = m.cycle

namespace SameCore

theorem refl (m : Machine) : SameCore m m :=
  ⟨rfl, rfl, rfl, rfl, rfl, rfl, rfl, rfl, rfl, rfl, rfl, rfl, rfl⟩

section

variable (h : SameCore m n)
include h

theorem unitsStable : n.unitsStable = m.unitsStable := by
  unfold Machine.unitsStable
  rw [h.units]

theorem trapInput (hc : w.core = v.core) : n.trapInput w = m.trapInput v := by
  obtain ⟨he, ha, -⟩ := Signals.core_eq_iff.1 hc
  simp only [Machine.trapInput, CsrFile.trapVector, h.bank, h.execute, he, ha]

/-- The execute stage does the same: it sees the same, but for the bus. -/
theorem step (hi : m.execute.state.csr.phase = .idle) (hc : w.core = v.core)
    (hd : w.debug.npcWrite = v.debug.npcWrite) :
    n.execute.step (n.executeInput w) = m.execute.step (m.executeInput v) := by
  obtain ⟨he, ha, hu, -, ht⟩ := Signals.core_eq_iff.1 hc
  have hin : n.executeInput w = { m.executeInput v with csr := w.bus.execute } := by
    simp only [Machine.executeInput, h.program, h.execute, h.halted, h.registers, he, ha, hu, ht,
      hd]
  rw [hin, h.execute, Execute.step_of_idle hi]

theorem sideEffects (hc : w.core = v.core) : (n.sideEffects w).bank = (m.sideEffects v).bank := by
  obtain ⟨he, -, -, -, ht⟩ := Signals.core_eq_iff.1 hc
  unfold Machine.sideEffects
  rw [he, ht]
  cases v.trap.taken <;> dsimp only <;> split <;> split <;>
    simp only [CsrFile.recordTrap, CsrFile.accrue, CsrFile.retire, CsrFile.poke, h.bank]

theorem resetComponents : SameCore m.resetComponents n.resetComponents :=
  { h with
    execute := congrArg Execute.clocked.reset h.execute
    access := rfl
    units := congrArg (·.map FunctionalUnit.reset) h.units
    memory := congrArg DataMemory.clocked.reset h.memory
    trap := congrArg TrapController.clocked.reset h.trap
    bank := h.initial
    halted := rfl }

theorem setReset (level : Bool) : SameCore (m.setReset level) (n.setReset level) := by
  have hlevel : SameCore { m with reset := level } { n with reset := level } :=
    { h with reset := rfl }
  unfold Machine.setReset
  dsimp only
  by_cases hc : level = true ∧ m.resetMode = .async
  · rw [if_pos hc, if_pos (by rwa [h.resetMode])]
    exact hlevel.resetComponents
  · rw [if_neg hc, if_neg (by rwa [h.resetMode])]
    exact hlevel

section

variable (hm : m.debug.Reads) (hn : n.debug.Reads) (hi : m.execute.state.csr.phase = .idle)
include hm hn hi

/-- The signals of the core are the same: the others may be exchanged without disturbing them. -/
theorem core (hv : m.Settled v) (hw : n.Settled w) : w.core = v.core := by
  let u : Signals := { v with bus := w.bus, csr := w.csr, debug := w.debug }
  have hcore : u.core = v.core := rfl
  have hcsr : w.execute.csr = v.execute.csr := by
    have hx : w.execute.csr = n.execute.busDrive := hw.request .execute
    have hy : v.execute.csr = m.execute.busDrive := hv.request .execute
    rw [hx, hy, h.execute]
  have hexecute : (n.execute.step (n.executeInput u)).out = v.execute := by
    have hd : u.debug.npcWrite = v.debug.npcWrite :=
      (npcWrite_of_reads hn hw).trans (npcWrite_of_reads hm hv).symm
    rw [h.step hi hcore hd]
    exact hv.execute.symm
  have haccess : (n.access.step (accessInput v)).2 = v.access := by
    rw [h.access]
    exact hv.access.symm
  have hunits : PerSlot.ofFn (fun s => (n.units.get s).response (v.execute.units.get s)) =
      v.units := by
    rw [h.units]
    exact congrArg (·.units) hv
  have hbus : n.arbiter.output (arbiterInput u) = w.bus := by
    have hin : arbiterInput u = arbiterInput w := by simp only [arbiterInput, u, hcsr]
    rw [hin]
    exact hw.bus.symm
  have hmemory : n.memory.output v.access.bus = v.memory := by
    rw [h.memory]
    exact hv.memory.symm
  have htrap : n.trap.output (n.trapInput u) = v.trap := by
    rw [h.trap, h.trapInput hcore]
    exact hv.trap.symm
  have hdebug : n.debug.output (n.debugInput u) = w.debug :=
    (hn.output_eq _ _).trans hw.debug.symm
  have hu : n.Settled u := by
    simp only [Settled, evaluate, u, Signals.mk.injEq]
    exact ⟨hexecute, haccess, hunits, hbus, hw.csr.symm, hmemory, htrap, hdebug⟩
  rw [hw.eq_settled, ← hu.eq_settled]
  rfl

/-- Under reset a cycle restores both cores, and otherwise it does the same to them. -/
theorem advance (hv : m.Settled v) (hw : n.Settled w) :
    SameCore (m.advance v) (n.advance w) := by
  have hc := h.core hm hn hi hv hw
  obtain ⟨he, ha, -, hmem, -⟩ := Signals.core_eq_iff.1 hc
  have hin : accessInput w = accessInput v := by simp only [accessInput, he, hmem]
  constructor
  case program => rw [advance_program, advance_program, h.program]
  case initial => rw [(kin_advance m v).initial, (kin_advance n w).initial, h.initial]
  case resetMode => rw [(kin_advance m v).resetMode, (kin_advance n w).resetMode, h.resetMode]
  case reset => rw [advance_reset, advance_reset, h.reset]
  case cycle => rw [advance_cycle, advance_cycle, h.cycle]
  case memory => simp only [Machine.advance, clock, h.reset, h.memory, ha]
  case trap => simp only [Machine.advance, clock, h.reset, h.trap, h.trapInput hc]
  case units => simp only [Machine.advance, clock, h.reset, h.units, he]
  case access => simp only [Machine.advance, clock, h.reset, h.access, hin]
  case execute =>
    cases hr : m.reset with
    | true =>
      simp only [Machine.advance, clock, Clocked.next, h.reset, hr, if_true, h.execute]
    | false =>
      have hstep := h.step hi hc ((npcWrite_of_reads hn hw).trans (npcWrite_of_reads hm hv).symm)
      rw [advance_execute hr, advance_execute (h.reset.trans hr), hstep, h.execute]
  case registers =>
    cases hr : m.reset with
    | true => simp only [Machine.advance, clock, commit, h.reset, hr, if_true, h.registers]
    | false =>
      rw [advance_registers hr, advance_registers (h.reset.trans hr), writtenRegisters,
        writtenRegisters, ha, he, registerWrite_of_reads hn hw,
        registerWrite_of_reads hm hv, h.registers]
  case bank =>
    cases hr : m.reset with
    | true =>
      rw [(restarted_advance hr).csr, (restarted_advance (h.reset.trans hr)).csr]
      exact h.initial
    | false =>
      rw [advance_csr hr, advance_csr (h.reset.trans hr), CsrFile.edge_bank, CsrFile.edge_bank,
        (propose_of_reads hm hv hi).1, (propose_of_reads hn hw (h.execute ▸ hi)).1,
        h.sideEffects hc]
  case halted =>
    cases hr : m.reset with
    | true =>
      rw [(restarted_advance hr).csr, (restarted_advance (h.reset.trans hr)).csr]
      rfl
    | false =>
      unfold CsrFile.halted
      rw [advance_control hr, advance_control (h.reset.trans hr),
        (propose_of_reads hm hv hi).2, (propose_of_reads hn hw (h.execute ▸ hi)).2]
      exact h.halted

/-- Both machines settle or neither does. -/
theorem settle : (∃ v w, m.settle = .ok v ∧ n.settle = .ok w ∧ w.core = v.core) ∨
    ∃ e, m.settle = .error e ∧ n.settle = .error e := by
  cases hu : m.unitsStable with
  | true =>
    exact .inl ⟨_, _, settle_eq hu, settle_eq (h.unitsStable.trans hu),
      h.core hm hn hi settled_settled settled_settled⟩
  | false =>
    refine .inr ⟨.combinationalLoop m.cycle maxEvaluations, ?_, ?_⟩
    · simp [Machine.settle, hu]
    · simp [Machine.settle, h.unitsStable.trans hu, h.cycle]

/-- Whatever is done to both machines except for debug accesses, they keep the same core. -/
theorem apply {e : Stimulus} (he : e.isAccess = false) : SameCore (m.apply e) (n.apply e) := by
  cases e with
  | tick =>
    unfold Machine.apply tick
    obtain ⟨v, w, hv, hw, -⟩ | ⟨e, hv, hw⟩ := h.settle hm hn hi
    · rw [hv, hw]
      exact h.advance hm hn hi (settled_of_settle hv) (settled_of_settle hw)
    · rw [hv, hw]
      exact h
  | reset level => exact h.setReset level
  | interrupt code => exact { h with trap := congrArg (·.raiseInterrupt code) h.trap }
  | register r x => exact { h with registers := congrArg (·.write r x) h.registers }
  | poke a x => exact { h with memory := congrArg (fun d => (d.poke? a x).getD d) h.memory }
  | bytes a b => exact { h with memory := congrArg (fun d => (d.load? a b).getD d) h.memory }
  | unit s u => exact { h with units := congrArg (·.set s u) h.units }
  | request | withdraw | collect => cases he

end

/-- A debug access that is asked for in one of the machines only leaves the cores the same. -/
theorem apply_access {e : Stimulus} (he : e.isAccess = true) : SameCore m (n.apply e) := by
  cases e with
  | request | withdraw | collect => exact { h with }
  | _ => cases he

end

/-- Reads that are asked for in one of the machines only leave the cores the same. -/
theorem after (h : SameCore m n) (hm : m.Reachable) (hn : n.Reachable)
    (hp : ∀ d ∈ m.program.instructions, ¬ d.NeedsBus) (ham : m.Asks fun q => q.write = false)
    (han : n.Asks fun q => q.write = false) {es : List Stimulus}
    (hes : ∀ q, .request q ∈ es → q.write = false) :
    let quiet := es.filter fun e => !e.isAccess
    SameCore (m.after quiet) (n.after es) ∧ (m.after quiet).debug.Reads ∧
      (n.after es).debug.Reads := by
  intro quiet
  induction es generalizing m n with
  | nil => exact ⟨h, ⟨sound_of_reachable hm, ham.port⟩, ⟨sound_of_reachable hn, han.port⟩⟩
  | cons e es ih =>
    have he : ∀ q, e = .request q → q.write = false := fun q hq => hes q (by simp [hq])
    have hrest : ∀ q, .request q ∈ es → q.write = false :=
      fun q hq => hes q (List.mem_cons_of_mem _ hq)
    have hprogram : (m.apply e).program = m.program := (kin_apply m e).program
    rw [after_cons]
    cases ha : e.isAccess with
    | true =>
      have hquiet : quiet = es.filter fun e => !e.isAccess := by simp [quiet, ha]
      rw [hquiet]
      exact ih (h.apply_access ha) hm (hn.after [e]) hp ham (han.apply he) hrest
    | false =>
      have hquiet : quiet = e :: es.filter fun e => !e.isAccess := by simp [quiet, ha]
      rw [hquiet, after_cons]
      have hnext := h.apply ⟨sound_of_reachable hm, ham.port⟩ ⟨sound_of_reachable hn, han.port⟩
        (transaction_idle hm hp) ha
      exact ih hnext (hm.after [e]) (hn.after [e]) (hprogram ▸ hp) (ham.apply he) (han.apply he)
        hrest

end SameCore

/-- Debug reads are invisible to the core. As long as no instruction of the program needs the bus to
the control and status registers, it makes no difference at any time which reads have been asked
for, of whatever region and address, be it a good one or not: the core is in the same state as
without them and drives the same signals. -/
theorem debugReads_invisible (hm : m.Reachable) (hu : m.Unasked)
    (hp : ∀ d ∈ m.program.instructions, ¬ d.NeedsBus) {h : List Stimulus}
    (hh : ∀ q, .request q ∈ h → q.write = false) :
    let quiet := h.filter fun e => !e.isAccess
    SameCore (m.after quiet) (m.after h) ∧
      (m.after h).settle.map Signals.core = (m.after quiet).settle.map Signals.core := by
  intro quiet
  obtain ⟨hsame, hquiet, hreads⟩ := (SameCore.refl m).after hm hm hp hu.asks hu.asks hh
  have hi : (m.after quiet).execute.state.csr.phase = .idle :=
    transaction_idle (hm.after quiet) ((kin_after m quiet).program ▸ hp)
  refine ⟨hsame, ?_⟩
  obtain ⟨v, w, hv, hw, hc⟩ | ⟨e, hv, hw⟩ := hsame.settle hquiet hreads hi
  · rw [hv, hw]
    exact congrArg Except.ok hc
  · rw [hv, hw]

/-- An instruction that needs the bus may have to wait for a read. -/
example :
    let m := ofConfig {} { instructions := #[
      { pc := resetVector, word := 0x00500093, opcode := .addi },
      { pc := resetVector + 4, word := 0x30102173, opcode := .csrrs }] }
    let n := m.apply (.request { region := .csr, addr := 0x301 })
    SameCore m n ∧ ¬ SameCore (m.after (.replicate 3 .tick)) (n.after (.replicate 3 .tick)) :=
  ⟨(SameCore.refl _).apply_access rfl, fun h => absurd h.execute (by decide +kernel)⟩

/-- A multiplication and an illegal instruction. -/
def browsed : Machine :=
  ofConfig {} { instructions := #[
    { pc := resetVector, word := 0x022081b3, opcode := .mul },
    { pc := resetVector + 4, word := 0x00500093, opcode := .addi, unsupported := true }] }

/-- A control and status register, a register and a bad address are read, with an interrupt in
between. -/
def browsing : List Stimulus :=
  [.tick, .request { region := .csr, addr := 0x301 }, .tick, .tick, .interrupt 7, .tick, .tick,
    .tick, .collect, .request { region := .registers, addr := 3 }, .tick, .tick, .tick, .collect,
    .request { region := .control, addr := 9 }, .tick, .tick]

/-- The last read has been rejected, the trap has been taken, and the core is as it would be without
reads. -/
theorem debugReads_invisible_browsed :
    let quiet := browsing.filter fun e => !e.isAccess
    browsed.Reachable ∧ browsed.Unasked ∧
      (∀ d ∈ browsed.program.instructions, ¬ d.NeedsBus) ∧
      (∀ q, .request q ∈ browsing → q.write = false) ∧
      SameCore (browsed.after quiet) (browsed.after browsing) ∧
      (browsed.after browsing).response = some { valid := true, error := true } ∧
      (browsed.after quiet).response = none ∧ (browsed.after quiet).trap.taken = 1 := by
  intro quiet
  have hm : browsed.Reachable := ⟨fun _ => true, {}, _, _, [], rfl, rfl⟩
  have hu : browsed.Unasked := ⟨rfl, rfl⟩
  have hp : ∀ d ∈ browsed.program.instructions, ¬ d.NeedsBus := by decide +kernel
  have hh : ∀ q, .request q ∈ browsing → q.write = false := by
    intro q hq
    simp only [browsing, List.mem_cons, reduceCtorEq, Stimulus.request.injEq, false_or] at hq
    rcases hq with rfl | rfl | rfl | hq
    · rfl
    · rfl
    · rfl
    · cases hq
  exact ⟨hm, hu, hp, hh, (debugReads_invisible hm hu hp hh).1, by decide +kernel,
    by decide +kernel, by decide +kernel⟩

end Machine

end RiscvPipeline
