import RiscvPipeline.Proofs.Tracking

/-!
# What stays as it was built

No history changes the program, the configuration of a component, or what a reset makes of it, but
that units may be replaced (`Machine.kin_after`).
-/

namespace RiscvPipeline

theorem MemoryTiming.reset_access (t : MemoryTiming) (a : Word) :
    (t.access a).2.reset = t.reset := by
  cases t <;> rfl

namespace FunctionalUnit

variable (u : FunctionalUnit) (b : Bool) (q : UnitRequest)

theorem next_of_reset : u.next true q = u.reset := by cases u <;> rfl

theorem reset_next : (u.next b q).reset = u.reset := by cases u <;> cases b <;> rfl

theorem reset_reset : u.reset.reset = u.reset := by cases u <;> rfl

theorem isStable_reset : u.reset.isStable = u.isStable := by cases u <;> rfl

end FunctionalUnit

namespace DataMemory

variable {d : DataMemory}

/-- Neither a request nor a reset changes where the memory lies and how it is timed. -/
theorem next_built (b : Bool) (q : MemoryRequest) :
    (clocked.next b d q).base = d.base ∧ (clocked.next b d q).readyPeriod = d.readyPeriod ∧
      (clocked.next b d q).timing.reset = d.timing.reset := by
  have accept_built (x : DataMemory) (q : MemoryRequest) : (x.accept q).base = x.base ∧
      (x.accept q).readyPeriod = x.readyPeriod ∧ (x.accept q).timing.reset = x.timing.reset := by
    unfold accept
    rw [store?_getD]
    cases q.write <;> exact ⟨rfl, rfl, MemoryTiming.reset_access ..⟩
  cases b with
  | true => exact ⟨rfl, rfl, by cases ht : d.timing <;> simp [Clocked.next, clocked, reset, ht,
      MemoryTiming.reset]⟩
  | false =>
    show (edge d (d.propose q)).base = _ ∧ (edge d (d.propose q)).readyPeriod = _ ∧
      (edge d (d.propose q)).timing.reset = _
    unfold edge
    cases (d.propose q).accepted with
    | none => exact ⟨rfl, rfl, rfl⟩
    | some q => exact accept_built _ q

end DataMemory

namespace CsrFile

/-- Latency and initial values are no registers. -/
theorem edge_built (f : CsrFile) (p : Proposal) :
    (f.edge p).latency = f.latency ∧ (f.edge p).initial = f.initial := by
  have hfold (l : List Write) (f : CsrFile) :
      (l.foldl (fun g x => g.poke x.addr x.value) f).latency = f.latency ∧
        (l.foldl (fun g x => g.poke x.addr x.value) f).initial = f.initial := by
    induction l generalizing f with
    | nil => exact ⟨rfl, rfl⟩
    | cons x l ih => exact ih _
  exact hfold p.writes f

end CsrFile

namespace Machine

variable {m n k : Machine} {w v : Signals}

/-- The machines are built in the same way, but for their units. -/
structure Kin (m n : Machine) : Prop where
  program : n.program = m.program
  fpuEnabled : n.execute.fpuEnabled = m.execute.fpuEnabled
  latency : n.csr.latency = m.csr.latency
  initial : n.csr.initial = m.csr.initial
  base : n.memory.base = m.memory.base
  readyPeriod : n.memory.readyPeriod = m.memory.readyPeriod
  timing : n.memory.timing.reset = m.memory.timing.reset
  resetMode : n.resetMode = m.resetMode

namespace Kin

theorem refl (m : Machine) : Kin m m := ⟨rfl, rfl, rfl, rfl, rfl, rfl, rfl, rfl⟩

theorem symm (h : Kin m n) : Kin n m :=
  ⟨h.program.symm, h.fpuEnabled.symm, h.latency.symm, h.initial.symm, h.base.symm,
    h.readyPeriod.symm, h.timing.symm, h.resetMode.symm⟩

theorem trans (h : Kin m n) (h' : Kin n k) : Kin m k :=
  ⟨h'.program.trans h.program, h'.fpuEnabled.trans h.fpuEnabled, h'.latency.trans h.latency,
    h'.initial.trans h.initial, h'.base.trans h.base, h'.readyPeriod.trans h.readyPeriod,
    h'.timing.trans h.timing, h'.resetMode.trans h.resetMode⟩

end Kin

theorem sideEffects_built : (m.sideEffects w).latency = m.csr.latency ∧
    (m.sideEffects w).initial = m.csr.initial := by
  unfold sideEffects CsrFile.recordTrap CsrFile.accrue CsrFile.retire CsrFile.poke
  cases w.trap.taken <;> dsimp only <;> repeat' split
  all_goals exact ⟨rfl, rfl⟩

theorem advance_csr_built : (m.advance w).csr.latency = m.csr.latency ∧
    (m.advance w).csr.initial = m.csr.initial := by
  cases hr : m.reset with
  | true =>
    rw [(restarted_advance hr).csr]
    exact ⟨rfl, rfl⟩
  | false =>
    rw [advance_csr hr]
    obtain ⟨hl, hi⟩ := (m.sideEffects w).edge_built (m.csr.propose w.bus.slave)
    obtain ⟨hl', hi'⟩ := sideEffects_built (m := m) (w := w)
    exact ⟨hl.trans hl', hi.trans hi'⟩

theorem kin_advance (m : Machine) (w : Signals) : Kin m (m.advance w) where
  program := advance_program
  fpuEnabled := by
    unfold advance clock Clocked.next Execute.clocked
    cases m.reset <;> rfl
  latency := advance_csr_built.1
  initial := advance_csr_built.2
  base := (DataMemory.next_built m.reset w.access.bus).1
  readyPeriod := (DataMemory.next_built m.reset w.access.bus).2.1
  timing := (DataMemory.next_built m.reset w.access.bus).2.2
  resetMode := by
    unfold advance clock commit
    cases m.reset <;> rfl

theorem kin_resetComponents (m : Machine) : Kin m m.resetComponents :=
  ⟨rfl, rfl, rfl, rfl, rfl, rfl, (DataMemory.next_built (d := m.memory) true {}).2.2, rfl⟩

theorem kin_apply (m : Machine) (e : Stimulus) : Kin m (m.apply e) := by
  cases e with
  | tick =>
    unfold apply
    cases ht : m.tick with
    | error e => exact .refl m
    | ok n =>
      obtain ⟨w, -, rfl⟩ := tick_eq_ok ht
      exact kin_advance m w
  | reset level =>
    have hlevel : Kin m { m with reset := level } := ⟨rfl, rfl, rfl, rfl, rfl, rfl, rfl, rfl⟩
    unfold apply setReset
    dsimp only
    split
    · exact hlevel.trans (kin_resetComponents _)
    · exact hlevel
  | poke a v =>
    have hs := DataMemory.store?_getD (d := m.memory) a v (BitVec.allOnes 8)
    exact ⟨rfl, rfl, rfl, rfl, congrArg (·.base) hs, congrArg (·.readyPeriod) hs,
      congrArg (·.timing.reset) hs, rfl⟩
  | bytes a b =>
    have hs := DataMemory.load?_getD (d := m.memory) a b
    exact ⟨rfl, rfl, rfl, rfl, congrArg (·.base) hs, congrArg (·.readyPeriod) hs,
      congrArg (·.timing.reset) hs, rfl⟩
  | interrupt | request | withdraw | collect | register | unit =>
    exact ⟨rfl, rfl, rfl, rfl, rfl, rfl, rfl, rfl⟩

theorem kin_after (m : Machine) (h : List Stimulus) : Kin m (m.after h) := by
  induction h generalizing m with
  | nil => exact .refl m
  | cons e h ih => exact (kin_apply m e).trans (ih _)
end Machine

end RiscvPipeline
