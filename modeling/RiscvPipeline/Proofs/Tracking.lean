import RiscvPipeline.Proofs.History
import RiscvPipeline.Proofs.Wiring

/-!
# What is remembered along a history

Invariants often speak of things that no register holds, such as the load that faulted last or the
cycle in which an instruction was accepted. A tracker says what a cycle makes of them and what a
reset leaves of them. `Tracker.holds_along` is the induction along a history: of the stimuli only
cycles and resets touch what is under way. `Tracker.holds` is the case of invariants that do not
look at the bus to the control and status registers.
-/

namespace RiscvPipeline

/-- A value that is kept beside a machine. -/
structure Tracker (α : Type) where
  /-- The value after a cycle with reset low, by the machine before it and its signals. -/
  cycle : Machine → Signals → α → α
  /-- The value that a reset leaves. -/
  initial : α

namespace Machine

variable {m : Machine} {w : Signals}

/-- Nothing is under way. -/
structure Cleared (m : Machine) : Prop where
  execute : m.execute.state = {}
  access : m.access = {}
  memory : m.memory.registers = {}
  trap : m.trap.pending = none

/-- What is under way is the same in both machines. -/
structure Alike (m n : Machine) : Prop where
  execute : n.execute = m.execute
  access : n.access = m.access
  memory : n.memory.registers = m.memory.registers
  trap : n.trap.pending = m.trap.pending
  cycle : n.cycle = m.cycle

/-- The machine is new or comes from a reset of `m`. -/
structure Restarted (m n : Machine) : Prop extends n.Cleared where
  arbiter : n.arbiter.registers = {}
  csr : n.csr = CsrFile.clocked.reset m.csr
  debug : n.debug = {}
  cycle : m.cycle ≤ n.cycle

/-- What is under way and what the bus connects is the same in both machines. -/
structure Untouched (m n : Machine) : Prop extends Alike m n where
  arbiter : n.arbiter = m.arbiter
  csr : n.csr = m.csr
  debug : n.debug = m.debug

theorem Untouched.refl (m : Machine) : Untouched m m := ⟨⟨rfl, rfl, rfl, rfl, rfl⟩, rfl, rfl, rfl⟩

theorem Untouched.trans {k n : Machine} (h : Untouched m k) (h' : Untouched k n) :
    Untouched m n where
  execute := h'.execute.trans h.execute
  access := h'.access.trans h.access
  memory := h'.memory.trans h.memory
  trap := h'.trap.trans h.trap
  cycle := h'.cycle.trans h.cycle
  arbiter := h'.arbiter.trans h.arbiter
  csr := h'.csr.trans h.csr
  debug := h'.debug.trans h.debug

theorem cleared_ofConfig (c : Config) (p : Program) : (ofConfig c p).Cleared := ⟨rfl, rfl, rfl, rfl⟩

theorem cleared_resetComponents (m : Machine) : m.resetComponents.Cleared := ⟨rfl, rfl, rfl, rfl⟩

theorem cleared_advance (hr : m.reset = true) : (m.advance w).Cleared := by
  constructor <;>
    simp [advance, clock, Clocked.next, hr, Execute.clocked, MemoryAccess.clocked,
      DataMemory.clocked, DataMemory.reset, TrapController.clocked]

theorem restarted_ofConfig (c : Config) (p : Program) : Restarted (ofConfig c p) (ofConfig c p) :=
  { cleared_ofConfig c p with arbiter := rfl, csr := rfl, debug := rfl, cycle := Nat.le_refl _ }

theorem restarted_resetComponents (m : Machine) : Restarted m m.resetComponents :=
  { cleared_resetComponents m with
    arbiter := rfl
    csr := rfl
    debug := rfl
    cycle := Nat.le_refl _ }

theorem restarted_advance (hr : m.reset = true) : Restarted m (m.advance w) :=
  { cleared_advance hr with
    arbiter := by simp [advance, clock, Clocked.next, hr, CsrArbiter.clocked]
    csr := by simp [advance, clock, clockedCsr, commit, hr]
    debug := by simp [advance, clock, Clocked.next, hr, DebugPort.clocked]
    cycle := Nat.le_succ _ }

theorem alike_poke (m : Machine) (a v : Word) : Alike m (m.apply (.poke a v)) := by
  refine ⟨rfl, rfl, ?_, rfl, rfl⟩
  have hs := DataMemory.store?_getD (d := m.memory) a v (BitVec.allOnes 8)
  exact congrArg (·.registers) hs

theorem alike_bytes (m : Machine) (a : Word) (b : List (BitVec 8)) :
    Alike m (m.apply (.bytes a b)) := by
  refine ⟨rfl, rfl, ?_, rfl, rfl⟩
  have hs := DataMemory.load?_getD (d := m.memory) a b
  exact congrArg (·.registers) hs

end Machine

namespace Tracker

variable {α : Type} (t : Tracker α)

/-- The value after a stimulus at `m`. -/
def follow (m : Machine) (a : α) : Stimulus → α
  | .tick =>
    match m.settle with
    | .ok w => if m.reset then t.initial else t.cycle m w a
    | .error _ => a
  | .reset level => if level ∧ m.resetMode = .async then t.initial else a
  | _ => a

/-- The value after a history from `m` on. -/
def after (m : Machine) (a : α) : List Stimulus → α
  | [] => a
  | e :: h => after (m.apply e) (t.follow m a e) h

/-- What a stimulus can do to a machine and to the value beside it. -/
inductive Step (m : Machine) (a : α) : Machine → α → Prop
  | restarted {n : Machine} (hn : Machine.Restarted m n) : Step m a n t.initial
  | untouched {n : Machine} (hn : Machine.Untouched m n) : Step m a n a
  | cycled {w : Signals} (hr : m.reset = false) (hw : m.Settled w) :
    Step m a (m.advance w) (t.cycle m w a)

theorem step (m : Machine) (a : α) (e : Stimulus) : t.Step m a (m.apply e) (t.follow m a e) := by
  cases e with
  | tick =>
    unfold Machine.apply follow Machine.tick
    cases hs : m.settle with
    | error e => exact .untouched (.refl m)
    | ok w =>
      have hw := Machine.settled_of_settle hs
      dsimp only
      cases hr : m.reset with
      | true => exact .restarted (Machine.restarted_advance hr)
      | false => exact .cycled hr hw
  | reset level =>
    unfold Machine.apply follow Machine.setReset
    dsimp only
    split
    · exact .restarted
        { Machine.restarted_resetComponents m with cycle := Nat.le_refl m.cycle }
    · exact .untouched ⟨⟨rfl, rfl, rfl, rfl, rfl⟩, rfl, rfl, rfl⟩
  | poke x v => exact .untouched ⟨Machine.alike_poke m x v, rfl, rfl, rfl⟩
  | bytes x b => exact .untouched ⟨Machine.alike_bytes m x b, rfl, rfl, rfl⟩
  | interrupt code | request q | withdraw | collect | register r v | unit s u =>
    exact .untouched ⟨⟨rfl, rfl, rfl, rfl, rfl⟩, rfl, rfl, rfl⟩

variable {t} {P : Machine → α → Prop}

/-- What holds after a reset, of machines that are not touched, and after a cycle if it held before,
holds along every history. -/
theorem holds_along (hrestart : ∀ m n a, Machine.Restarted m n → P m a → P n t.initial)
    (hkept : ∀ m n a, Machine.Untouched m n → P m a → P n a)
    (hcycle : ∀ m w a, m.reset = false → m.Settled w → P m a → P (m.advance w) (t.cycle m w a))
    (h : List Stimulus) {m : Machine} {a : α} (hm : P m a) : P (m.after h) (t.after m a h) := by
  induction h generalizing m a with
  | nil => exact hm
  | cons e h ih =>
    refine ih ?_
    have hs := t.step m a e
    generalize m.apply e = n, t.follow m a e = b at hs
    cases hs with
    | restarted hn => exact hrestart m _ a hn hm
    | untouched hn => exact hkept m _ a hn hm
    | cycled hr hw => exact hcycle m _ a hr hw hm

/-- What holds of cleared machines, of machines alike, and after a cycle if it held before, holds
along every history. -/
theorem holds (hcleared : ∀ m n a, n.Cleared → m.cycle ≤ n.cycle → P m a → P n t.initial)
    (halike : ∀ m n a, Machine.Alike m n → P m a → P n a)
    (hcycle : ∀ m w a, m.reset = false → m.Settled w → P m a → P (m.advance w) (t.cycle m w a))
    (h : List Stimulus) {m : Machine} {a : α} (hm : P m a) : P (m.after h) (t.after m a h) :=
  holds_along (fun m n a hr hp => hcleared m n a hr.toCleared hr.cycle hp)
    (fun m n a hu hp => halike m n a hu.toAlike hp) hcycle h hm

theorem after_append (m : Machine) (a : α) (h h' : List Stimulus) :
    t.after m a (h ++ h') = t.after (m.after h) (t.after m a h) h' := by
  induction h generalizing m a with
  | nil => rfl
  | cons e h ih => exact ih ..

end Tracker

namespace Machine

/-- An invariant that needs nothing to be remembered. -/
theorem holds_after {P : Machine → Prop} (hrestart : ∀ m n, Restarted m n → P m → P n)
    (hkept : ∀ m n, Untouched m n → P m → P n)
    (hcycle : ∀ m w, m.reset = false → m.Settled w → P m → P (m.advance w))
    (h : List Stimulus) {m : Machine} (hm : P m) : P (m.after h) :=
  Tracker.holds_along (t := ⟨fun _ _ _ => (), ()⟩) (P := fun m _ => P m)
    (fun m n _ => hrestart m n) (fun m n _ => hkept m n) (fun m w _ => hcycle m w) h (a := ()) hm

/-- An invariant that every restart establishes. -/
theorem Reachable.holds {P : Machine → Prop} (hrestart : ∀ k n, Restarted k n → P n)
    (hkept : ∀ m n, Untouched m n → P m → P n)
    (hcycle : ∀ m w, m.reset = false → m.Settled w → P m → P (m.advance w))
    {m : Machine} (hm : m.Reachable) : P m := by
  obtain ⟨writable, c, p, m₀, h, hnew, rfl⟩ := hm
  obtain ⟨-, rfl⟩ := eq_ofConfig_of_new hnew
  exact holds_after (fun k n hr _ => hrestart k n hr) hkept hcycle h
    (hrestart _ _ (restarted_ofConfig c p))

end Machine

end RiscvPipeline
