import RiscvPipeline.Machine.Run

/-!
# Histories of a machine

What may happen to a machine from outside, and its clock, are stimuli; a state is reachable if it
comes about from a new machine by a list of them. Debug accesses are taken apart into the request,
the cycles that follow and the taking of the answer, so that anything may happen in between.
-/

namespace RiscvPipeline

inductive Stimulus
  /-- A clock cycle. -/
  | tick
  /-- The reset line is driven. -/
  | reset (level : Bool)
  | interrupt (code : Word)
  /-- A debug access is requested. -/
  | request (q : DebugRequest)
  /-- The request is given up. -/
  | withdraw
  /-- The answer of the debug port is taken. -/
  | collect
  /-- A register is written from outside. -/
  | register (r : RegIndex) (v : Word)
  /-- A doubleword of memory is written from outside. -/
  | poke (addr value : Word)
  /-- Bytes of memory are written from outside. -/
  | bytes (addr : Word) (b : List (BitVec 8))
  /-- The unit of a slot is replaced. -/
  | unit (s : Slot) (u : FunctionalUnit)

namespace Machine

/-- The machine after a stimulus. What cannot be carried out changes nothing. -/
def apply (m : Machine) : Stimulus → Machine
  | .tick =>
    match m.tick with
    | .ok n => n
    | .error _ => m
  | .reset level => m.setReset level
  | .interrupt code => m.raiseInterrupt code
  | .request q => { m with request := some q, response := none }
  | .withdraw => { m with request := none }
  | .collect => { m with response := none }
  | .register r v => { m with registers := m.registers.write r v }
  | .poke a v => { m with memory := (m.memory.poke? a v).getD m.memory }
  | .bytes a b => { m with memory := (m.memory.load? a b).getD m.memory }
  | .unit s u => m.withUnit s u

/-- The machine after a history. -/
def after (m : Machine) (h : List Stimulus) : Machine := h.foldl apply m

@[simp] theorem after_cons (m : Machine) (e : Stimulus) (h : List Stimulus) :
    m.after (e :: h) = (m.apply e).after h := rfl

theorem after_append (m : Machine) (h h' : List Stimulus) :
    m.after (h ++ h') = (m.after h).after h' := List.foldl_append

/-- The states of a machine, of any configuration and program. -/
def Reachable (m : Machine) : Prop :=
  ∃ writable c p m₀ h, Machine.new writable c p = .ok m₀ ∧ m = m₀.after h

theorem eq_ofConfig_of_new {writable : String → Bool} {c : Config} {p : Program} {m : Machine}
    (h : Machine.new writable c p = .ok m) : c.Valid ∧ m = ofConfig c p := by
  unfold Machine.new Config.validate at h
  cases hf : c.fault? with
  | some f => simp [hf, bind, Except.bind] at h
  | none =>
    simp only [hf, bind, Except.bind] at h
    split at h
    · cases h
      exact ⟨hf, rfl⟩
    · cases h

theorem settled_of_settle {m : Machine} {w : Signals} (h : m.settle = .ok w) : m.Settled w := by
  unfold settle at h
  split at h
  next v hv =>
    cases h
    split at hv
    · exact m.settled_of_settleFrom hv
    · cases hv
  · cases h

theorem tick_eq_ok {m n : Machine} (h : m.tick = .ok n) : ∃ w, m.Settled w ∧ n = m.advance w := by
  unfold tick at h
  split at h
  next w hw =>
    cases h
    exact ⟨w, settled_of_settle hw, rfl⟩
  · cases h

/-! ## Runs and debug accesses are histories -/

theorem Reachable.after {m : Machine} (hm : m.Reachable) (h : List Stimulus) :
    (m.after h).Reachable := by
  obtain ⟨writable, c, p, m₀, h₀, hnew, rfl⟩ := hm
  exact ⟨writable, c, p, m₀, h₀ ++ h, hnew, (after_append ..).symm⟩

theorem ticks_after (n : Nat) (m : Machine) : ∃ h, (m.ticks n).1 = m.after h := by
  induction n generalizing m with
  | zero => exact ⟨[], rfl⟩
  | succ n ih =>
    unfold ticks
    cases ht : m.tick with
    | error e => exact ⟨[], rfl⟩
    | ok next =>
      obtain ⟨h, hh⟩ := ih next
      exact ⟨.tick :: h, by rw [after_cons, apply, ht]; exact hh⟩

theorem run_after (n : Nat) (m : Machine) :
    ∃ k ≤ n, (m.run n).1 = m.after (.replicate k .tick) := by
  induction n generalizing m with
  | zero => exact ⟨0, Nat.le_refl _, rfl⟩
  | succ n ih =>
    unfold run
    split
    · exact ⟨0, Nat.zero_le _, rfl⟩
    · cases ht : m.tick with
      | error e => exact ⟨0, Nat.zero_le _, rfl⟩
      | ok next =>
        obtain ⟨k, hk, hh⟩ := ih next
        refine ⟨k + 1, Nat.succ_le_succ hk, ?_⟩
        rw [List.replicate_succ, after_cons, apply, ht]
        exact hh

theorem awaitDebug_after (q : DebugRequest) (n : Nat) (m : Machine) :
    ∃ h, (m.awaitDebug q n).1 = m.after h := by
  induction n generalizing m with
  | zero => exact ⟨[.withdraw], rfl⟩
  | succ n ih =>
    unfold awaitDebug
    cases ht : m.tick with
    | error e => exact ⟨[], rfl⟩
    | ok next =>
      dsimp only
      cases next.response with
      | none =>
        obtain ⟨h, hh⟩ := ih next
        exact ⟨.tick :: h, by rw [after_cons, apply, ht]; exact hh⟩
      | some r => exact ⟨[.tick, .collect], by rw [after_cons, apply, ht]; rfl⟩

/-- Debug accesses, runs and single cycles lead from reachable states to reachable states. -/
theorem Reachable.debugAccess {m : Machine} (hm : m.Reachable) (q : DebugRequest) :
    (m.debugAccess q).1.Reachable := by
  obtain ⟨h, hh⟩ := awaitDebug_after q debugTimeout { m with request := some q, response := none }
  unfold Machine.debugAccess
  rw [hh]
  exact hm.after (.request q :: h)

theorem Reachable.ticks {m : Machine} (hm : m.Reachable) (n : Nat) : (m.ticks n).1.Reachable := by
  obtain ⟨h, hh⟩ := ticks_after n m
  rw [hh]
  exact hm.after h

theorem Reachable.run {m : Machine} (hm : m.Reachable) (n : Nat) : (m.run n).1.Reachable := by
  obtain ⟨k, -, hh⟩ := run_after n m
  rw [hh]
  exact hm.after _

/-- Registers that are loaded are written one after the other. -/
theorem registers_after (rs : List (RegIndex × Word)) (m : Machine) :
    { m with registers := rs.foldl (fun r (n, v) => r.write n v) m.registers } =
      m.after (rs.map fun (n, v) => .register n v) := by
  induction rs generalizing m with
  | nil => rfl
  | cons x rs ih => exact ih { m with registers := m.registers.write x.1 x.2 }

theorem loadWord_after {m n : Machine} {x : MemoryWord} (h : m.loadWord x = .ok n) :
    n = m.after [.poke x.addr x.value] := by
  unfold loadWord at h
  split at h
  next d hd =>
    cases h
    split at hd
    · show _ = { m with memory := (m.memory.poke? x.addr x.value).getD m.memory }
      rw [hd]
      rfl
    · cases hd
  · cases h

theorem loadWords_after {ws : List MemoryWord} {m n : Machine}
    (hw : ws.foldlM Machine.loadWord m = .ok n) : ∃ h, .tick ∉ h ∧ n = m.after h := by
  induction ws generalizing m with
  | nil =>
    cases hw
    exact ⟨[], List.not_mem_nil, rfl⟩
  | cons x ws ih =>
    rw [List.foldlM_cons] at hw
    cases hx : m.loadWord x with
    | error e =>
      rw [hx] at hw
      cases hw
    | ok k =>
      rw [hx] at hw
      obtain ⟨h, ht, rfl⟩ := ih hw
      refine ⟨.poke x.addr x.value :: h, by simpa using ht, ?_⟩
      rw [loadWord_after hx, ← after_append]
      rfl

/-- An image is loaded by writes from outside, without a clock cycle. -/
theorem load_after {m n : Machine} {i : ProgramImage} (hl : m.load i = .ok n) :
    ∃ h, .tick ∉ h ∧ n = m.after h := by
  unfold Machine.load at hl
  cases hr : i.initialRegisters with
  | error e => simp [hr, bind, Except.bind] at hl
  | ok rs =>
    simp only [hr, bind, Except.bind, registers_after] at hl
    obtain ⟨h, ht, rfl⟩ := loadWords_after hl
    exact ⟨_, by simpa using ht, (after_append ..).symm⟩

theorem Reachable.ofImage {writable : String → Bool} {c : Config} {i : ProgramImage} {m : Machine}
    (h : Machine.ofImage writable c i = .ok m) : m.Reachable := by
  unfold Machine.ofImage at h
  cases hp : i.program with
  | error e => simp [hp, bind, Except.bind] at h
  | ok p =>
    cases hn : Machine.new writable c p with
    | error e => simp [hp, hn, bind, Except.bind] at h
    | ok n =>
      simp only [hp, hn, bind, Except.bind] at h
      obtain ⟨h', -, rfl⟩ := load_after h
      exact ⟨writable, c, p, n, h', hn, rfl⟩

end Machine

end RiscvPipeline
