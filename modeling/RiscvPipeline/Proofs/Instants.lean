import Mathlib.Data.List.Induction
import RiscvPipeline.Proofs.Tracking

/-!
# The cycles of a history

What happens on the way to a state is told by the cycles since the last reset, each with the machine
at its start and the signals that have settled. `Machine.since_induction` is the induction for what
follows a certain cycle, such as the one in which an instruction is accepted, and
`Machine.low_induction` that for what is kept as long as the reset line stays low.
-/

namespace RiscvPipeline

/-- A cycle with reset low: the machine before it, and its signals. -/
structure Instant where
  machine : Machine
  signals : Signals

namespace Instant

/-- Collects cycles, and forgets them in a reset. -/
def tracker : Tracker (List Instant) := ⟨fun m w ts => ts ++ [⟨m, w⟩], []⟩

variable (t : Instant)

/-- The machine after the cycle. -/
def next : Machine := t.machine.advance t.signals

/-- The execute stage takes a trap. -/
def traps : Bool := t.signals.execute.trapReady

/-- The instruction that the execute stage accepts. -/
def accepted? : Option DecodedInstruction :=
  if t.signals.execute.valid then t.machine.program.at? t.machine.execute.state.npc else none

theorem accepted?_eq_some {d : DecodedInstruction} : t.accepted? = some d ↔
    t.signals.execute.valid = true ∧
      t.machine.program.at? t.machine.execute.state.npc = some d := by
  unfold accepted?
  split <;> simp [*]

/-- The register write of the execute stage. -/
def result? : Option (RegIndex × Word) :=
  let w := t.signals.execute.write
  if w.enable then some (w.target, w.data) else none

end Instant

namespace Machine

variable {m : Machine} {h : List Stimulus}

/-- The cycles of a history since the last reset. -/
def cycles (m : Machine) (h : List Stimulus) : List Instant := Instant.tracker.after m [] h

theorem cycles_concat (m : Machine) (h : List Stimulus) (e : Stimulus) :
    m.cycles (h ++ [e]) = Instant.tracker.follow (m.after h) (m.cycles h) e :=
  Tracker.after_append ..

theorem step_concat (m : Machine) (h : List Stimulus) (e : Stimulus) :
    Instant.tracker.Step (m.after h) (m.cycles h) (m.after (h ++ [e])) (m.cycles (h ++ [e])) := by
  rw [cycles_concat, after_append]
  exact Instant.tracker.step ..

/-- The cycles of a history start in states that the history goes through. -/
theorem of_cycles_eq {before later : List Instant} {t : Instant}
    (hc : m.cycles h = before ++ t :: later) : t.machine.reset = false ∧
      t.machine.Settled t.signals ∧ ∃ h', m.after h' = t.machine ∧ m.cycles h' = before := by
  induction h using List.reverseRecOn generalizing later with
  | nil => simp [cycles, Tracker.after] at hc
  | append_singleton h e ih =>
    have hs := step_concat m h e
    generalize m.after (h ++ [e]) = n, m.cycles (h ++ [e]) = ts at hs hc
    cases hs with
    | restarted => simp [Instant.tracker] at hc
    | untouched => exact ih hc
    | @cycled w hr hw =>
      have hc : m.cycles h ++ [⟨m.after h, w⟩] = before ++ t :: later := hc
      rcases List.eq_nil_or_concat later with rfl | ⟨ts, s, rfl⟩
      · obtain ⟨hts, rfl⟩ := List.append_inj' hc rfl |>.imp_right List.singleton_inj.mp
        exact ⟨hr, hw, h, rfl, hts⟩
      · rw [List.concat_eq_append, ← List.cons_append, ← List.append_assoc] at hc
        exact ih (List.append_inj' hc rfl).1

theorem of_mem_cycles {t : Instant} (ht : t ∈ m.cycles h) : t.machine.reset = false ∧
    t.machine.Settled t.signals ∧ ∃ h', m.after h' = t.machine := by
  obtain ⟨before, later, hc⟩ := List.append_of_mem ht
  obtain ⟨hr, hw, h', hm, -⟩ := of_cycles_eq hc
  exact ⟨hr, hw, h', hm⟩

/-- What a cycle that starts something establishes, and later cycles keep, holds for as long as all
cycles since then are of that kind. -/
theorem since_induction {I : Machine → Prop} {S Q : Instant → Prop}
    {P : Instant → List Instant → Machine → Prop} (hI : ∀ h, I (m.after h))
    (hkept : ∀ s ts k n, Untouched k n → P s ts k → P s ts n)
    (hstart : ∀ k w, I k → k.reset = false → k.Settled w → S ⟨k, w⟩ → P ⟨k, w⟩ [] (k.advance w))
    (hcycle : ∀ s ts k w, I k → k.reset = false → k.Settled w → Q ⟨k, w⟩ → P s ts k →
      P s (ts ++ [⟨k, w⟩]) (k.advance w))
    {before later : List Instant} {s : Instant} (hc : m.cycles h = before ++ s :: later) (hs : S s)
    (hq : ∀ t ∈ later, Q t) : P s later (m.after h) := by
  -- Along the history the list of cycles grows at its end or starts anew, and `later` with it.
  induction h using List.reverseRecOn generalizing later with
  | nil => simp [cycles, Tracker.after] at hc
  | append_singleton h e ih =>
    have hstep := step_concat m h e
    generalize m.after (h ++ [e]) = n, m.cycles (h ++ [e]) = ts at hstep hc
    cases hstep with
    | restarted => simp [Instant.tracker] at hc
    | untouched hn => exact hkept _ _ _ _ hn (ih hc hq)
    | @cycled w hr hw =>
      have hc : m.cycles h ++ [⟨m.after h, w⟩] = before ++ s :: later := hc
      rcases List.eq_nil_or_concat later with rfl | ⟨ts, t, rfl⟩
      · obtain ⟨-, rfl⟩ := List.append_inj' hc rfl |>.imp_right List.singleton_inj.mp
        exact hstart _ _ (hI h) hr hw hs
      · rw [List.concat_eq_append, ← List.cons_append, ← List.append_assoc] at hc
        obtain ⟨hts, rfl⟩ := List.append_inj' hc rfl |>.imp_right List.singleton_inj.mp
        rw [List.concat_eq_append] at hq ⊢
        exact hcycle _ _ _ _ (hI h) hr hw (hq _ (by simp))
          (ih hts fun t ht => hq t (List.mem_append_left _ ht))

/-- Between two cycles nothing happens to what is under way. -/
theorem untouched_of_cycles_eq {before : List Instant} {t : Instant}
    (hc : m.cycles h = before ++ [t]) : Untouched t.next (m.after h) :=
  since_induction (I := fun _ => True) (S := fun _ => True) (Q := fun _ => False)
    (P := fun t _ k => Untouched t.next k) (fun _ => trivial)
    (fun _ _ _ _ hn hk => hk.trans hn) (fun _ _ _ _ _ _ => .refl _)
    (fun _ _ _ _ _ _ _ hq _ => hq.elim) hc trivial (fun _ hu => nomatch hu)

/-- The machine of a cycle is what the cycle before it led to. -/
theorem untouched_of_consecutive {before rest : List Instant} {t u : Instant}
    (hc : m.cycles h = before ++ t :: u :: rest) : Untouched t.next u.machine := by
  rw [← List.singleton_append, ← List.append_assoc] at hc
  obtain ⟨-, -, h', hafter, hcycles⟩ := of_cycles_eq hc
  rw [← hafter]
  exact untouched_of_cycles_eq hcycles

/-- One more cycle with reset low. -/
theorem cycles_tick {w : Signals} (hr : (m.after h).reset = false)
    (hw : (m.after h).settle = .ok w) :
    m.after (h ++ [.tick]) = (m.after h).advance w ∧
      m.cycles (h ++ [.tick]) = m.cycles h ++ [⟨m.after h, w⟩] := by
  rw [after_append, cycles_concat]
  constructor
  · show (m.after h).apply .tick = _
    simp only [apply, tick, hw]
  · simp only [Tracker.follow, hw, hr, Instant.tracker]
    rfl

/-! ## While reset is low -/

theorem advance_reset {w : Signals} : (m.advance w).reset = m.reset := by
  simp only [advance, clock, commit]
  split <;> rfl

/-- Only clock cycles count, as long as the reset line stays low. -/
theorem cycles_concat_of_ne_tick {e : Stimulus} (ht : e ≠ .tick)
    (hl : ∀ level, e = .reset level → level = false) : m.cycles (h ++ [e]) = m.cycles h := by
  rw [cycles_concat]
  cases e with
  | tick => exact absurd rfl ht
  | reset level =>
    obtain rfl := hl level rfl
    rfl
  | interrupt | request | withdraw | collect | register | poke | bytes | unit => rfl

theorem apply_reset {e : Stimulus} (ht : e ≠ .tick)
    (hl : ∀ level, e = .reset level → level = false) (hr : m.reset = false) :
    (m.apply e).reset = false := by
  cases e with
  | tick => exact absurd rfl ht
  | reset level =>
    obtain rfl := hl level rfl
    rfl
  | interrupt | request | withdraw | collect | register | poke | bytes | unit => exact hr

/-- What every cycle and every other stimulus keeps holds as long as the reset line stays low, of
the machine and of the cycles since then. -/
theorem low_induction {P : Machine → List Instant → Prop} {h' : List Stimulus}
    (hr : (m.after h).reset = false) (hl : ∀ level, .reset level ∈ h' → level = false)
    (hm : P (m.after h) [])
    (hstimulus : ∀ k ts, ∀ e ∈ h', e ≠ .tick → P k ts → P (k.apply e) ts)
    (hcycle : ∀ g ts w, (m.after g).reset = false → (m.after g).settle = .ok w → P (m.after g) ts →
      P ((m.after g).advance w) (ts ++ [⟨m.after g, w⟩])) :
    (m.after (h ++ h')).reset = false ∧
      ∃ later, m.cycles (h ++ h') = m.cycles h ++ later ∧ P (m.after (h ++ h')) later := by
  induction h' using List.reverseRecOn with
  | nil =>
    rw [List.append_nil]
    exact ⟨hr, [], (List.append_nil _).symm, hm⟩
  | append_singleton h' e ih =>
    obtain ⟨hr', later, hc, hp⟩ := ih (fun level hmem => hl level (List.mem_append_left _ hmem))
      fun k ts e he => hstimulus k ts e (List.mem_append_left _ he)
    have he : ∀ level, e = .reset level → level = false := fun level he => hl level (by simp [he])
    rw [← List.append_assoc]
    by_cases ht : e = .tick
    · subst ht
      cases hw : (m.after (h ++ h')).settle with
      | error x =>
        have happly : m.after (h ++ h' ++ [.tick]) = m.after (h ++ h') := by
          rw [after_append]
          show (m.after (h ++ h')).apply .tick = _
          rw [apply, tick, hw]
        rw [happly]
        refine ⟨hr', later, ?_, hp⟩
        rw [cycles_concat, Tracker.follow, hw, hc]
      | ok w =>
        obtain ⟨hafter, hcycles⟩ := cycles_tick hr' hw
        rw [hafter, hcycles, hc, List.append_assoc]
        exact ⟨advance_reset.trans hr', _, rfl, hcycle _ _ _ hr' hw hp⟩
    · rw [after_append, cycles_concat_of_ne_tick ht he]
      exact ⟨apply_reset ht he hr', later, hc, hstimulus _ _ e (by simp) ht hp⟩

/-! ## Cycles of a machine that is left alone -/

/-- So many cycles from a machine on. -/
def instants : Nat → Machine → List Instant
  | 0, _ => []
  | n + 1, m => ⟨m, m.settled⟩ :: instants n (m.advance m.settled)

theorem advance_unitsStable {w : Signals} : (m.advance w).unitsStable = m.unitsStable := by
  have next_isStable (b : Bool) (q : UnitRequest) (u : FunctionalUnit) :
      (u.next b q).isStable = u.isStable := by
    cases u <;> rfl
  simp [unitsStable, advance, clock, PerSlot.any, PerSlot.ofFn, PerSlot.get, next_isStable]

theorem length_instants (n : Nat) (m : Machine) : (m.instants n).length = n := by
  induction n generalizing m with
  | zero => rfl
  | succ n ih => exact congrArg (· + 1) (ih _)

/-- What every cycle keeps holds after so many clock cycles with reset low, of the machine and of
the cycles up to then. -/
theorem ticks_induction {P : Machine → List Instant → Prop} (hr : m.reset = false) (hm : P m [])
    (hcycle : ∀ k ts w, k.reset = false → k.settle = .ok w → P k ts →
      P (k.advance w) (ts ++ [⟨k, w⟩]))
    (n : Nat) : P (m.after (.replicate n .tick)) (m.cycles (.replicate n .tick)) := by
  have hl : ∀ level, .reset level ∈ List.replicate n Stimulus.tick → level = false :=
    fun level hl => nomatch List.eq_of_mem_replicate hl
  obtain ⟨-, later, hc, hp⟩ := low_induction (h := []) hr hl hm
    (fun k ts e he ht => absurd (List.eq_of_mem_replicate he) ht)
    fun g ts w hr hw => hcycle (m.after g) ts w hr hw
  rw [List.nil_append] at hc hp
  rw [hc]
  exact hp

/-- With reset low the clock goes on. -/
theorem after_replicate_tick (hu : m.unitsStable = true) (hr : m.reset = false)
    (ts : List Instant) (n : Nat) :
    Instant.tracker.after m ts (.replicate n .tick) = ts ++ m.instants n := by
  induction n generalizing m ts with
  | zero => simp [Tracker.after, instants]
  | succ n ih =>
    have hs := settle_eq hu
    have happly : m.apply .tick = m.advance m.settled := by simp only [apply, tick, hs]
    have hfollow : Instant.tracker.follow m ts .tick = ts ++ [⟨m, m.settled⟩] := by
      simp only [Tracker.follow, hs, hr]
      rfl
    rw [List.replicate_succ, Tracker.after, happly, hfollow,
      ih (advance_unitsStable.trans hu) (advance_reset.trans hr), instants]
    simp

theorem cycles_replicate_tick (hu : m.unitsStable = true) (hr : m.reset = false) (n : Nat) :
    m.cycles (.replicate n .tick) = m.instants n :=
  after_replicate_tick hu hr [] n

theorem cycles_append_replicate_tick (hu : (m.after h).unitsStable = true)
    (hr : (m.after h).reset = false) (n : Nat) :
    m.cycles (h ++ .replicate n .tick) = m.cycles h ++ (m.after h).instants n := by
  rw [← after_replicate_tick hu hr]
  exact Tracker.after_append ..

end Machine

end RiscvPipeline
