import Mathlib.Logic.Basic
import RiscvPipeline.Proofs.Csr.Bus

/-!
# Commands and their answers

A command that the file of control and status registers accepts is the request of exactly one
master. It is answered after the latency of the file, to that master and to nobody else, and nothing
else is ever answered. Traps change nothing in this; a reset makes the file forget the command.
-/

namespace RiscvPipeline

open CsrArbiter

theorem getElem?_concat_eq_some {α : Type} {l : List α} {a b : α} {n : Nat} :
    (l ++ [a])[n]? = some b ↔ l[n]? = some b ∨ n = l.length ∧ a = b := by
  rcases Nat.lt_trichotomy n l.length with h | rfl | h
  · rw [List.getElem?_append_left h]
    simp [Nat.ne_of_lt h]
  · simp
  · rw [List.getElem?_eq_none (by simp; omega), List.getElem?_eq_none (Nat.le_of_lt h)]
    simp [Nat.ne_of_gt h]

namespace Machine

/-- The four machines on the bus agree. -/
structure Agreement (m : Machine) : Prop where
  acquired : m.arbiter.registers.acquired = true ↔ m.csr.control.phase ≠ .idle
  awaited : m.csr.control.phase ≠ .idle ↔ Xor (m.Expects .execute) (m.Expects .debug)
  exclusive : ¬ (m.Expects .execute ∧ m.Expects .debug)
  owner : ∀ x, m.Expects x → m.arbiter.registers.owner = x

theorem Held.agreement {m : Machine} {x? : Option Master} (h : m.Held x?) : m.Agreement := by
  have hexclusive : ¬ (m.Expects .execute ∧ m.Expects .debug) := by
    rintro ⟨he, hd⟩
    cases ((h.expects _).1 he).symm.trans ((h.expects _).1 hd)
  refine ⟨?_, ?_, hexclusive, fun x hx => h.owner x ((h.expects x).1 hx)⟩
  · rw [h.acquired, Ne, h.file]
    cases x? <;> simp
  · rw [Ne, h.file]
    unfold Xor
    rw [h.expects, h.expects]
    cases x? with
    | none => simp
    | some x => cases x <;> simp

end Machine

/-! ## Every command is answered -/

/-- The commands among the cycles and their answers. -/
structure Served (latency : Nat) (ts : List Instant) : Prop where
  /-- A command is the request of exactly one master. -/
  issued : ∀ s ∈ ts, s.accepts = true → ∃! x, s.issues x = true
  request : ∀ s ∈ ts, ∀ x, s.issues x = true → s.accepts = true ∧ s.command = s.request x
  /-- It is answered when it is due; its master takes the answer, and the other one sees none. -/
  answered : ∀ n s t x, ts[n]? = some s → ts[n + latency]? = some t → s.issues x = true →
    t.response x = s.answer ∧ (t.request x).ready = true ∧ (t.response x.other).valid = false
  /-- Nothing else is answered. -/
  due : ∀ n t x, ts[n]? = some t → (t.response x).valid = true →
    ∃ k s, n = k + latency ∧ ts[k]? = some s ∧ s.issues x = true

namespace Machine

/-- The command of the master that holds the bus is the only one without an answer. -/
structure Answering (latency : Nat) (m : Machine) (ts : List Instant) (x? : Option Master) :
    Prop where
  held : m.Held x?
  served : Served latency ts
  owed : ∀ n s x, ts[n]? = some s → s.issues x = true → n + latency < ts.length ∨
    x? = some x ∧ n + latency + 1 = ts.length + m.csr.due ∧ m.csr.prepared = s.answer
  source : ∀ x, x? = some x → ∃ n s, ts[n]? = some s ∧ s.issues x = true ∧
    n + latency + 1 = ts.length + m.csr.due
  latency : m.csr.latency = latency

namespace Answering

variable {latency : Nat} {m : Machine} {w : Signals} {ts : List Instant} {x? : Option Master}

theorem of_restarted {k : Machine} (hk : Restarted k m) (hl : k.csr.latency = latency) :
    m.Answering latency [] none :=
  { held := .of_restarted hk
    served := by constructor <;> simp
    owed := by simp
    source := by simp
    latency := by rw [hk.csr]; exact hl }

theorem of_untouched {n : Machine} (hn : Untouched m n) (h : m.Answering latency ts x?) :
    n.Answering latency ts x? := by
  obtain ⟨h1, h2, h3, h4, h5⟩ := h
  rw [← hn.csr] at h3 h4 h5
  exact ⟨h1.of_untouched hn, h2, h3, h4, h5⟩

variable {y? : Option Master}

/-- An answer comes when the count is down to one. -/
theorem eq_none_of_due {x : Master} (hr : m.reset = false)
    (he : Instant.Exchange ⟨m, w⟩ (some x) y?) (hy : (m.advance w).Held y?)
    (hd : m.csr.due = 1) : y? = none := by
  cases y? with
  | none => rfl
  | some y =>
    have hxy : y = x := by cases he; rfl
    subst hxy
    obtain ⟨-, hdue⟩ := Held.file_of_busy hr he
    have hidle : (m.advance w).csr.control.phase = .idle := CsrFile.due_eq_zero.1 (by omega)
    cases hy.file.1 hidle

theorem served_concat (h : m.Answering latency ts x?) (hl : 1 ≤ latency) (hr : m.reset = false)
    (hw : m.Settled w) (he : Instant.Exchange ⟨m, w⟩ x? y?) (hy : (m.advance w).Held y?) :
    Served latency (ts ++ [⟨m, w⟩]) := by
  have mem {s : Instant} (hs : s ∈ ts ++ [⟨m, w⟩]) : s ∈ ts ∨ s = ⟨m, w⟩ := by simpa using hs
  refine ⟨fun s hs ha => ?_, fun s hs x hx => ?_, fun n s t x hs ht hx => ?_,
    fun n t x ht hv => ?_⟩
  · rcases mem hs with hs | rfl
    · exact h.served.issued s hs ha
    · obtain ⟨x, hx⟩ := (he.accepts_iff hw).1 ha
      refine ⟨x, hx, fun y hy => ?_⟩
      have := ((he.issues_iff y).1 hy).2.symm.trans ((he.issues_iff x).1 hx).2
      exact Option.some.inj this
  · rcases mem hs with hs | rfl
    · exact h.served.request s hs x hx
    · exact ⟨(he.accepts_iff hw).2 ⟨x, hx⟩, he.command_of_issues hx⟩
  · rcases getElem?_concat_eq_some.1 ht with ht | ⟨hn, rfl⟩
    · have hlt : n < ts.length := by
        have := (List.getElem?_eq_some_iff.1 ht).1
        omega
      rw [List.getElem?_append_left hlt] at hs
      exact h.served.answered n s t x hs ht hx
    · have hlt : n < ts.length := by omega
      rw [List.getElem?_append_left hlt] at hs
      obtain ho | ⟨rfl, hdue, hp⟩ := h.owed n s x hs hx
      · omega
      · obtain rfl := eq_none_of_due hr he hy (by omega)
        cases he with
        | answered _ _ hx _ hresp ho => exact ⟨hresp.trans hp, by rw [hx], by rw [ho]⟩
  · rcases getElem?_concat_eq_some.1 ht with ht | ⟨rfl, rfl⟩
    · obtain ⟨k, s, hk, hs, hx⟩ := h.served.due n t x ht hv
      exact ⟨k, s, hk, getElem?_concat_eq_some.2 (.inl hs), hx⟩
    · obtain ⟨rfl, rfl⟩ := (he.valid_iff x).1 hv
      obtain ⟨k, s, hs, hx, hk⟩ := h.source x rfl
      have := Held.due_of_answered he
      exact ⟨k, s, by omega, getElem?_concat_eq_some.2 (.inl hs), hx⟩

theorem step (h : m.Answering latency ts x?) (hl : 1 ≤ latency) (hr : m.reset = false)
    (hw : m.Settled w) : ∃ y?, (m.advance w).Answering latency (ts ++ [⟨m, w⟩]) y? := by
  obtain ⟨y?, he, hy⟩ := h.held.step hr hw
  have hfile (x : Master) (hxy : x? = none ∧ y? = some x) :
      (m.advance w).csr.prepared = Instant.answer ⟨m, w⟩ ∧ (m.advance w).csr.due = latency := by
    obtain ⟨rfl, rfl⟩ := hxy
    rw [← h.latency] at hl ⊢
    exact Held.file_of_accepted hr he hl
  have hlen : (ts ++ [(⟨m, w⟩ : Instant)]).length = ts.length + 1 := by simp
  refine ⟨y?, hy, h.served_concat hl hr hw he hy, fun n s x hs hx => ?_, fun x hx => ?_,
    (advance_latency hr).trans h.latency⟩
  · rw [hlen]
    rcases getElem?_concat_eq_some.1 hs with hs | ⟨rfl, rfl⟩
    · obtain ho | ⟨rfl, hdue, hp⟩ := h.owed n s x hs hx
      · left
        omega
      · cases y? with
        | none =>
          have := Held.due_of_answered he
          left
          omega
        | some y =>
          have hxy : y = x := by cases he; rfl
          subst hxy
          obtain ⟨hprep, hdue'⟩ := Held.file_of_busy hr he
          exact .inr ⟨rfl, by omega, hprep.trans hp⟩
    · have hxy := (he.issues_iff x).1 hx
      obtain ⟨hprep, hdue⟩ := hfile x hxy
      exact .inr ⟨hxy.2, by omega, hprep⟩
  · rw [hlen]
    subst hx
    cases x? with
    | none =>
      obtain ⟨-, hdue⟩ := hfile x ⟨rfl, rfl⟩
      exact ⟨ts.length, ⟨m, w⟩, by simp, (he.issues_iff x).2 ⟨rfl, rfl⟩, by omega⟩
    | some y =>
      have hxy : y = x := by cases he; rfl
      subst hxy
      obtain ⟨n, s, hs, hx, hdue⟩ := h.source y rfl
      obtain ⟨-, hdue'⟩ := Held.file_of_busy hr he
      exact ⟨n, s, getElem?_concat_eq_some.2 (.inl hs), hx, by omega⟩

end Answering

theorem Answering.after {c : Config} (hc : c.Valid) (p : Program) (h : List Stimulus) :
    ∃ x?, ((ofConfig c p).after h).Answering c.csr.latency ((ofConfig c p).cycles h) x? :=
  Tracker.holds_along (P := fun m ts => ∃ x?, m.Answering c.csr.latency ts x?)
    (fun _ _ _ hn ⟨_, hx⟩ => ⟨none, .of_restarted hn hx.latency⟩)
    (fun _ _ _ hn ⟨x?, hx⟩ => ⟨x?, hx.of_untouched hn⟩)
    (fun _ _ _ hr hw ⟨_, hx⟩ => hx.step hc.csrLatency hr hw) h
    ⟨none, .of_restarted (restarted_ofConfig c p) (Nat.max_eq_left hc.csrLatency)⟩

/-- Whatever comes from outside, the parties of the bus agree, and every command is answered once,
after the latency and to the master that sent it, unless a reset comes first. -/
theorem bus_agrees {writable : String → Bool} {c : Config} {p : Program} {m₀ : Machine}
    (hnew : Machine.new writable c p = .ok m₀) (h : List Stimulus) :
    let m := m₀.after h
    m.Agreement ∧ Served c.csr.latency (m₀.cycles h) ∧
      (m.reset = false → m.unitsStable = true → ∀ n s x, (m₀.cycles h)[n]? = some s →
        s.issues x = true → ∃ t,
          (m₀.cycles (h ++ .replicate c.csr.latency .tick))[n + c.csr.latency]? = some t ∧
            t.response x = s.answer) := by
  obtain ⟨hc, rfl⟩ := eq_ofConfig_of_new hnew
  intro m
  obtain ⟨x?, hx⟩ := Answering.after hc p h
  refine ⟨hx.held.agreement, hx.served, fun hr hu n s x hs hi => ?_⟩
  obtain ⟨_, hy⟩ := Answering.after hc p (h ++ .replicate c.csr.latency .tick)
  have hlt := (List.getElem?_eq_some_iff.1 hs).1
  rw [cycles_append_replicate_tick hu hr] at hy ⊢
  have ht : n + c.csr.latency <
      ((ofConfig c p).cycles h ++ m.instants c.csr.latency).length := by
    rw [List.length_append, length_instants]
    omega
  refine ⟨_, List.getElem?_eq_getElem ht, ?_⟩
  exact (hy.served.answered n s _ x (by rwa [List.getElem?_append_left hlt])
    (List.getElem?_eq_getElem ht) hi).1

/-- A program that reads the number of the hart. -/
def identifying : Program :=
  { instructions := #[{ pc := resetVector, word := 0xf1402573, opcode := .csrrs }] }

theorem bus_agrees_identifying :
    let m₀ := ofConfig {} identifying
    let ts := m₀.instants 4
    Machine.new (fun _ => true) {} identifying = .ok m₀ ∧
      (m₀.after (.replicate 4 .tick)).Agreement ∧
      ∃ s t, ts[1]? = some s ∧ ts[2]? = some t ∧ s.issues .execute = true ∧
        t.response .execute = s.answer := by
  intro m₀ ts
  have hnew : Machine.new (fun _ => true) {} identifying = .ok m₀ := rfl
  obtain ⟨ha, hs, -⟩ := bus_agrees hnew (.replicate 4 .tick)
  rw [cycles_replicate_tick (by decide +kernel) rfl] at hs
  have hi : (m₀.instants 2)[1].issues .execute = true := by decide +kernel
  exact ⟨hnew, ha, _, _, rfl, rfl, hi, (hs.answered 1 _ _ .execute rfl rfl hi).1⟩

theorem setReset_reset (m : Machine) (b : Bool) : (m.setReset b).reset = b := by
  unfold setReset
  dsimp only
  split <;> rfl

/-- Under reset the file answers nothing. -/
theorem not_responding_of_reset {m : Machine} (hr : m.reset = true)
    (hp : m.csr.control.phase ≠ .responding) (n : Nat) :
    (m.after (.replicate n .tick)).csr.control.phase ≠ .responding := by
  induction n generalizing m with
  | zero => exact hp
  | succ n ih =>
    rw [List.replicate_succ, after_cons]
    cases hk : m.tick with
    | error =>
      have happly : m.apply .tick = m := by simp only [apply, hk]
      rw [happly]
      exact ih hr hp
    | ok k =>
      have happly : m.apply .tick = k := by simp only [apply, hk]
      obtain ⟨w, -, rfl⟩ := tick_eq_ok hk
      rw [happly]
      refine ih (advance_reset.trans hr) ?_
      intro hresponding
      rw [(restarted_advance hr).csr] at hresponding
      cases hresponding

/-- A command whose answer is two cycles away is never answered if a reset comes after one. -/
theorem unanswered_identifying :
    let m := (ofConfig { csr := { latency := 2 } } identifying).after [.tick]
    Instant.issues ⟨m, m.settled⟩ .execute = true ∧ ∀ n x,
      let k := m.after (.tick :: .reset true :: .replicate n .tick)
      (Instant.response ⟨k, k.settled⟩ x).valid = false := by
  intro m
  have hd : ((m.apply .tick).setReset true).csr.control.phase ≠ .responding := by decide +kernel
  refine ⟨by decide +kernel, ?_⟩
  clear_value m
  intro n x k
  have hk : k.csr.control.phase ≠ .responding := not_responding_of_reset (setReset_reset ..) hd n
  exact Bool.eq_false_iff.mpr fun hv => hk (settled_settled.response_valid hv)

end Machine

end RiscvPipeline
