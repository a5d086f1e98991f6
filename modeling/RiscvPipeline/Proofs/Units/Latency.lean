import RiscvPipeline.Proofs.Runs
import RiscvPipeline.Units.Latency

/-!
# The answers of a functional unit

A unit on its own, asked again and again, answers every call that it accepts exactly once and after
exactly its latency (`LatencyUnit.answers_calls`). Which calls these are is said by the requests
alone: of the calls that come while one is under way none is accepted. `Timely` is what a cycle
keeps of that.
-/

namespace RiscvPipeline

/-- The operation that a request calls for. -/
def UnitRequest.operation? (r : UnitRequest) : Option Opcode := if r.enable then r.opcode else none

namespace LatencyUnit

section

variable (latency : Nat) (q : Nat → UnitRequest)

/-- The request of cycle `n` calls for an operation, and no call has been accepted in the cycles
before it that are fewer than `latency` away. -/
def Accepts (n : Nat) : Prop :=
  (q n).operation?.isSome = true ∧ ∀ k, k < n → n < k + latency → ¬ Accepts k
termination_by n

/-- What the unit of a slot drives in cycle `n`. -/
structure Answers (s : Slot) (n : Nat) (r : UnitResponse) : Prop where
  valid : r.valid = true ↔ ∃ k, k + latency = n ∧ Accepts latency q k
  result : ∀ k, k + latency = n → Accepts latency q k → ∀ o, (q k).operation? = some o →
    (r.result, r.flags) = s.evaluate o (q k).a (q k).b
  silent : r.valid = false → r.result = 0 ∧ r.flags = .none
  busy : r.busy = true ↔ ∃ k, k < n ∧ n < k + latency ∧ Accepts latency q k

/-- The registers of the unit at the start of cycle `n`. -/
structure Timely (s : Slot) (n : Nat) (x : State) : Prop where
  busy : x.busy = true ↔ ∃ k, k < n ∧ n < k + latency ∧ Accepts latency q k
  valid : x.valid = true ↔ ∃ k, k + latency = n ∧ Accepts latency q k
  remaining : ∀ k, k < n → n < k + latency → Accepts latency q k → x.remaining + n = k + latency
  result : ∀ k, k < n → n ≤ k + latency → Accepts latency q k → ∀ o, (q k).operation? = some o →
    (x.result, x.flags) = s.evaluate o (q k).a (q k).b

end

variable {latency : Nat} {q : Nat → UnitRequest} {k j n : Nat}

theorem accepts_iff : Accepts latency q n ↔
    (q n).operation?.isSome = true ∧ ∀ k, k < n → n < k + latency → ¬ Accepts latency q k := by
  conv => lhs; unfold Accepts

/-- Accepted calls are at least a latency apart. -/
theorem Accepts.apart (hk : Accepts latency q k) (hj : Accepts latency q j) (h : k < j) :
    k + latency ≤ j := by
  by_contra hlt
  exact (accepts_iff.1 hj).2 k h (by omega) hk

theorem Accepts.unique (hk : Accepts latency q k) (hj : Accepts latency q j)
    (h : k < j + latency) (h' : j < k + latency) : k = j := by
  rcases Nat.lt_trichotomy k j with hlt | heq | hgt
  · have := hk.apart hj hlt
    omega
  · exact heq
  · have := hj.apart hk hgt
    omega

/-! ## What a cycle keeps -/

namespace Timely

variable {s : Slot} {x : State}

theorem initial (hl : 0 < latency) : Timely latency q s 0 {} where
  busy := by simp
  valid := by
    constructor
    · rintro ⟨⟩
    · rintro ⟨k, hk, -⟩
      omega
  remaining := by
    intro k hk
    omega
  result := by
    intro k hk
    omega

/-- A call is accepted if none is under way. -/
theorem accepts_of_not_busy (h : Timely latency q s n x) (hb : x.busy = false) :
    Accepts latency q n ↔ (q n).operation?.isSome = true := by
  refine ⟨fun ha => (accepts_iff.1 ha).1, fun ho => accepts_iff.2 ⟨ho, fun k hk hn ha => ?_⟩⟩
  rw [h.busy.2 ⟨k, hk, hn, ha⟩] at hb
  cases hb

/-- A call that is under way comes nearer to its answer, which is due if the count has run out. -/
theorem busy_next (h : Timely latency q s n x) (hb : x.busy = true) :
    Timely latency q s (n + 1)
      (if x.remaining ≤ 1 then { x with busy := false, valid := true }
        else { x with valid := false, remaining := x.remaining - 1 }) := by
  obtain ⟨k, hk, hn, ha⟩ := h.busy.1 hb
  have hr := h.remaining k hk hn ha
  have same : ∀ j, j < n + 1 → n < j + latency → Accepts latency q j → j = k :=
    fun j hj hjn haj => haj.unique ha (by omega) (by omega)
  have result : ∀ j, j < n + 1 → n + 1 ≤ j + latency → Accepts latency q j → ∀ o,
      (q j).operation? = some o → (x.result, x.flags) = s.evaluate o (q j).a (q j).b := by
    intro j hj hjn haj o ho
    obtain rfl := same j hj (by omega) haj
    exact h.result j hk (by omega) haj o ho
  split
  next hlast =>
    constructor
    case busy =>
      refine ⟨by rintro ⟨⟩, ?_⟩
      rintro ⟨j, hj, hjn, haj⟩
      have := same j hj (by omega) haj
      omega
    case valid => exact iff_of_true rfl ⟨k, by omega, ha⟩
    case remaining =>
      intro j hj hjn haj
      have := same j hj (by omega) haj
      omega
    case result => exact result
  next hmore =>
    constructor
    case busy => exact iff_of_true hb ⟨k, by omega, by omega, ha⟩
    case valid =>
      refine ⟨by rintro ⟨⟩, ?_⟩
      rintro ⟨j, hjn, haj⟩
      have := same j (by omega) (by omega) haj
      omega
    case remaining =>
      intro j hj hjn haj
      obtain rfl := same j hj (by omega) haj
      show x.remaining - 1 + (n + 1) = j + latency
      omega
    case result => exact result

/-- If none is under way, all calls that were accepted before have been answered. -/
theorem answered_of_not_busy (h : Timely latency q s n x) (hb : x.busy = false) (hk : k < n)
    (ha : Accepts latency q k) : k + latency ≤ n := by
  by_contra hlt
  rw [h.busy.2 ⟨k, hk, by omega, ha⟩] at hb
  cases hb

/-- Without a call nothing is under way, and nothing is answered in the next cycle. -/
theorem quiet_next (h : Timely latency q s n x) (hl : 0 < latency) (hb : x.busy = false)
    (ho : (q n).operation? = none) : Timely latency q s (n + 1) { x with valid := false } := by
  have past : ∀ k, k < n + 1 → Accepts latency q k → k + latency ≤ n := by
    intro k hk ha
    rcases Nat.lt_succ_iff_lt_or_eq.1 hk with hlt | rfl
    · exact h.answered_of_not_busy hb hlt ha
    · have := (accepts_iff.1 ha).1
      rw [ho] at this
      cases this
  constructor
  case busy =>
    refine iff_of_false (by simp [hb]) ?_
    rintro ⟨k, hk, hkn, ha⟩
    have := past k hk ha
    omega
  case valid =>
    refine iff_of_false (by simp) ?_
    rintro ⟨k, hkn, ha⟩
    have := past k (by omega) ha
    omega
  case remaining =>
    intro k hk hkn ha
    have := past k hk ha
    omega
  case result =>
    intro k hk hkn ha
    have := past k hk ha
    omega

/-- A call that is accepted is answered in the next cycle, or it is under way from there on. -/
theorem start_next {u : LatencyUnit} (h : Timely u.latency q u.slot n u.state)
    (hl : 0 < u.latency) (hb : u.state.busy = false) {o : Opcode}
    (ho : (q n).operation? = some o) :
    Timely u.latency q u.slot (n + 1) (u.start o (q n).a (q n).b) := by
  have hn : Accepts u.latency q n := (h.accepts_of_not_busy hb).2 (by rw [ho]; rfl)
  have last : ∀ k, k < n + 1 → n < k + u.latency → Accepts u.latency q k → k = n := by
    intro k hk hkn ha
    by_contra hne
    have := h.answered_of_not_busy hb (by omega) ha
    omega
  have hresult : ((u.start o (q n).a (q n).b).result, (u.start o (q n).a (q n).b).flags) =
      u.slot.evaluate o (q n).a (q n).b := by
    unfold start
    dsimp only
    split <;> rfl
  have result : ∀ k, k < n + 1 → n + 1 ≤ k + u.latency → Accepts u.latency q k → ∀ o',
      (q k).operation? = some o' →
        ((u.start o (q n).a (q n).b).result, (u.start o (q n).a (q n).b).flags) =
          u.slot.evaluate o' (q k).a (q k).b := by
    intro k hk hkn ha o' ho'
    obtain rfl := last k hk (by omega) ha
    obtain rfl := Option.some.inj (ho.symm.trans ho')
    exact hresult
  by_cases h1 : u.latency = 1
  · have hstart : (u.start o (q n).a (q n).b).busy = false ∧
        (u.start o (q n).a (q n).b).valid = true := by
      simp [start, h1, hb]
    constructor
    case busy =>
      refine iff_of_false (by simp [hstart.1]) ?_
      rintro ⟨k, hk, hkn, -⟩
      omega
    case valid => exact iff_of_true hstart.2 ⟨n, by omega, hn⟩
    case remaining =>
      intro k hk hkn
      omega
    case result => exact result
  · have hstart : (u.start o (q n).a (q n).b).busy = true ∧
        (u.start o (q n).a (q n).b).valid = false ∧
          (u.start o (q n).a (q n).b).remaining = u.latency - 1 := by
      simp [start, h1]
    constructor
    case busy => exact iff_of_true hstart.1 ⟨n, by omega, by omega, hn⟩
    case valid =>
      refine iff_of_false (by simp [hstart.2.1]) ?_
      rintro ⟨k, hkn, ha⟩
      have := last k (by omega) (by omega) ha
      omega
    case remaining =>
      intro k hk hkn ha
      have := last k hk (by omega) ha
      have := hstart.2.2
      omega
    case result => exact result

theorem next {u : LatencyUnit} (h : Timely u.latency q u.slot n u.state) (hl : 0 < u.latency) :
    Timely u.latency q u.slot (n + 1) (u.propose (q n)) := by
  unfold propose
  cases hb : u.state.busy with
  | true => exact h.busy_next hb
  | false =>
    cases he : (q n).enable with
    | false => exact h.quiet_next hl hb (by simp [UnitRequest.operation?, he])
    | true =>
      cases ho : (q n).opcode with
      | none => exact h.quiet_next hl hb (by simp [UnitRequest.operation?, ho])
      | some o => exact h.start_next hl hb (by simp [UnitRequest.operation?, he, ho])

/-- What the unit drives is told by its registers. -/
theorem answers (h : Timely latency q s n x) {u : LatencyUnit} (hx : u.state = x)
    (hl : 0 < latency) : Answers latency q s n u.response := by
  subst hx
  constructor
  case valid => exact h.valid
  case result =>
    intro k hk ha o ho
    have hv : u.state.valid = true := h.valid.2 ⟨k, hk, ha⟩
    rw [← h.result k (by omega) (by omega) ha o ho]
    simp [response, hv]
  case silent =>
    intro hv
    have hv : u.state.valid = false := hv
    simp [response, hv]
  case busy => exact h.busy

end Timely

/-! ## A stream of requests -/

/-- The unit at the start of cycle `n` of a stream of requests. -/
def atCycle (u : LatencyUnit) (q : Nat → UnitRequest) (n : Nat) : LatencyUnit :=
  clocked.after u ((List.range n).map q)

theorem timely_atCycle {u : LatencyUnit} (hl : 0 < u.latency) (q : Nat → UnitRequest) (n : Nat) :
    let v := (clocked.reset u).atCycle q n
    v.slot = u.slot ∧ v.latency = u.latency ∧ Timely u.latency q u.slot n v.state := by
  induction n with
  | zero => exact ⟨rfl, rfl, .initial hl⟩
  | succ n ih =>
    obtain ⟨hs, hlat, ht⟩ := ih
    have hnext : (clocked.reset u).atCycle q (n + 1) =
        { (clocked.reset u).atCycle q n with
          state := ((clocked.reset u).atCycle q n).propose (q n) } := by
      unfold atCycle
      rw [List.range_succ, List.map_append, List.map_singleton, Clocked.after_concat]
      rfl
    rw [hnext]
    refine ⟨hs, hlat, ?_⟩
    rw [← hs, ← hlat] at ht ⊢
    exact ht.next (by rwa [hlat])

/-- After a reset the unit answers each call that it accepts once, exactly a latency later, and it
is busy in the cycles between. -/
theorem answers_calls {u : LatencyUnit} (hl : 0 < u.latency) (q : Nat → UnitRequest) (n : Nat) :
    Answers u.latency q u.slot n
      (clocked.output ((clocked.reset u).atCycle q n) (q n)) := by
  obtain ⟨-, -, ht⟩ := timely_atCycle hl q n
  exact ht.answers rfl hl

/-- Calls in cycles 0, 1 and 3. The second comes while the first is under way, the third together
with the answer to the first. -/
def overlapping (n : Nat) : UnitRequest :=
  if n = 0 ∨ n = 1 ∨ n = 3 then
    { enable := true, opcode := some .mul, a := BitVec.ofNat 64 n + 2, b := 7 }
  else {}

theorem answers_calls_overlapping :
    let u := new .mul 3
    0 < u.latency ∧ ¬ Accepts 3 overlapping 1 ∧ Accepts 3 overlapping 3 ∧
      (clocked.output ((clocked.reset u).atCycle overlapping 6) (overlapping 6)).result = 35 ∧
      (clocked.output ((clocked.reset u).atCycle overlapping 4) (overlapping 4)).busy = true := by
  intro u
  have hl : 0 < u.latency := by decide
  have h := answers_calls hl overlapping
  have hv4 : ¬ ∃ k, k + 3 = 4 ∧ Accepts 3 overlapping k := fun hk => by
    have := (h 4).valid.2 hk
    revert this
    decide
  obtain ⟨k, hk, h3⟩ := (h 6).valid.1 (by decide)
  obtain rfl : k = 3 := Nat.add_right_cancel hk
  refine ⟨hl, fun h1 => hv4 ⟨1, rfl, h1⟩, h3, ?_, (h 4).busy.2 ⟨3, by decide, by decide, h3⟩⟩
  exact congrArg Prod.fst ((h 6).result 3 rfl h3 .mul rfl)

end LatencyUnit

end RiscvPipeline
