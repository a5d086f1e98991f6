import RiscvPipeline.Proofs.Csr.Bus
import RiscvPipeline.Proofs.Debug.Port

/-!
# Debug accesses as transactions

The port carries out nothing but what is requested of it (`Machine.Asks.apply`). A debug access that
finds the port idle is answered by the port's response to it, and leaves the port idle, as does all
that happens until the next access (`Machine.Unasked.after`). If it is not answered in time, and the
port has not taken the request, all is as if there had been none (`Machine.debugAccess_transacts`).
A request that the port has taken is not given up with the access, though: the port goes on with it
(`Machine.Owed.awaitDebug`), and its response is returned by a later access
(`Machine.Owed.awaitDebug_eq`).
-/

namespace RiscvPipeline.Machine

variable {m n k : Machine} {w : Signals} {p q : DebugRequest} {ts : List Instant}

/-! ## The signals of the port -/

theorem Settled.debug_ready (hw : m.Settled w) : w.debug.ready = m.debug.isIdle := by
  rw [hw.debug, DebugPort.output_ready]

theorem Settled.debug_valid (hw : m.Settled w) :
    w.debug.valid = (m.debug.phase == .responding) := by
  rw [hw.debug, DebugPort.output_valid]

/-! ## Between accesses -/

/-- Every access that is requested or under way is of the kind `Q`. -/
structure Asks (Q : DebugRequest → Prop) (m : Machine) : Prop where
  request : ∀ q, m.request = some q → Q q
  port : m.debug.isIdle = false → Q m.debug.request

namespace Asks

variable {Q : DebugRequest → Prop}

theorem advance (h : m.Asks Q) : (m.advance w).Asks Q := by
  cases hr : m.reset with
  | true =>
    refine ⟨?_, fun hi => ?_⟩
    · rw [advance_request_of_reset hr]
      exact h.request
    · rw [(restarted_advance hr).debug] at hi
      cases hi
  | false =>
    refine ⟨?_, fun hi => ?_⟩
    · rw [advance_request hr]
      split
      · simp
      · exact h.request
    · rw [advance_debug hr] at hi ⊢
      obtain ⟨hidle, hq⟩ | ⟨hidle, hs | hq⟩ := m.debug.propose_request (m.debugInput w)
      · rw [hq]
        exact h.port hidle
      · rw [hs, hidle] at hi
        cases hi
      · exact h.request _ hq

/-- It remains so as long as nothing else is requested. -/
theorem apply (h : m.Asks Q) {e : Stimulus} (he : ∀ q, e = .request q → Q q) :
    (m.apply e).Asks Q := by
  cases e with
  | tick =>
    unfold Machine.apply
    cases ht : m.tick with
    | error e => exact h
    | ok n =>
      obtain ⟨w, -, rfl⟩ := tick_eq_ok ht
      exact h.advance
  | reset level =>
    unfold Machine.apply setReset
    dsimp only
    split
    · exact ⟨h.request, nofun⟩
    · exact ⟨h.request, h.port⟩
  | request q => exact ⟨fun p hp => Option.some.inj hp ▸ he q rfl, h.port⟩
  | withdraw => exact ⟨nofun, h.port⟩
  | _ => exact ⟨h.request, h.port⟩

end Asks

/-- No access is requested or under way. -/
structure Unasked (m : Machine) : Prop where
  request : m.request = none
  idle : m.debug.isIdle = true

namespace Unasked

theorem asks (h : m.Unasked) {Q : DebugRequest → Prop} : m.Asks Q where
  request q hq := by
    rw [h.request] at hq
    cases hq
  port hi := by
    rw [h.idle] at hi
    cases hi

theorem of_asks (h : m.Asks fun _ => False) : m.Unasked where
  request := Option.eq_none_iff_forall_ne_some.2 h.request
  idle := eq_true_of_ne_false h.port

theorem apply (h : m.Unasked) {e : Stimulus} (he : ∀ q, e ≠ .request q) : (m.apply e).Unasked :=
  of_asks (h.asks.apply he)

/-- Whatever else happens, the port stays idle until something is requested. -/
theorem after {h : List Stimulus} (hm : m.Unasked) (he : ∀ e ∈ h, ∀ q, e ≠ .request q) :
    (m.after h).Unasked := by
  induction h generalizing m with
  | nil => exact hm
  | cons e h ih =>
    exact ih (hm.apply (he e List.mem_cons_self)) fun f hf => he f (List.mem_cons_of_mem _ hf)

end Unasked

/-! ## Accesses that are answered -/

/-- The machine with a debug access requested. -/
def asking (m : Machine) (q : DebugRequest) : Machine :=
  { m with request := some q, response := none }

/-- The port takes the request in the first of the cycles and holds on to it. -/
def Taken (q : DebugRequest) (ts : List Instant) : Prop :=
  ∃ t later, ts = t :: later ∧ t.machine.request = some q ∧ t.signals.debug.ready = true ∧
    ∀ u ∈ later, u.machine.debug.isIdle = false ∧ u.machine.debug.request = q

theorem Taken.concat {u : Instant} (h : Taken q ts) (hi : u.machine.debug.isIdle = false)
    (hq : u.machine.debug.request = q) : Taken q (ts ++ [u]) := by
  obtain ⟨t, later, rfl, ht, hr, hlater⟩ := h
  exact ⟨t, later ++ [u], rfl, ht, hr,
    List.forall_mem_append.2 ⟨hlater, List.forall_mem_singleton.2 ⟨hi, hq⟩⟩⟩

/-- One of the cycles settles what is answered to `q`. -/
def Known (q : DebugRequest) (ts : List Instant) (v : Word) (e : Bool) : Prop :=
  ∃ u ∈ ts, DebugPort.Answers q (u.machine.debugInput u.signals) v e

/-- In the cycles `ts` the access `q` is carried out, from its request at `m` to its answer. It
leaves the machine `n`. -/
structure Transaction (q : DebugRequest) (m : Machine) (ts : List Instant) (n : Machine) (v : Word)
    (e : Bool) : Prop where
  cycles : (m.asking q).cycles (.replicate ts.length .tick) = ts
  taken : Taken q ts
  known : Known q ts v e
  answered : ∃ before u, ts = before ++ [u] ∧ (∀ t ∈ before, t.signals.debug.valid = false) ∧
    u.signals.debug = { valid := true, data := v, error := e } ∧
    n = { u.next with response := none }
  unasked : n.Unasked

/-- In the cycle of its answer the port still holds the access. -/
theorem Transaction.answering {v : Word} {e : Bool} (h : Transaction q m ts n v e) :
    ∃ h' w, let k := (m.asking q).after h'
      k.reset = false ∧ k.Settled w ∧ k.debug.phase = .responding ∧ k.debug.request = q ∧
        n = { k.advance w with response := none } := by
  obtain ⟨before, u, hts, -, hanswer, hn⟩ := h.answered
  obtain ⟨hr, hw, h', hu, -⟩ := of_cycles_eq (h.cycles.trans hts)
  have hp : u.machine.debug.phase = .responding := by
    have hvalid := hw.debug_valid
    rw [hanswer] at hvalid
    exact beq_iff_eq.1 hvalid.symm
  have hreq : u.machine.debug.request = q := by
    obtain ⟨t, later, hts', -, hready, hlater⟩ := h.taken
    have hmem : u ∈ t :: later := by simp [← hts', hts]
    rcases List.mem_cons.1 hmem with rfl | hmem
    · rw [hanswer] at hready
      cases hready
    · exact (hlater u hmem).2
  refine ⟨h', u.signals, ?_⟩
  rw [hu]
  exact ⟨hr, hw, hp, hreq, hn⟩

/-- How far the access `q` has come after the cycles `ts`. -/
inductive Course (q : DebugRequest) (ts : List Instant) (k : Machine) : Prop
  | asked (hts : ts = []) (hp : k.debug.phase = .idle) (hq : k.request = some q)
  | underway (hts : Taken q ts) (hq : k.request = none) (hd : k.debug.request = q)
      (hu : k.debug.Underway)
  | known (hts : Taken q ts) (hq : k.request = none) (hd : k.debug.request = q)
      (hp : k.debug.phase = .responding) (ha : Known q ts k.debug.data k.debug.error)

/-- The machine `k` waits for the answer to `q` since the cycles `ts`. -/
structure Awaiting (q : DebugRequest) (m : Machine) (ts : List Instant) (k : Machine) : Prop where
  reset : k.reset = false
  response : k.response = none
  now : (m.asking q).after (.replicate ts.length .tick) = k
  cycles : (m.asking q).cycles (.replicate ts.length .tick) = ts
  silent : ∀ t ∈ ts, t.signals.debug.valid = false
  course : Course q ts k

theorem Awaiting.start (hr : m.reset = false) (hi : m.debug.isIdle = true) :
    Awaiting q m [] (m.asking q) where
  reset := hr
  response := rfl
  now := rfl
  cycles := rfl
  silent := fun _ h => nomatch h
  course := .asked rfl (beq_iff_eq.1 hi) rfl

theorem Course.of_serves (hts : Taken q ts) {u : Instant} (hu : u ∈ ts) (hq : k.request = none)
    (hs : DebugPort.Serves q (u.machine.debugInput u.signals) k.debug) : Course q ts k := by
  obtain ⟨hd, h | ⟨hp, ha⟩⟩ := hs
  · exact .underway hts hq hd h
  · exact .known hts hq hd hp ⟨u, hu, ha⟩

/-- A cycle of the wait: the access goes on, or it is answered. -/
theorem Course.step (h : Course q ts k) (hr : k.reset = false) (hw : k.Settled w) :
    w.debug.valid = false ∧ Course q (ts ++ [⟨k, w⟩]) (k.advance w) ∨
      Taken q (ts ++ [⟨k, w⟩]) ∧
        w.debug = { valid := true, data := k.debug.data, error := k.debug.error } ∧
        Known q ts k.debug.data k.debug.error ∧ (k.advance w).Unasked := by
  have hdebug := advance_debug (w := w) hr
  have hrequest := advance_request (w := w) hr
  have hmem : Instant.mk k w ∈ ts ++ [⟨k, w⟩] :=
    List.mem_append_right _ (List.mem_singleton_self _)
  cases h with
  | asked hts hp hq =>
    have hready : w.debug.ready = true := by rw [hw.debug_ready, DebugPort.isIdle, hp]; rfl
    refine .inl ⟨by rw [hw.debug_valid, hp]; rfl, .of_serves ?_ hmem ?_ ?_⟩
    · subst hts
      exact ⟨_, [], rfl, hq, hready, by simp⟩
    · rw [hrequest, if_pos hready]
    · have hin : (k.debugInput w).request = some q := hq
      rw [hdebug, DebugPort.propose, hp, hin]
      exact DebugPort.serves_accept ..
  | underway hts hq hd hu =>
    have hi : k.debug.isIdle = false := hu.isIdle
    have hv : w.debug.valid = false := by
      rw [hw.debug_valid]
      exact hu.not_responding
    refine .inl ⟨hv, .of_serves (hts.concat hi hd) hmem ?_ ?_⟩
    · rw [hrequest, hq, ite_self]
    · rw [hdebug, ← hd]
      exact hu.serves_propose
  | known hts hq hd hp ha =>
    have hi : k.debug.isIdle = false := by rw [DebugPort.isIdle, hp]; rfl
    refine .inr ⟨hts.concat hi hd, ?_, ha, ⟨?_, ?_⟩⟩
    · rw [hw.debug, DebugPort.output_of_responding hp]
    · rw [hrequest, hq, ite_self]
    · have hin : (k.debugInput w).ready = true := rfl
      rw [hdebug, DebugPort.propose, hp]
      simp [hin, DebugPort.isIdle]

/-- What an access returns. -/
def answer (q : DebugRequest) (v : Word) (e : Bool) : Except SimError Word :=
  if e then .error (.debugRejected q) else .ok v

theorem Awaiting.step (h : Awaiting q m ts k) (hw : k.settle = .ok w) :
    (k.advance w).response = none ∧ Awaiting q m (ts ++ [⟨k, w⟩]) (k.advance w) ∨
      ∃ r, (k.advance w).response = some r ∧
        Transaction q m (ts ++ [⟨k, w⟩]) { k.advance w with response := none } r.data r.error := by
  have hlen : (ts ++ [Instant.mk k w]).length = ts.length + 1 := by simp
  have hticks := cycles_tick (m := m.asking q) (h := .replicate ts.length .tick)
    (by rw [h.now]; exact h.reset) (by rw [h.now]; exact hw)
  rw [← List.replicate_succ', ← hlen, h.now, h.cycles] at hticks
  have hresponse := advance_response (w := w) h.reset
  obtain ⟨hv, hcourse⟩ | ⟨htaken, hdebug, hknown, hunasked⟩ :=
    h.course.step h.reset (settled_of_settle hw)
  · rw [hv, h.response] at hresponse
    refine .inl ⟨hresponse, ?_⟩
    exact
      { reset := advance_reset.trans h.reset
        response := hresponse
        now := hticks.1
        cycles := hticks.2
        silent := List.forall_mem_append.2 ⟨h.silent, List.forall_mem_singleton.2 hv⟩
        course := hcourse }
  · rw [hdebug] at hresponse
    obtain ⟨u, hu, ha⟩ := hknown
    refine .inr ⟨_, hresponse, ?_⟩
    exact
      { cycles := hticks.2
        taken := htaken
        known := ⟨u, List.mem_append_left _ hu, ha⟩
        answered := ⟨ts, _, rfl, h.silent, hdebug, rfl⟩
        unasked := ⟨hunasked.request, hunasked.idle⟩ }

theorem error_of_settle {e : SimError} (h : m.settle = .error e) :
    e = .combinationalLoop m.cycle maxEvaluations := by
  unfold settle at h
  split at h
  · cases h
  · exact (Except.error.inj h).symm

theorem error_of_tick {e : SimError} (h : m.tick = .error e) :
    e = .combinationalLoop m.cycle maxEvaluations := by
  unfold tick at h
  cases hs : m.settle with
  | error e' =>
    rw [hs] at h
    obtain rfl := Except.error.inj h
    exact error_of_settle hs
  | ok w =>
    rw [hs] at h
    cases h

/-- An access that is waited for is answered, or it fails otherwise. -/
theorem Awaiting.awaitDebug (h : Awaiting q m ts k) (fuel : Nat) :
    (∃ us v e, Transaction q m us (k.awaitDebug q fuel).1 v e ∧
      (k.awaitDebug q fuel).2 = answer q v e) ∨
    ∃ e, (k.awaitDebug q fuel).2 = .error e ∧ ∀ p, e ≠ .debugRejected p := by
  induction fuel generalizing k ts with
  | zero => exact .inr ⟨_, rfl, fun p => by simp⟩
  | succ fuel ih =>
    unfold Machine.awaitDebug Machine.tick
    cases hw : k.settle with
    | error e => exact .inr ⟨e, rfl, fun p => by rw [error_of_settle hw]; simp⟩
    | ok w =>
      dsimp only
      obtain ⟨hn, hk⟩ | ⟨r, hr, ht⟩ := h.step hw
      · rw [hn]
        exact ih hk
      · rw [hr]
        exact .inl ⟨_, _, _, ht, rfl⟩

/-! ## Accesses that are not taken -/

/-- The machine with no debug access requested. -/
def withdrawn (m : Machine) : Machine := { m with request := none }

/-- The port looks at a request only when it takes one. -/
theorem evaluate_withdrawn (m : Machine) (v : Signals) : m.withdrawn.evaluate v = m.evaluate v := by
  have hd : m.debug.output { m.debugInput v with request := none } =
      m.debug.output (m.debugInput v) :=
    DebugPort.output_congr _ rfl
  exact congrArg (fun d => { m.evaluate v with debug := d }) hd

theorem settle_withdrawn (m : Machine) : m.withdrawn.settle = m.settle := by
  have heq (fuel : Nat) (v : Signals) : m.withdrawn.settleFrom fuel v = m.settleFrom fuel v := by
    induction fuel generalizing v with
    | zero => rfl
    | succ fuel ih => simp only [settleFrom, evaluate_withdrawn, ih]
  unfold settle
  rw [heq]
  rfl

theorem next_debug_withdrawn (h : m.reset = true ∨ m.debug.isIdle = false) :
    DebugPort.clocked.next m.reset m.debug (m.withdrawn.debugInput w) =
      DebugPort.clocked.next m.reset m.debug (m.debugInput w) := by
  unfold Clocked.next
  obtain hr | hi := h
  · rw [hr]
    rfl
  · have hp : m.debug.propose (m.withdrawn.debugInput w) = m.debug.propose (m.debugInput w) := by
      unfold DebugPort.propose
      cases hp : m.debug.phase with
      | idle => simp [DebugPort.isIdle, hp] at hi
      | _ => rfl
    cases m.reset with
    | true => rfl
    | false => exact hp

/-- While the port takes no request, it makes no difference whether there is one. -/
theorem advance_withdrawn (h : m.reset = true ∨ m.debug.isIdle = false) :
    m.withdrawn.advance w = (m.advance w).withdrawn := by
  have hcommit : m.withdrawn.commit w = (m.commit w).withdrawn := by
    unfold withdrawn commit
    by_cases hr : m.reset = true
    · rw [if_pos hr, if_pos hr]
    · rw [if_neg hr, if_neg hr, ite_self]
      rfl
  unfold advance clock
  rw [hcommit]
  exact congrArg (fun d => { (m.advance w).withdrawn with debug := d }) (next_debug_withdrawn h)

theorem tick_withdrawn (h : m.reset = true ∨ m.debug.isIdle = false) :
    m.withdrawn.tick = m.tick.map withdrawn := by
  unfold tick
  rw [settle_withdrawn]
  cases m.settle with
  | error e => rfl
  | ok w => exact congrArg Except.ok (advance_withdrawn h)

/-- The port takes no request in so many cycles. -/
def Untaken (fuel : Nat) (m : Machine) : Prop :=
  m.reset = true ∨ ∀ t ∈ m.instants fuel, t.signals.debug.ready = false

theorem Untaken.step {fuel : Nat} (h : m.Untaken (fuel + 1)) (hn : m.tick = .ok n) :
    (m.reset = true ∨ m.debug.isIdle = false) ∧ n.Untaken fuel := by
  obtain ⟨w, hw, rfl⟩ := tick_eq_ok hn
  obtain rfl := hw.eq_settled
  obtain hr | h := h
  · exact ⟨.inl hr, .inl (advance_reset.trans hr)⟩
  · refine ⟨.inr ?_, .inr fun t ht => h t (List.mem_cons_of_mem _ ht)⟩
    rw [← hw.debug_ready]
    exact h _ (List.mem_cons_self ..)

/-- A request that is not taken and then given up has made no difference. -/
theorem awaitDebug_of_untaken {fuel : Nat} (h : m.Untaken fuel)
    (ht : (m.awaitDebug q fuel).2 = .error (.timeout "debug access" debugTimeout)) :
    (m.awaitDebug q fuel).1 = (m.withdrawn.ticks fuel).1 := by
  induction fuel generalizing m with
  | zero => rfl
  | succ fuel ih =>
    unfold Machine.awaitDebug at ht ⊢
    unfold ticks
    cases hn : m.tick with
    | error e =>
      rw [hn] at ht
      obtain rfl := Except.error.inj ht
      cases error_of_tick hn
    | ok n =>
      obtain ⟨hidle, hnext⟩ := h.step hn
      rw [tick_withdrawn hidle, hn]
      rw [hn] at ht
      dsimp only at ht ⊢
      cases hr : n.response with
      | none =>
        rw [hr] at ht
        exact ih hnext ht
      | some r =>
        rw [hr] at ht
        dsimp only at ht
        split at ht <;> cases ht

/-- While reset is high nothing is answered. -/
theorem awaitDebug_of_reset (fuel : Nat) (hr : m.reset = true) (hn : m.response = none) :
    ∃ e, (m.awaitDebug q fuel).2 = .error e ∧ (∀ p, e ≠ .debugRejected p) ∧
      (m.unitsStable = true → e = .timeout "debug access" debugTimeout) := by
  induction fuel generalizing m with
  | zero => exact ⟨_, rfl, fun p => by simp, fun _ => rfl⟩
  | succ fuel ih =>
    unfold Machine.awaitDebug
    cases ht : m.tick with
    | error e =>
      refine ⟨e, rfl, fun p => by rw [error_of_tick ht]; simp, fun hu => ?_⟩
      cases (tick_eq hu).symm.trans ht
    | ok n =>
      obtain ⟨w, -, rfl⟩ := tick_eq_ok ht
      have hresponse : (m.advance w).response = none := by
        simp [advance, clock, commit, hr, hn]
      obtain ⟨e, he, hne, hstable⟩ := ih (advance_reset.trans hr) hresponse
      dsimp only
      rw [hresponse]
      exact ⟨e, he, hne, fun hu => hstable (advance_unitsStable.trans hu)⟩

/-- A debug access is answered by the port's response to it if the port is idle when it begins, and
then it leaves the port idle. An access that is not answered in time has no effect, unless the port
has taken its request. -/
theorem debugAccess_transacts (q : DebugRequest) (m : Machine) :
    let n := (m.debugAccess q).1
    let r := (m.debugAccess q).2
    (m.debug.isIdle = true →
      (∀ v, r = .ok v → ∃ ts, Transaction q m ts n v false) ∧
      ∀ p, r = .error (.debugRejected p) → p = q ∧ ∃ ts v, Transaction q m ts n v true) ∧
    (r = .error (.timeout "debug access" debugTimeout) → (m.asking q).Untaken debugTimeout →
      n = (({ m with request := none, response := none } : Machine).ticks debugTimeout).1) := by
  intro n r
  refine ⟨fun hi => ?_, fun ht huntaken => awaitDebug_of_untaken huntaken ht⟩
  have hcases : (∃ ts v e, Transaction q m ts n v e ∧ r = answer q v e) ∨
      ∃ e, r = .error e ∧ ∀ p, e ≠ .debugRejected p := by
    cases hr : m.reset with
    | true =>
      obtain ⟨e, he, hne, -⟩ := awaitDebug_of_reset (m := m.asking q) (q := q) debugTimeout hr rfl
      exact .inr ⟨e, he, hne⟩
    | false => exact (Awaiting.start hr hi).awaitDebug debugTimeout
  obtain ⟨ts, v, e, ht, hr⟩ | ⟨e, hr, hne⟩ := hcases
  · cases e with
    | false =>
      refine ⟨fun v' hv => ?_, fun p hp => ?_⟩
      · obtain rfl : v = v' := Except.ok.inj (hr.symm.trans hv)
        exact ⟨ts, ht⟩
      · cases hr.symm.trans hp
    | true =>
      refine ⟨fun v' hv => ?_, fun p hp => ?_⟩
      · cases hr.symm.trans hv
      · have hpq : SimError.debugRejected q = .debugRejected p :=
          Except.error.inj (hr.symm.trans hp)
        exact ⟨(SimError.debugRejected.inj hpq).symm, ts, v, ht⟩
  · refine ⟨fun v hv => ?_, fun p hp => ?_⟩
    · cases hr.symm.trans hv
    · exact absurd (Except.error.inj (hr.symm.trans hp)) (hne p)

/-- A machine with 0x30 in register 5. -/
def inspected : Machine := (ofConfig {} {}).after [.register 5 0x30]

/-- Register 5 is read, and with reset high nothing is. -/
theorem debugAccess_transacts_inspected :
    let q : DebugRequest := { region := .registers, addr := 5 }
    let m := inspected.setReset true
    (inspected.debug.isIdle = true ∧ (inspected.debugAccess q).2 = .ok 0x30 ∧
      ∃ ts, Transaction q inspected ts (inspected.debugAccess q).1 0x30 false) ∧
    (m.debugAccess q).2 = .error (.timeout "debug access" debugTimeout) ∧
      (m.asking q).Untaken debugTimeout ∧
      (m.debugAccess q).1 = (({ m with request := none, response := none } : Machine).ticks
        debugTimeout).1 := by
  intro q m
  have hi : inspected.debug.isIdle = true := by decide
  have hv : (inspected.debugAccess q).2 = .ok 0x30 := by decide +kernel
  have ht : (m.debugAccess q).2 = .error (.timeout "debug access" debugTimeout) := by
    obtain ⟨e, he, -, hstable⟩ :=
      awaitDebug_of_reset (m := m.asking q) (q := q) debugTimeout rfl rfl
    exact he.trans (congrArg _ (hstable (by decide +kernel)))
  have hm : (m.asking q).Untaken debugTimeout := .inl rfl
  exact ⟨⟨hi, hv, ((debugAccess_transacts q inspected).1 hi).1 _ hv⟩, ht, hm,
    (debugAccess_transacts q m).2 ht hm⟩

/-! ## Accesses that are given up too late -/

theorem awaitDebug_succ (hu : m.unitsStable = true) (hn : (m.advance m.settled).response = none)
    (fuel : Nat) : m.awaitDebug q (fuel + 1) = (m.advance m.settled).awaitDebug q fuel := by
  rw [Machine.awaitDebug, tick_eq hu]
  dsimp only
  rw [hn]

/-- The port waits for the answer `x` to `p`, and the register file gives it in `d` cycles. -/
structure Owed (x : CsrResponse) (p : DebugRequest) (d : Nat) (m : Machine) : Prop where
  reset : m.reset = false
  stable : m.unitsStable = true
  response : m.response = none
  request : m.debug.request = p
  held : m.Held (some .debug)
  prepared : m.csr.prepared = x
  due : m.csr.due = d + 1

variable {x : CsrResponse} {d : Nat}

namespace Owed

theorem phase (h : Owed x p d m) : m.debug.phase = .csrResponse := (h.held.expects .debug).2 rfl

theorem response_advance (h : Owed x p d m) (hw : m.Settled w) : (m.advance w).response = none := by
  rw [advance_response h.reset, hw.debug_valid, h.phase]
  exact h.response

theorem exchange (h : Owed x p d m) (hw : m.Settled w) :
    ∃ y?, Instant.Exchange ⟨m, w⟩ (some .debug) y? ∧ (m.advance w).Held y? ∧
      (y? = none ↔ d = 0) := by
  obtain ⟨y?, he, hy⟩ := h.held.step h.reset hw
  refine ⟨y?, he, hy, fun hn => ?_, fun hd => ?_⟩
  · subst hn
    have := Held.due_of_answered he
    have := h.due
    omega
  · cases y? with
    | none => rfl
    | some y =>
      have hyx : y = .debug := by cases he; rfl
      subst hyx
      have hdue := (Held.file_of_busy h.reset he).2
      rw [h.due, hd] at hdue
      have hidle := hy.file.1 (CsrFile.due_eq_zero.1 (by omega))
      cases hidle

theorem busy (h : Owed x p (d + 1) m) (hw : m.Settled w) : Owed x p d (m.advance w) := by
  obtain ⟨y?, he, hy, hd⟩ := h.exchange hw
  cases y? with
  | none => cases hd.1 rfl
  | some y =>
    have hyx : y = .debug := by cases he; rfl
    subst hyx
    obtain ⟨hp, hdue⟩ := Held.file_of_busy h.reset he
    exact
      { reset := advance_reset.trans h.reset
        stable := advance_unitsStable.trans h.stable
        response := h.response_advance hw
        request := by
          rw [advance_debug h.reset, DebugPort.propose, h.phase]
          dsimp only
          split <;> exact h.request
        held := hy
        prepared := hp.trans h.prepared
        due := by have := h.due; omega }

/-- The register file answers, and the port passes the answer on as one to whatever is requested
now. -/
theorem answered (h : Owed x p 0 m) (hw : m.Settled w) : (m.advance w).debug =
    { phase := .responding, request := p, data := x.data, error := x.exception } := by
  obtain ⟨y?, he, -, hd⟩ := h.exchange hw
  obtain rfl := hd.2 rfl
  cases he with
  | answered _ _ _ _ hr =>
    have hcsr : (m.debugInput w).csr = x := hr.trans h.prepared
    have hvalid : x.valid = true := by rw [← h.prepared]; rfl
    rw [advance_debug h.reset, DebugPort.propose, h.phase]
    simp [hcsr, hvalid, h.request]

/-- A request makes no difference to what is on its way. -/
theorem of_request (h : Owed x p d m) (r : Option DebugRequest) :
    Owed x p d { m with request := r, response := none } := by
  obtain ⟨h1, h2, -, h4, h5, h6, h7⟩ := h
  exact ⟨h1, h2, rfl, h4, ⟨h5.1, h5.2, h5.3, h5.4⟩, h6, h7⟩

/-- The port still waits after an access that is given up. -/
theorem awaitDebug {fuel : Nat} (h : Owed x p d m) (hf : fuel ≤ d) :
    (m.awaitDebug q fuel).2 = .error (.timeout "debug access" debugTimeout) ∧
      Owed x p (d - fuel) (m.awaitDebug q fuel).1 := by
  induction fuel generalizing m d with
  | zero =>
    have hr := h.response
    refine ⟨rfl, ?_⟩
    have hn := h.of_request none
    rwa [← hr] at hn
  | succ fuel ih =>
    cases d with
    | zero => omega
    | succ d =>
      have hb := h.busy settled_settled
      rw [awaitDebug_succ h.stable hb.response, Nat.succ_sub_succ]
      exact ih hb (Nat.le_of_succ_le_succ hf)

/-- Whatever is requested next is answered with what the port has been waiting for. -/
theorem awaitDebug_eq {fuel : Nat} (h : Owed x p d m) (hf : d + 2 ≤ fuel) :
    (m.awaitDebug q fuel).2 = answer q x.data x.exception := by
  induction d generalizing m fuel with
  | zero =>
    obtain ⟨fuel, rfl⟩ := Nat.exists_eq_add_of_le' hf
    have hdebug := h.answered settled_settled
    have hresponse := h.response_advance settled_settled
    have hr := advance_reset (m := m) (w := m.settled) |>.trans h.reset
    have hu := advance_unitsStable (m := m) (w := m.settled) |>.trans h.stable
    generalize hk : m.advance m.settled = k at *
    have hnext : (k.advance k.settled).response =
        some { valid := true, data := x.data, error := x.exception } := by
      have hout := (settled_settled (m := k)).debug
      rw [hdebug, DebugPort.output_of_responding rfl] at hout
      rw [advance_response hr, hout]
      rfl
    rw [awaitDebug_succ h.stable (hk ▸ hresponse), hk, Machine.awaitDebug, tick_eq hu]
    dsimp only
    rw [hnext]
    rfl
  | succ d ih =>
    obtain ⟨fuel, rfl⟩ := Nat.exists_eq_add_of_le' (Nat.le_trans (Nat.le_add_left 1 _) hf)
    have hb := h.busy settled_settled
    rw [awaitDebug_succ h.stable hb.response]
    exact ih hb (by omega)

end Owed

/-- A register file that takes longer than an access may. -/
def slow : Machine := ofConfig { csr := { latency := 1500 } } {}

/-- An access to it is given up, and the next one, which is to a register, is answered with what
the register file has to say. -/
theorem stale_answer_slow :
    let p : DebugRequest := { region := .csr, addr := 0x301 }
    let q : DebugRequest := { region := .registers, addr := 5 }
    let n := (slow.debugAccess p).1
    slow.Reachable ∧ n.Reachable ∧
      (slow.debugAccess p).2 = .error (.timeout "debug access" debugTimeout) ∧
      n.debug.request = p ∧ n.debug.phase = .csrResponse ∧
      (n.debugAccess q).2 = .ok 0x8000000000001128 := by
  intro p q n
  have hslow : slow.Reachable :=
    ⟨fun _ => true, { csr := { latency := 1500 } }, {}, slow, [], rfl, rfl⟩
  let first := (slow.asking p).advance (slow.asking p).settled
  let second := first.advance first.settled
  let x : CsrResponse := { valid := true, data := 0x8000000000001128 }
  have howed : Owed x p 1499 second :=
    { reset := by decide +kernel
      stable := by decide +kernel
      response := by decide +kernel
      request := by decide +kernel
      held :=
        { acquired := by decide +kernel
          owner := fun y hy => Option.some.inj hy ▸ by decide +kernel
          file := by decide +kernel
          expects := fun y => by cases y <;> unfold Expects <;> decide +kernel }
      prepared := by decide +kernel
      due := by decide +kernel }
  have hsteps : slow.debugAccess p = second.awaitDebug p 998 := by
    show (slow.asking p).awaitDebug p (998 + 1 + 1) = _
    rw [awaitDebug_succ (by decide +kernel) (by decide +kernel),
      awaitDebug_succ (by decide +kernel) (by decide +kernel)]
  obtain ⟨htimeout, hn⟩ := howed.awaitDebug (q := p) (show 998 ≤ 1499 by decide)
  rw [← hsteps] at htimeout hn
  replace hn : Owed x p 501 n := hn
  have hrequest : n.debug.request = p := hn.request
  have hphase : n.debug.phase = .csrResponse := hn.phase
  have hanswer : ((n.asking q).awaitDebug q debugTimeout).2 = answer q x.data x.exception :=
    (hn.of_request (some q)).awaitDebug_eq (by unfold debugTimeout; omega)
  exact ⟨hslow, hslow.debugAccess p, htimeout, hrequest, hphase, hanswer⟩

end RiscvPipeline.Machine
