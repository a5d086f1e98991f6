import Mathlib.Logic.Function.Iterate
import RiscvPipeline.Machine.Step
import RiscvPipeline.Proofs.Execute.Outcome
import RiscvPipeline.Proofs.Memory.Access

/-!
# The signals of a cycle settle, and in one way only

Every signal has a depth: the number of evaluations after which it no longer depends on where the
evaluation started. The deepest one, the register write of the debug port, has depth five. Hence
five evaluations forget the start (`iterate_evaluate_eq`), there is exactly one set of signals that
is in agreement with the components, and it is reached from everywhere, whether all components are
evaluated at once or one after the other.
-/

namespace RiscvPipeline

/-! ## Outputs that depend on the state alone -/

theorem FunctionalUnit.response_eq (u : FunctionalUnit) (q q' : UnitRequest) :
    u.response q = u.response q' := by
  cases u <;> rfl

theorem TrapController.output_redirect (s : TrapController) (i : Input) :
    (s.output i).redirect = s.pending.map fun _ => i.vector := by
  unfold output
  cases s.pending <;> rfl

theorem TrapController.output_congr (s : TrapController) {i j : Input} (hr : i.ready = j.ready)
    (hv : i.vector = j.vector) (hn : i.npc = j.npc) : s.output i = s.output j := by
  unfold output
  cases s.pending with
  | none => rfl
  | some t => rw [hr, hv, hn]

namespace MemoryAccess

/-- The stage drives the same whatever it is handed. -/
theorem step_congr (s : MemoryAccess) {i j : Input} (hf : i.flush = j.flush)
    (hw : i.writeReady = j.writeReady) (hb : i.bus = j.bus) : (s.step i).2 = (s.step j).2 := by
  have advance_op (o : Output) : s.advance { i with op := j.op } o = s.advance i o := rfl
  have : { i with op := j.op } = j := by
    cases i; cases j
    simp_all
  unfold step
  dsimp only
  rw [← advance_op, this]

end MemoryAccess

namespace DebugPort

/-- Only the register write depends on what the port sees. -/
theorem output_eq (s : DebugPort) (i j : Input) :
    s.output i = { s.output j with registerWrite := (s.output i).registerWrite } := by
  unfold output
  cases s.phase <;> try rfl
  cases s.request.region <;> rfl

theorem output_congr (s : DebugPort) {i j : Input} (hw : i.writeReady = j.writeReady) :
    s.output i = s.output j := by
  unfold output
  rw [hw]

end DebugPort

namespace Machine

variable (m : Machine)

/-! ## Agreement up to a depth -/

/-- The components, by what they drive. -/
inductive Driver
  | execute
  | access
  | units
  | bus
  | csr
  | memory
  | trap
  | debug
  deriving DecidableEq

/-- Of what a component drives, `v` shows those signals as `w` does that are no deeper than `k`. -/
def Agrees (w v : Signals) (k : Nat) : Driver → Prop
  | .execute =>
    (1 ≤ k → v.execute.readIndex1 = w.execute.readIndex1 ∧
      v.execute.readIndex2 = w.execute.readIndex2 ∧ v.execute.csr = w.execute.csr) ∧
    (2 ≤ k → v.execute.trapReady = w.execute.trapReady ∧ v.execute.flush = w.execute.flush) ∧
    (4 ≤ k → v.execute = w.execute)
  | .access => (1 ≤ k → v.access.ready = w.access.ready) ∧ (3 ≤ k → v.access = w.access)
  | .units => 1 ≤ k → v.units = w.units
  | .bus => 2 ≤ k → v.bus = w.bus
  | .csr => 1 ≤ k → v.csr = w.csr
  | .memory => 1 ≤ k → v.memory = w.memory
  | .trap => (1 ≤ k → v.trap.redirect = w.trap.redirect) ∧ (3 ≤ k → v.trap = w.trap)
  | .debug =>
    (1 ≤ k → v.debug.csr = w.debug.csr ∧ v.debug.npcWrite = w.debug.npcWrite) ∧
    (5 ≤ k → v.debug = w.debug)

/-- The greatest depth of a signal. -/
def depth : Nat := 5

variable {m} {v w : Signals} {k : Nat}

theorem agrees_zero (d : Driver) : Agrees w v 0 d := by
  cases d <;> simp [Agrees]

theorem Agrees.mono {j : Nat} {d : Driver} (h : Agrees w v k d) (hj : j ≤ k) :
    Agrees w v j d := by
  cases d with
  | execute =>
    exact ⟨fun hk => h.1 (by omega), fun hk => h.2.1 (by omega), fun hk => h.2.2 (by omega)⟩
  | access | trap | debug => exact ⟨fun hk => h.1 (by omega), fun hk => h.2 (by omega)⟩
  | units | bus | csr | memory => exact fun hk => h (by omega)

theorem eq_of_agrees (h : ∀ d, Agrees w v depth d) : v = w := by
  obtain ⟨_, _, he⟩ := h .execute
  obtain ⟨_, ha⟩ := h .access
  obtain ⟨_, ht⟩ := h .trap
  obtain ⟨_, hd⟩ := h .debug
  have hu : 1 ≤ depth → v.units = w.units := h .units
  have hb : 2 ≤ depth → v.bus = w.bus := h .bus
  have hc : 1 ≤ depth → v.csr = w.csr := h .csr
  have hm : 1 ≤ depth → v.memory = w.memory := h .memory
  cases v; cases w
  simp_all [depth]

/-! ## One evaluation goes one step deeper -/

section

variable (h : ∀ d, Agrees w v k d)
include h

theorem agrees_execute : Agrees (m.evaluate w) (m.evaluate v) (k + 1) .execute := by
  have hw := Execute.step_wired (s := m.execute) (i := m.executeInput w)
  have hv := Execute.step_wired (s := m.execute) (i := m.executeInput v)
  refine ⟨fun _ => ?_, fun hk => ?_, fun hk => ?_⟩
  · exact ⟨hv.readIndex1.trans hw.readIndex1.symm, hv.readIndex2.trans hw.readIndex2.symm,
      hv.bus.trans hw.bus.symm⟩
  · have ht : v.trap.redirect = w.trap.redirect := (h .trap).1 (by omega)
    have : (m.executeInput v).trap = (m.executeInput w).trap := ht
    exact ⟨by rw [evaluate, evaluate]; exact hv.trapReady.trans (this ▸ hw.trapReady.symm),
      by rw [evaluate, evaluate]; exact hv.flush.trans (this ▸ hw.flush.symm)⟩
  · obtain ⟨h1, h2, _⟩ := (h .execute).1 (by omega)
    have ha : v.access = w.access := (h .access).2 (by omega)
    have hb : v.bus = w.bus := (h .bus : 2 ≤ k → _) (by omega)
    have hu : v.units = w.units := (h .units : 1 ≤ k → _) (by omega)
    have ht : v.trap.redirect = w.trap.redirect := (h .trap).1 (by omega)
    obtain ⟨_, hn⟩ := (h .debug).1 (by omega)
    have : m.executeInput v = m.executeInput w := by
      simp only [executeInput, h1, h2, ha, hb, hu, ht, hn]
    simp only [evaluate, this]

theorem agrees_access : Agrees (m.evaluate w) (m.evaluate v) (k + 1) .access := by
  refine ⟨fun _ => ?_, fun hk => ?_⟩
  · exact (m.access.step_ready _).trans (m.access.step_ready _).symm
  · obtain ⟨_, hf⟩ := (h .execute).2.1 (by omega)
    have hm : v.memory = w.memory := (h .memory : 1 ≤ k → _) (by omega)
    exact m.access.step_congr hf rfl hm

theorem agrees_trap : Agrees (m.evaluate w) (m.evaluate v) (k + 1) .trap := by
  refine ⟨fun _ => ?_, fun hk => ?_⟩
  · exact (m.trap.output_redirect (m.trapInput v)).trans
      (m.trap.output_redirect (m.trapInput w)).symm
  · obtain ⟨hr, _⟩ := (h .execute).2.1 (by omega)
    exact m.trap.output_congr hr rfl rfl

theorem agrees_debug : Agrees (m.evaluate w) (m.evaluate v) (k + 1) .debug := by
  have heq := m.debug.output_eq (m.debugInput v) (m.debugInput w)
  refine ⟨fun _ => ?_, fun hk => ?_⟩
  · exact ⟨congrArg (·.csr) heq, congrArg (·.npcWrite) heq⟩
  · have ha : v.access = w.access := (h .access).2 (by omega)
    have he : v.execute = w.execute := (h .execute).2.2 (by omega)
    exact m.debug.output_congr (by simp only [debugInput, ha, he])

/-- After one more evaluation the agreement goes one step deeper. -/
theorem agrees_evaluate (d : Driver) : Agrees (m.evaluate w) (m.evaluate v) (k + 1) d := by
  cases d with
  | execute => exact agrees_execute h
  | access => exact agrees_access h
  | trap => exact agrees_trap h
  | debug => exact agrees_debug h
  | csr | memory => exact fun _ => rfl
  | units =>
    intro _
    simp only [evaluate]
    congr 1
    funext s
    exact FunctionalUnit.response_eq ..
  | bus =>
    intro hk
    obtain ⟨_, _, he⟩ := (h .execute).1 (by omega)
    obtain ⟨hd, _⟩ := (h .debug).1 (by omega)
    have hc : v.csr = w.csr := (h .csr : 1 ≤ k → _) (by omega)
    simp only [evaluate, arbiterInput, he, hd, hc]

end

/-! ## All components at once -/

theorem agrees_iterate (k : Nat) (d : Driver) :
    Agrees (m.evaluate^[k] w) (m.evaluate^[k] v) k d := by
  induction k generalizing d with
  | zero => exact agrees_zero d
  | succ k ih =>
    rw [Function.iterate_succ_apply', Function.iterate_succ_apply']
    exact agrees_evaluate ih d

variable (m) in
/-- The signals in which the evaluation ends. -/
def settled : Signals := m.evaluate^[depth] {}

/-- As many evaluations as the greatest depth forget where they started. -/
theorem iterate_evaluate_eq (v : Signals) : m.evaluate^[depth] v = m.settled :=
  eq_of_agrees (agrees_iterate depth)

theorem settled_settled : m.Settled m.settled := by
  have := iterate_evaluate_eq (m := m) (m.evaluate {})
  rwa [← Function.iterate_succ_apply, Function.iterate_succ_apply'] at this

/-- There are no other signals in agreement with the components. -/
theorem Settled.eq_settled (h : m.Settled v) : v = m.settled := by
  rw [← iterate_evaluate_eq v]
  exact (Function.iterate_fixed h depth).symm

theorem settleFrom_of_iterate {fuel : Nat} (hk : k < fuel) (h : m.evaluate^[k] v = m.settled) :
    m.settleFrom fuel v = some m.settled := by
  induction fuel generalizing k v with
  | zero => omega
  | succ fuel ih =>
    simp only [settleFrom]
    split
    next hv => rw [Settled.eq_settled (m := m) hv]
    next hv =>
      cases k with
      | zero =>
        rw [Function.iterate_zero_apply] at h
        exact absurd (h ▸ settled_settled) hv
      | succ k =>
        rw [Function.iterate_succ_apply] at h
        exact ih (Nat.lt_of_succ_lt_succ hk) h

/-- Whatever signals the evaluation starts from, it ends before its budget is spent. -/
theorem settleFrom_eq (v : Signals) : m.settleFrom maxEvaluations v = some m.settled :=
  settleFrom_of_iterate (k := depth) (by decide) (iterate_evaluate_eq v)

theorem settle_eq (hu : m.unitsStable = true) : m.settle = .ok m.settled := by
  unfold settle
  rw [if_pos hu, settleFrom_eq]

theorem tick_eq (hu : m.unitsStable = true) : m.tick = .ok (m.advance m.settled) := by
  simp only [tick, settle_eq hu]

/-! ## One component after the other -/

variable (m) in
/-- Evaluates one component and leaves what the others drive. -/
def drive (v : Signals) : Driver → Signals
  | .execute => { v with execute := (m.evaluate v).execute }
  | .access => { v with access := (m.evaluate v).access }
  | .units => { v with units := (m.evaluate v).units }
  | .bus => { v with bus := (m.evaluate v).bus }
  | .csr => { v with csr := (m.evaluate v).csr }
  | .memory => { v with memory := (m.evaluate v).memory }
  | .trap => { v with trap := (m.evaluate v).trap }
  | .debug => { v with debug := (m.evaluate v).debug }

theorem agrees_drive_self {d : Driver} :
    Agrees w (m.drive v d) k d ↔ Agrees w (m.evaluate v) k d := by
  cases d <;> rfl

theorem agrees_drive_other {d d' : Driver} (h : d' ≠ d) :
    Agrees w (m.drive v d) k d' ↔ Agrees w v k d' := by
  cases d <;> cases d' <;> first | rfl | exact absurd rfl h

/-- Evaluating a component does not undo what others have reached, and takes its own signals one
step deeper. -/
theorem agrees_drive (h : ∀ d, Agrees m.settled v k d) (d d' : Driver)
    (hd : d' = d ∨ Agrees m.settled v (k + 1) d') :
    Agrees m.settled (m.drive v d) (k + 1) d' := by
  by_cases hdd : d' = d
  · subst hdd
    rw [agrees_drive_self, ← settled_settled (m := m)]
    exact agrees_evaluate h d'
  · rw [agrees_drive_other hdd]
    exact hd.resolve_left hdd

theorem agrees_drive_all (h : ∀ d, Agrees m.settled v k d) (d d' : Driver) :
    Agrees m.settled (m.drive v d) k d' := by
  by_cases hdd : d' = d
  · exact (agrees_drive h d d' (.inl hdd)).mono (Nat.le_succ k)
  · exact (agrees_drive_other hdd).2 (h d')

/-- Evaluates components one after the other. -/
def sweep (m : Machine) (v : Signals) (order : List Driver) : Signals := order.foldl m.drive v

theorem agrees_sweep (order : List Driver) (h : ∀ d, Agrees m.settled v k d) :
    (∀ d, Agrees m.settled (m.sweep v order) k d) ∧
      ∀ d, (d ∈ order ∨ Agrees m.settled v (k + 1) d) →
        Agrees m.settled (m.sweep v order) (k + 1) d := by
  induction order generalizing v with
  | nil => exact ⟨h, fun d hd => hd.resolve_left (List.not_mem_nil)⟩
  | cons c order ih =>
    obtain ⟨h1, h2⟩ := ih (v := m.drive v c) (agrees_drive_all h c)
    refine ⟨h1, fun d hd => h2 d ?_⟩
    rcases hd with hd | hd
    · rcases List.mem_cons.mp hd with rfl | hd
      · exact .inr (agrees_drive h d d (.inl rfl))
      · exact .inl hd
    · exact .inr (agrees_drive h c d (.inr hd))

/-- Every round in which no component is left out goes one step deeper. -/
theorem agrees_rounds (rounds : List (List Driver)) (hr : ∀ r ∈ rounds, ∀ d, d ∈ r)
    (h : ∀ d, Agrees m.settled v k d) (d : Driver) :
    Agrees m.settled (m.sweep v rounds.flatten) (k + rounds.length) d := by
  induction rounds generalizing v k with
  | nil => exact h d
  | cons r rounds ih =>
    have h1 := fun d => (agrees_sweep r h).2 d (.inl (hr r List.mem_cons_self d))
    have h2 := ih (fun r h => hr r (List.mem_cons_of_mem _ h)) h1
    rw [List.flatten_cons, sweep, List.foldl_append, List.length_cons]
    rwa [Nat.add_assoc, Nat.add_comm 1] at h2

theorem sweep_rounds {rounds : List (List Driver)} (hr : ∀ r ∈ rounds, ∀ d, d ∈ r)
    (hn : depth ≤ rounds.length) (v : Signals) : m.sweep v rounds.flatten = m.settled :=
  eq_of_agrees fun d =>
    (agrees_rounds rounds hr (fun d => agrees_zero (v := v) d) d).mono (by omega)

/-- The signals of a machine with proper units settle within the budget. No other signals are in
agreement with the components, so neither the signals that the evaluation starts from nor the order
in which the components are evaluated makes a difference. -/
theorem settle_converges (hu : ∀ s, ∃ u, m.units.get s = .latency u) :
    ∃ w, m.settle = .ok w ∧ m.tick = .ok (m.advance w) ∧ m.Settled w ∧
      (∀ v, m.Settled v → v = w) ∧
      (∀ v, m.settleFrom maxEvaluations v = some w) ∧
      ∀ (v : Signals) (rounds : List (List Driver)), (∀ r ∈ rounds, ∀ d, d ∈ r) →
        depth ≤ rounds.length → m.sweep v rounds.flatten = w := by
  have hs : m.unitsStable = true := by
    obtain ⟨u, hmul⟩ := hu .mul
    obtain ⟨u', hdiv⟩ := hu .div
    obtain ⟨u'', hfpu⟩ := hu .fpu
    simp only [PerSlot.get] at hmul hdiv hfpu
    simp [unitsStable, PerSlot.any, hmul, hdiv, hfpu, FunctionalUnit.isStable]
  exact ⟨m.settled, settle_eq hs, tick_eq hs, settled_settled, fun v hv => hv.eq_settled,
    settleFrom_eq, fun v rounds hr hn => sweep_rounds hr hn v⟩

/-- A machine whose debug port is about to write the register that its first instruction writes. -/
def contended : Machine :=
  { ofConfig {}
      { instructions := #[{ pc := resetVector, word := 0x00500093, opcode := .addi }] } with
    request := some { region := .registers, addr := 1, write := true, wdata := 7 }
    debug := { phase := .access
               request := { region := .registers, addr := 1, write := true, wdata := 7 } } }

theorem settle_converges_contended :
    (∀ s, ∃ u, contended.units.get s = .latency u) ∧ ∃ w, contended.settle = .ok w ∧
      w.execute.write.enable = true ∧ w.debug.registerWrite = none := by
  have hu : ∀ s, ∃ u, contended.units.get s = .latency u := by
    intro s
    cases s <;> exact ⟨_, rfl⟩
  refine ⟨hu, ?_⟩
  obtain ⟨w, hw, _, _, hun, _, _⟩ := settle_converges hu
  exact ⟨w, hw, by rw [← hun contended.settled settled_settled]; decide +kernel,
    by rw [← hun contended.settled settled_settled]; decide +kernel⟩

end Machine

end RiscvPipeline
