import RiscvPipeline.Proofs.Execute.Continuation
import RiscvPipeline.Proofs.Instants

/-!
# Where an interrupted program goes on

The return address of an interrupt is the next program counter of the execute stage. The machine
without the interrupt goes on there, whatever is under way, unless the stage has accepted a return
from a trap whose answer is still to come: the next program counter is not yet the address to which
the program returns, and the interrupt has the answer ignored. `Machine.interrupt_resumes` says in
all cases where the machine goes on.
-/

namespace RiscvPipeline

namespace Execute

/-- A return from a trap has been accepted, and the bus has not answered. -/
def State.Returning (s : State) : Prop :=
  s.phase = .single ∧ s.csr.phase ≠ .idle ∧ s.current.opcode.any (·.cls == .trapReturn) = true

variable {s : Execute} {i : Input}

instance (s : State) : Decidable s.Returning := inferInstanceAs (Decidable (_ ∧ _ ∧ _))

theorem returned?_of_not_returning (h : ¬ s.state.Returning) : s.returned? i = none := by
  unfold returned?
  split
  next hc =>
    rw [Option.bind_eq_none_iff]
    intro q hq
    refine absurd ⟨hc.1, ?_, hc.2⟩ h
    rw [(csrResponse?_eq_some hq).1]
    simp
  next => rfl

attribute [local simp] opening_eq Cycle.trap Cycle.occupied Cycle.ready Cycle.raise Cycle.accept
  Cycle.keep Cycle.complete_eq Cycle.unitDone_eq Cycle.accessCsr Cycle.command Cycle.writeCsr

/-- What is under way becomes a return from a trap only when one is accepted. -/
theorem returning_of_step (hc : s.state.BusFits) (hv : (s.step i).out.valid = false)
    (h : (s.step i).next.Returning) : s.state.Returning := by
  obtain ⟨hp, hb, ho⟩ := h
  have hs := step_outcome (s := s) (i := i)
  generalize s.step i = c at hs hv hp hb ho
  cases hs with
  | trapped => simp at hp
  | running _ hm => simp [hm] at hp
  | parked _ _ hi => simp [transactionLeft_idle hi, hi] at hb
  | finished _ _ _ hm =>
    have hi := hc.idle_of_multi hm
    simp [transactionLeft_idle hi, hi] at hb
  | pending _ hs hi => exact ⟨hs, hi, by simpa using ho⟩
  | answered _ _ _ hs hi _ ha =>
    refine ⟨hs, hi, ?_⟩
    cases ha with
    | ended | rejected | returned => simp at hp
    | rewrite => simpa using ho
    | completed =>
      rw [Cycle.complete_current] at ho
      split at ho <;> simpa using ho
  | passed p b _ _ hn => exact absurd hp hn.ne_single
  | accepted _ _ _ _ _ ha => cases ha <;> simp at hv

/-- Nothing of a return from a trap is left when the bus has answered it. -/
theorem not_returning_of_returned {y : Word} (hy : s.returned? i = some y) :
    ¬ (s.step i).next.Returning := by
  rintro ⟨hp, -, -⟩
  have hsingle : s.state.phase = .single := by
    by_contra hne
    exact nomatch (returned?_of_ne_single hne).symm.trans hy
  have hs := step_outcome (s := s) (i := i)
  generalize s.step i = c at hs hp
  cases hs with
  | trapped => simp at hp
  | running _ hm | finished _ _ _ hm => exact nomatch hsingle.symm.trans hm
  | parked _ _ hi =>
    have hq : Cycle.csrResponse? s.state i = none := by simp [Cycle.csrResponse?, hi]
    exact nomatch (returned?_eq_none hq).symm.trans hy
  | pending _ _ _ hq => exact nomatch (returned?_eq_none hq).symm.trans hy
  | passed p b _ ho | accepted d c _ ho => exact ho.ne_single hsingle
  | answered q c _ _ _ _ ha =>
    cases ha with
    | ended | rejected | returned => simp at hp
    | rewrite o ho hx hd | completed o v ho hx hd => simp [returned?, ho, hd] at hy

end Execute

namespace Instant

/-- The address that the bus answers to a return from a trap, or that a debug access sets. -/
def redirect? (t : Instant) : Option Word :=
  (t.machine.execute.returned? (t.machine.executeInput t.signals)).or t.signals.debug.npcWrite

/-- Where the execute stage goes on from `pc` after cycles that accept no instruction and take no
trap. -/
def redirected (pc : Word) (ts : List Instant) : Word :=
  ts.foldl (fun pc t => t.redirect?.getD pc) pc

theorem redirected_of_none {pc : Word} {ts : List Instant} (h : ∀ t ∈ ts, t.redirect? = none) :
    redirected pc ts = pc := by
  induction ts with
  | nil => rfl
  | cons t ts ih =>
    obtain ⟨ht, hts⟩ := List.forall_mem_cons.1 h
    unfold redirected at ih ⊢
    rw [List.foldl_cons, ht]
    exact ih hts

end Instant

namespace Machine

variable {m : Machine} {w : Signals}

theorem controlled_of_reachable (hm : m.Reachable) : m.execute.state.Controlled := by
  refine hm.holds (P := fun m => m.execute.state.Controlled) ?_ ?_ ?_
  · intro m n hr
    rw [hr.execute]
    exact .initial
  · intro m n hu hm
    rwa [hu.execute]
  · intro m w hr _ hm
    rw [advance_execute hr]
    exact hm.step

/-- The machine without the trap that is pending and the interrupt that is requested. -/
def untrapped (m : Machine) : Machine := { m with trap.pending := none, trap.latched := none }

/-- A cycle that accepts no instruction and takes no trap. -/
structure Passes (t : Instant) : Prop where
  traps : t.traps = false
  accepted : t.accepted? = none

instance (t : Instant) : Decidable (Passes t) :=
  decidable_of_iff (t.traps = false ∧ t.accepted? = none)
    ⟨fun h => ⟨h.1, h.2⟩, fun h => ⟨h.traps, h.accepted⟩⟩

theorem accepted?_eq (hw : m.Settled w) :
    Instant.accepted? ⟨m, w⟩ = m.execute.accepted? (m.executeInput w) := by
  unfold Instant.accepted? Execute.accepted?
  rw [← hw.execute]
  rfl

theorem advance_npc (hr : m.reset = false) (hw : m.Settled w) (h : Passes ⟨m, w⟩) :
    (m.advance w).execute.state.npc = (Instant.redirect? ⟨m, w⟩).getD m.execute.state.npc := by
  have ht : (m.executeInput w).trap = none := by
    have ht : w.execute.trapReady = false := h.traps
    rw [hw.trapReady, ← hw.isSome_redirect] at ht
    exact Option.isSome_eq_false_iff.1 ht |> Option.isNone_iff_eq_none.1
  have ha : m.execute.accepted? (m.executeInput w) = none := accepted?_eq hw ▸ h.accepted
  rw [advance_execute hr]
  show (m.execute.step (m.executeInput w)).next.npc = _
  rw [Execute.step_npc, Execute.redirect?, ht, ha]
  rfl

theorem advance_npc_of_traps (hr : m.reset = false) (hw : m.Settled w)
    (ht : Instant.traps ⟨m, w⟩ = true) : (m.advance w).execute.state.npc = m.csr.trapVector := by
  have hp : w.execute.trapReady = true := ht
  rw [hw.trapReady, Option.isSome_iff_exists] at hp
  obtain ⟨c, hp⟩ := hp
  have hredirect : (m.executeInput w).trap = some m.csr.trapVector := by
    show w.trap.redirect = _
    rw [hw.redirect, hp]
    rfl
  rw [advance_execute hr]
  show (m.execute.step (m.executeInput w)).next.npc = _
  rw [Execute.step_npc, Execute.redirect?, hredirect]
  rfl

theorem epc_of_taken {c : Trap} (hw : m.Settled w) (ht : w.trap.taken = some c)
    (hi : c.isInterrupt = true) : c.epc = m.execute.state.npc := by
  rw [hw.trap] at ht
  unfold TrapController.output at ht
  cases hp : m.trap.pending with
  | none => simp [hp] at ht
  | some t =>
    simp only [hp] at ht
    split at ht
    · obtain rfl := Option.some.inj ht
      split at hi
      next hx =>
        rw [if_pos hx]
        rfl
      next hx => exact absurd hi hx
    · cases ht

/-- Where the machine `k` goes on that comes about from `m` by the cycles `ts`. -/
structure Resuming (m : Machine) (k : Machine) (ts : List Instant) : Prop where
  fits : k.execute.state.BusFits
  npc : k.execute.state.npc = Instant.redirected m.execute.state.npc ts
  returning : ¬ m.execute.state.Returning → ¬ k.execute.state.Returning
  redirect : ¬ m.execute.state.Returning → ∀ u ∈ ts, u.redirect? = u.signals.debug.npcWrite

theorem Resuming.cycle {k : Machine} {ts : List Instant} (h : Resuming m k ts)
    (hr : k.reset = false) (hw : k.Settled w) (hp : Passes ⟨k, w⟩) :
    Resuming m (k.advance w) (ts ++ [⟨k, w⟩]) where
  fits := by
    rw [advance_execute hr]
    exact h.fits.step
  npc := by
    rw [advance_npc hr hw hp, h.npc]
    simp [Instant.redirected]
  returning hm := by
    rw [advance_execute hr]
    have ha : k.execute.accepted? (k.executeInput w) = none := accepted?_eq hw ▸ hp.accepted
    exact fun hn =>
      h.returning hm (Execute.returning_of_step h.fits (Execute.accepted?_eq_none.1 ha) hn)
  redirect hm := by
    refine List.forall_mem_append.2 ⟨h.redirect hm, List.forall_mem_singleton.2 ?_⟩
    rw [Instant.redirect?, Execute.returned?_of_not_returning (h.returning hm), Option.none_or]

variable {c : Trap} {d : DecodedInstruction} {v : Signals}

/-- From a cycle that takes an interrupt the machine without it goes on at the return address, but
for debug accesses, and unless a return from a trap has been accepted and not been answered. Then it
goes on where the answer says. -/
theorem interrupt_resumes (hm : m.Reachable) (hr : m.reset = false) (hw : m.settle = .ok w)
    (ht : w.trap.taken = some c) (hi : c.isInterrupt = true) (n : Nat) :
    let before := m.untrapped.cycles (.replicate n .tick)
    let t : Instant := ⟨m.untrapped.after (.replicate n .tick), v⟩
    t.machine.settle = .ok v → t.accepted? = some d → (∀ u ∈ before, Passes u) →
      d.pc = Instant.redirected c.epc before ∧
      (¬ m.execute.state.Returning → (∀ u ∈ before, u.signals.debug.npcWrite = none) →
        d.pc = c.epc) := by
  intro before t hv hd hbefore
  have h : Resuming m t.machine before :=
    ticks_induction (m := m.untrapped)
      (P := fun k ts => (∀ u ∈ ts, Passes u) → Resuming m k ts) hr
      (fun _ => ⟨(controlled_of_reachable hm).toBusFits, rfl, id, fun _ _ hu => nomatch hu⟩)
      (fun k ts w hr hw hk hts => (hk fun u hu => hts u (List.mem_append_left _ hu)).cycle hr
        (settled_of_settle hw) (hts _ (List.mem_append_right _ (List.mem_singleton_self _))))
      n hbefore
  have hpc : d.pc = t.machine.execute.state.npc := by
    rw [accepted?_eq (settled_of_settle hv)] at hd
    obtain ⟨hvalid, hinstr⟩ := Execute.accepted?_eq_some.1 hd
    obtain ⟨d', -, -, ho, -⟩ := Execute.offered_of_valid hvalid
    obtain rfl : d = d' := Option.some.inj (hinstr.symm.trans ho.instruction)
    exact ho.pc
  rw [hpc, h.npc, epc_of_taken (settled_of_settle hw) ht hi]
  refine ⟨rfl, fun hret hdebug => ?_⟩
  exact Instant.redirected_of_none fun u hu => (h.redirect hret u hu).trans (hdebug u hu)

/-- An interrupt comes while the multiplier is at work. -/
def multiplying : Machine :=
  (ofConfig {} { instructions := #[
    { pc := resetVector, word := 0x022081b3, opcode := .mul },
    { pc := resetVector + 4, word := 0x00000013, opcode := .addi }] }).after [.interrupt 7, .tick]

theorem reachable_multiplying : multiplying.Reachable := ⟨fun _ => true, {}, _, _, _, rfl, rfl⟩

/-- The product is waited for, and then the next instruction is accepted. -/
theorem interrupt_resumes_multiplying :
    let c : Trap := { cause := 0x8000000000000007, epc := 0x10004 }
    let k := multiplying.untrapped.after (.replicate 5 .tick)
    multiplying.reset = false ∧ multiplying.settle = .ok multiplying.settled ∧
      multiplying.settled.trap.taken = some c ∧ c.isInterrupt = true ∧
      ∃ d, Instant.accepted? ⟨k, k.settled⟩ = some d ∧ d.opcode = .addi ∧ d.pc = c.epc := by
  intro c k
  have hr : multiplying.reset = false := by decide +kernel
  have hw : multiplying.settle = .ok multiplying.settled := settle_eq (by decide +kernel)
  have ht : multiplying.settled.trap.taken = some c := by decide +kernel
  have hi : c.isInterrupt = true := by decide
  have ha : Instant.accepted? ⟨k, k.settled⟩ =
      some { pc := resetVector + 4, word := 0x00000013, opcode := .addi } := by
    decide +kernel
  have hpc := (interrupt_resumes reachable_multiplying hr hw ht hi 5 (settle_eq (by decide +kernel))
    ha (by decide +kernel)).2 (by decide +kernel) (by decide +kernel)
  exact ⟨hr, hw, ht, hi, _, ha, rfl, hpc⟩

/-- A return from a trap to the start of the program, with an interrupt pending. In its fifth cycle
the machine takes the trap while the return is on the bus. -/
def returning : Machine :=
  (ofConfig {} { instructions := #[
    { pc := resetVector, word := 0x34129073, opcode := .csrrw },
    { pc := resetVector + 4, word := 0x30200073, opcode := .mret }] }).after
    [.register 5 resetVector, .tick, .tick, .tick, .interrupt 7, .tick]

/-- The program returns to its start, and the return address of the interrupt is another. -/
theorem epc_wrong_returning :
    let c : Trap := { cause := 0x8000000000000007, epc := 0x10008 }
    let k := returning.untrapped.after (.replicate 2 .tick)
    returning.Reachable ∧ returning.reset = false ∧ returning.settle = .ok returning.settled ∧
      returning.settled.trap.taken = some c ∧ c.isInterrupt = true ∧
      (∀ u ∈ returning.untrapped.cycles (.replicate 2 .tick), Passes u) ∧
      k.settle = .ok k.settled ∧
      ∃ d, Instant.accepted? ⟨k, k.settled⟩ = some d ∧ d.pc = resetVector ∧ d.pc ≠ c.epc := by
  intro c k
  exact ⟨⟨fun _ => true, {}, _, _, _, rfl, rfl⟩, by decide +kernel, settle_eq (by decide +kernel),
    by decide +kernel, by decide, by decide +kernel, settle_eq (by decide +kernel),
    { pc := resetVector, word := 0x34129073, opcode := .csrrw }, by decide +kernel, rfl, by decide⟩

end Machine

end RiscvPipeline
