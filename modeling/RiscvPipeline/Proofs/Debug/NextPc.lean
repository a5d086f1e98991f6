import RiscvPipeline.Proofs.Debug.Port
import RiscvPipeline.Proofs.Resumption

/-!
# Debug writes of the next program counter

A debug access that writes the next program counter decides where the execute stage goes on, and it
is answered without an error. A trap that is taken in the same cycle goes first. From then on the
stage stays there until it accepts an instruction, takes a trap or is sent elsewhere by another
access (`Machine.nextPc_stays`). A return from a trap that is outstanding at the time of the access
is not called off by it: what was written holds until the bus answers, and then the stage goes on
where the answer says (`Machine.nextPc_until_returned`).
-/

namespace RiscvPipeline

/-- The address that the bus answers to a return from a trap. -/
def Instant.returned? (t : Instant) : Option Word :=
  t.machine.execute.returned? (t.machine.executeInput t.signals)

namespace Machine

variable {m : Machine} {w : Signals} {x : Word}

theorem sound_of_reachable (hm : m.Reachable) : m.debug.Sound := by
  refine hm.holds (P := fun m => m.debug.Sound) ?_ ?_ ?_
  · intro m n hr
    rw [hr.debug]
    exact .inl rfl
  · intro m n hu hm
    rwa [hu.debug]
  · intro m w hr _ hm
    rw [advance_debug hr]
    exact hm.propose

/-- A cycle that passes and leaves the next program counter alone. -/
structure Rests (t : Instant) : Prop extends Passes t where
  npcWrite : t.signals.debug.npcWrite = none

instance (t : Instant) : Decidable (Rests t) :=
  decidable_of_iff (Passes t ∧ t.signals.debug.npcWrite = none)
    ⟨fun h => ⟨h.1, h.2⟩, fun h => ⟨h.toPasses, h.npcWrite⟩⟩

/-- An instruction is not accepted in the cycle of the access. -/
theorem accepted?_of_npcWrite (hw : m.Settled w) (hx : w.debug.npcWrite = some x) :
    Instant.accepted? ⟨m, w⟩ = none := by
  rw [accepted?_eq hw, Execute.accepted?_eq_none, Bool.eq_false_iff]
  intro hv
  obtain ⟨d, -, -, ho, -⟩ := Execute.offered_of_valid hv
  have hn : w.debug.npcWrite = none := ho.npcWrite
  rw [hx] at hn
  cases hn

theorem returning_advance (hm : m.execute.state.Controlled) (hr : m.reset = false)
    (hw : m.Settled w) (ha : Instant.accepted? ⟨m, w⟩ = none)
    (hret : ¬ m.execute.state.Returning) : ¬ (m.advance w).execute.state.Returning := by
  rw [advance_execute hr]
  rw [accepted?_eq hw] at ha
  exact fun h => hret (Execute.returning_of_step hm.toBusFits (Execute.accepted?_eq_none.1 ha) h)

theorem returning_advance_of_returned {y : Word} (hr : m.reset = false)
    (hy : Instant.returned? ⟨m, w⟩ = some y) : ¬ (m.advance w).execute.state.Returning := by
  rw [advance_execute hr]
  exact Execute.not_returning_of_returned hy

theorem npc_of_npcWrite (hr : m.reset = false) (hw : m.Settled w)
    (hx : w.debug.npcWrite = some x) (ht : Instant.traps ⟨m, w⟩ = false) :
    (m.advance w).execute.state.npc = (Instant.returned? ⟨m, w⟩).getD x := by
  rw [advance_npc hr hw ⟨ht, accepted?_of_npcWrite hw hx⟩, Instant.redirect?, hx, Option.or_some]
  rfl

theorem npc_of_rests (hr : m.reset = false) (hw : m.Settled w) (hq : Rests ⟨m, w⟩) :
    (m.advance w).execute.state.npc = (Instant.returned? ⟨m, w⟩).getD m.execute.state.npc := by
  rw [advance_npc hr hw hq.toPasses, Instant.redirect?, hq.npcWrite, Option.or_none]
  rfl

/-- The machine has rested since the cycle `t`, in which a debug access wrote `x`. -/
structure Rested (x : Word) (t : Instant) (later : List Instant) (m : Machine) : Prop where
  written : (∀ u ∈ t :: later, u.returned? = none) → m.execute.state.npc = x
  /-- There is one answer at most. -/
  answered : ∀ u ∈ t :: later, ∀ y, u.returned? = some y →
    m.execute.state.npc = y ∧ ¬ m.execute.state.Returning
  unasked : ¬ t.machine.execute.state.Returning →
    (∀ u ∈ t :: later, u.returned? = none) ∧ ¬ m.execute.state.Returning

theorem Rested.of_npcWrite (hm : m.execute.state.Controlled) (hr : m.reset = false)
    (hw : m.Settled w) (hx : w.debug.npcWrite = some x) (ht : Instant.traps ⟨m, w⟩ = false) :
    Rested x ⟨m, w⟩ [] (m.advance w) := by
  have hnpc := npc_of_npcWrite hr hw hx ht
  constructor
  case written =>
    rw [List.forall_mem_singleton, hnpc]
    intro hnone
    rw [hnone, Option.getD_none]
  case answered =>
    rw [List.forall_mem_singleton]
    intro y hy
    rw [hnpc, hy]
    exact ⟨rfl, returning_advance_of_returned hr hy⟩
  case unasked =>
    rw [List.forall_mem_singleton]
    exact fun hret => ⟨Execute.returned?_of_not_returning hret,
      returning_advance hm hr hw (accepted?_of_npcWrite hw hx) hret⟩

theorem Rested.cycle {t : Instant} {later : List Instant} (h : Rested x t later m)
    (hm : m.execute.state.Controlled) (hr : m.reset = false) (hw : m.Settled w)
    (hq : Rests ⟨m, w⟩) : Rested x t (later ++ [⟨m, w⟩]) (m.advance w) := by
  have hnpc := npc_of_rests hr hw hq
  have hnone (hret : ¬ m.execute.state.Returning) : Instant.returned? ⟨m, w⟩ = none :=
    Execute.returned?_of_not_returning hret
  have hkept := returning_advance hm hr hw hq.accepted
  constructor
  case written =>
    rw [← List.cons_append, List.forall_mem_append, List.forall_mem_singleton, hnpc]
    rintro ⟨hall, hlast⟩
    rw [hlast, Option.getD_none]
    exact h.written hall
  case answered =>
    rw [← List.cons_append, List.forall_mem_append, List.forall_mem_singleton, hnpc]
    refine ⟨fun u hu y hy => ?_, fun y hy => ?_⟩
    · obtain ⟨hpc, hret⟩ := h.answered u hu y hy
      rw [hnone hret]
      exact ⟨hpc, hkept hret⟩
    · rw [hy]
      exact ⟨rfl, returning_advance_of_returned hr hy⟩
  case unasked =>
    intro hret
    obtain ⟨hall, hret⟩ := h.unasked hret
    rw [← List.cons_append, List.forall_mem_append, List.forall_mem_singleton]
    exact ⟨⟨hall, hnone hret⟩, hkept hret⟩

theorem rested_since (hm : m.Reachable) {h : List Stimulus} {before later : List Instant}
    {t : Instant} (hc : m.cycles h = before ++ t :: later)
    (hx : t.signals.debug.npcWrite = some x) (htrap : t.traps = false)
    (hlater : ∀ u ∈ later, Rests u) : Rested x t later (m.after h) :=
  since_induction (I := fun k => k.execute.state.Controlled)
    (S := fun t => t.signals.debug.npcWrite = some x ∧ t.traps = false) (Q := Rests)
    (P := Rested x) (fun h => controlled_of_reachable (hm.after h))
    (fun _ _ _ _ hn hk => ⟨hn.execute ▸ hk.written, hn.execute ▸ hk.answered,
      hn.execute ▸ hk.unasked⟩)
    (fun _ _ hk hr hw hs => .of_npcWrite hk hr hw hs.1 hs.2)
    (fun _ _ _ _ hk hr hw hq hp => hp.cycle hk hr hw hq) hc ⟨hx, htrap⟩ hlater

/-- What a debug access writes to the next program counter stays there, unless a trap is taken in
the same cycle. No return from a trap may be outstanding: its answer would replace what was written
(`nextPc_lost_departing`). -/
theorem nextPc_stays (hm : m.Reachable) {h : List Stimulus} {before later : List Instant}
    {t : Instant} (hc : m.cycles h = before ++ t :: later)
    (hx : t.signals.debug.npcWrite = some x) (hret : ¬ t.machine.execute.state.Returning)
    (hlater : ∀ u ∈ later, Rests u) :
    (t.next.debug.phase = .responding ∧ t.next.debug.error = false) ∧
      (t.traps = true → t.next.execute.state.npc = t.machine.csr.trapVector) ∧
      (t.traps = false → (m.after h).execute.state.npc = x) := by
  obtain ⟨hr, hw, h', ht, -⟩ := of_cycles_eq hc
  have hreach : t.machine.Reachable := ht ▸ hm.after h'
  refine ⟨?_, fun htrap => ?_, fun htrap => ?_⟩
  · have hdebug : t.next.debug = t.machine.debug.propose (t.machine.debugInput t.signals) :=
      advance_debug hr
    rw [hw.debug] at hx
    rw [hdebug]
    exact (sound_of_reachable hreach).of_npcWrite hx
  · exact advance_npc_of_traps hr hw htrap
  · have hrested := rested_since hm hc hx htrap hlater
    exact hrested.written (hrested.unasked hret).1

/-- A debug access sends the stage to 0x10040 while the multiplier is at work. -/
def redirecting : Machine :=
  (ofConfig {}
    { instructions := #[{ pc := resetVector, word := 0x022081b3, opcode := .mul }] }).after
    [.request { region := .control, addr := 1, write := true, wdata := 0x10040 }]

theorem reachable_redirecting : redirecting.Reachable := ⟨fun _ => true, {}, _, _, _, rfl, rfl⟩

/-- The multiplication is finished and the stage stays where the access has sent it. -/
theorem nextPc_stays_redirecting :
    let k := redirecting.advance redirecting.settled
    let t : Instant := ⟨k, k.settled⟩
    let later := t.next.instants 4
    redirecting.cycles (.replicate 6 .tick) = redirecting.instants 1 ++ t :: later ∧
      t.signals.debug.npcWrite = some 0x10040 ∧ ¬ t.machine.execute.state.Returning ∧
      (∀ u ∈ later, Rests u) ∧ t.traps = false ∧
      (∃ u ∈ later, u.signals.execute.write.enable = true) ∧
      (redirecting.after (.replicate 6 .tick)).execute.state.npc = 0x10040 := by
  intro k t later
  have hc : redirecting.cycles (.replicate 6 .tick) = redirecting.instants 1 ++ t :: later :=
    cycles_replicate_tick (by decide +kernel) (by decide +kernel) 6
  have hx : t.signals.debug.npcWrite = some 0x10040 := by decide +kernel
  have hret : ¬ t.machine.execute.state.Returning := by decide +kernel
  have hlater : ∀ u ∈ later, Rests u := by decide +kernel
  have htrap : t.traps = false := by decide +kernel
  obtain ⟨-, -, hnpc⟩ := nextPc_stays reachable_redirecting hc hx hret hlater
  exact ⟨hc, hx, hret, hlater, htrap, by decide +kernel, hnpc htrap⟩

/-- A debug access is about to write the next program counter, and an interrupt is pending. -/
def overtaken : Machine :=
  (ofConfig {} {}).after
    [.request { region := .control, addr := 1, write := true, wdata := 0x10040 }, .interrupt 7,
      .tick]

/-- The access is answered without an error, and the trap has taken the stage elsewhere. -/
theorem nextPc_lost_overtaken :
    let n := overtaken.advance overtaken.settled
    overtaken.Reachable ∧ overtaken.reset = false ∧ overtaken.settle = .ok overtaken.settled ∧
      overtaken.settled.debug.npcWrite = some 0x10040 ∧
      n.settled.debug.valid = true ∧ n.settled.debug.error = false ∧
      n.execute.state.npc = 0x20000 := by
  intro n
  exact ⟨⟨fun _ => true, {}, _, _, _, rfl, rfl⟩, by decide +kernel, settle_eq (by decide +kernel),
    by decide +kernel, by decide +kernel, by decide +kernel, by decide +kernel⟩

/-- A debug access is about to write the next program counter, and a return from a trap to address 0
is on the bus. -/
def departing (latency : Nat) : Machine :=
  (ofConfig { csr.latency := latency }
    { instructions := #[{ pc := resetVector, word := 0x30200073, opcode := .mret }] }).after
    [.tick, .request { region := .control, addr := 1, write := true, wdata := 0x10040 }, .tick]

/-- The access is answered without an error, and the stage goes on where the return leads. -/
theorem nextPc_lost_departing :
    let m := departing 1
    let n := m.advance m.settled
    m.Reachable ∧ m.reset = false ∧ m.settle = .ok m.settled ∧ m.execute.state.Returning ∧
      m.settled.debug.npcWrite = some 0x10040 ∧ Instant.traps ⟨m, m.settled⟩ = false ∧
      n.settled.debug.valid = true ∧ n.settled.debug.error = false ∧ n.execute.state.npc = 0 := by
  intro m n
  exact ⟨⟨fun _ => true, { csr.latency := 1 }, _, _, _, rfl, rfl⟩, by decide +kernel,
    settle_eq (by decide +kernel), by decide +kernel, by decide +kernel, by decide +kernel,
    by decide +kernel, by decide +kernel, by decide +kernel⟩

/-- What a debug access writes to the next program counter stays there until a return from a trap
is answered. From then on the stage stays where the answer says. -/
theorem nextPc_until_returned (hm : m.Reachable) {h : List Stimulus} {before later : List Instant}
    {t : Instant} (hc : m.cycles h = before ++ t :: later)
    (hx : t.signals.debug.npcWrite = some x) (htrap : t.traps = false)
    (hlater : ∀ u ∈ later, Rests u) :
    ((∀ u ∈ t :: later, u.returned? = none) → (m.after h).execute.state.npc = x) ∧
      ∀ u ∈ t :: later, ∀ y, u.returned? = some y → (m.after h).execute.state.npc = y := by
  have hrested := rested_since hm hc hx htrap hlater
  exact ⟨hrested.written, fun u hu y hy => (hrested.answered u hu y hy).1⟩

/-- The answer comes in the third cycle, and up to then the stage stays where the access has sent
it. -/
theorem nextPc_until_returned_departing :
    let m := departing 3
    (m.after (.replicate 2 .tick)).execute.state.npc = 0x10040 ∧
      (m.after (.replicate 3 .tick)).execute.state.npc = 0 := by
  intro m
  let t : Instant := ⟨m, m.settled⟩
  have hm : m.Reachable := ⟨fun _ => true, { csr.latency := 3 }, _, _, _, rfl, rfl⟩
  have hx : t.signals.debug.npcWrite = some 0x10040 := by decide +kernel
  have htrap : t.traps = false := by decide +kernel
  constructor
  · have hc : m.cycles (.replicate 2 .tick) = [] ++ t :: t.next.instants 1 :=
      cycles_replicate_tick (by decide +kernel) (by decide +kernel) 2
    have hlater : ∀ u ∈ t.next.instants 1, Rests u := by decide +kernel
    have hnone : ∀ u ∈ t :: t.next.instants 1, u.returned? = none := by decide +kernel
    obtain ⟨hwritten, -⟩ := nextPc_until_returned hm hc hx htrap hlater
    exact hwritten hnone
  · have hc : m.cycles (.replicate 3 .tick) = [] ++ t :: t.next.instants 2 :=
      cycles_replicate_tick (by decide +kernel) (by decide +kernel) 3
    have hlater : ∀ u ∈ t.next.instants 2, Rests u := by decide +kernel
    have hanswer : ∃ u ∈ t :: t.next.instants 2, u.returned? = some 0 := by decide +kernel
    obtain ⟨u, hu, hy⟩ := hanswer
    obtain ⟨-, hreturned⟩ := nextPc_until_returned hm hc hx htrap hlater
    exact hreturned u hu 0 hy

end Machine

end RiscvPipeline
