import RiscvPipeline.Proofs.Tracking

/-!
# A trap squashes what is older

A ledger keeps, for every place where an instruction can be under way, the cycle in which the one
there was accepted. What a cycle does to registers, traps and the next program counter it does on
behalf of instructions in certain places; after a trap all of them were accepted later than it.
-/

namespace RiscvPipeline

/-- The cycles in which the instructions under way were accepted. -/
structure Ledger where
  /-- Of the instruction that is not finished yet. -/
  current : Nat := 0
  /-- Of the operations on the functional units. -/
  slots : PerSlot Nat := .replicate 0
  /-- Of the instruction that uses the bus. -/
  transaction : Nat := 0
  /-- Of the operations in the memory-access stage, oldest first. -/
  operations : List Nat := []

namespace Ledger

/-- The ledger after a cycle: what is accepted is entered in the places it goes to, and memory
operations move up. -/
def cycle (m : Machine) (w : Signals) (l : Ledger) : Ledger :=
  let next := (m.execute.step (m.executeInput w)).next
  { current := if w.execute.valid then m.cycle else l.current
    slots := .ofFn fun k =>
      if w.execute.valid ∧ (next.slots.get k).enable then m.cycle else l.slots.get k
    transaction :=
      if w.execute.valid ∧ next.csr.phase = .request then m.cycle else l.transaction
    operations :=
      (if m.access.leaves (Machine.accessInput w) then l.operations.tail else l.operations) ++
        if w.execute.memoryOp.isSome then [m.cycle] else [] }

/-- The ledger along a history. -/
def tracker : Tracker Ledger := ⟨cycle, {}⟩

end Ledger

/-- What instructions do outside the places they go through. -/
inductive Effect
  /-- A register write of the execute stage. -/
  | result
  /-- A register write of the memory-access stage. -/
  | loaded
  /-- A fault of a load or store. -/
  | fault
  /-- An exception or floating-point flags. -/
  | exception
  /-- Another next program counter than that of a redirection or a debug access. -/
  | jump

namespace Effect

/-- The effect occurs in a cycle. -/
def Occurs (m : Machine) (w : Signals) : Effect → Prop
  | result => w.execute.write.enable = true
  | loaded => w.access.write.enable = true
  | fault => w.access.loadFault = true ∨ w.access.storeFault = true
  | exception => w.execute.exceptions.any = true ∨ w.execute.fpuValid = true
  | jump => (m.execute.step (m.executeInput w)).next.npc ≠
      (w.trap.redirect.or w.debug.npcWrite).getD m.execute.state.npc

/-- For whom the execute stage acts: for the operation of the unit that finishes, for the
instruction that waits for the register file or for the bus, or for the one it accepts. -/
def executed (m : Machine) (w : Signals) (l : Ledger) : List Nat :=
  match m.execute.state.phase with
  | .multi =>
    match Execute.Cycle.unitResult? m.execute.state (m.executeInput w) with
    | some (k, _) => [l.current, l.slots.get k]
    | none => []
  | .single =>
    if m.execute.state.csr.phase = .idle then [l.current] else [l.current, l.transaction]
  | .waiting | .hold | .hazard => if w.execute.valid then [m.cycle] else []

/-- When the instructions that bring about the effect were accepted. The memory-access stage acts
for the operation on the bus. -/
def sources (m : Machine) (w : Signals) (l : Ledger) : Effect → List Nat
  | result | exception | jump => executed m w l
  | loaded | fault => l.operations.take 1

end Effect

variable {m : Machine} {w : Signals} {l : Ledger}

/-- An effect comes from the execute stage, or from an operation that is answered and that no trap
has squashed. -/
theorem Effect.Occurs.origin {e : Effect} (hw : m.Settled w) (hm : m.access.WF)
    (ho : e.Occurs m w) :
    m.execute.Acts (m.executeInput w) (m.execute.step (m.executeInput w)) ∧
        e.sources m w l = executed m w l ∨
      m.access.leaves (Machine.accessInput w) = true ∧
        m.access.squashed (Machine.accessInput w) = false ∧
        e.sources m w l = l.operations.take 1 := by
  have he := hw.execute
  have hturn := hw.turn hm
  cases e with
  | result => exact .inl ⟨.inl (he ▸ ho), rfl⟩
  | exception =>
    rcases ho with ho | ho
    · exact .inl ⟨.inr (.inl (he ▸ ho)), rfl⟩
    · exact .inl ⟨.inr (.inr (.inl (he ▸ ho))), rfl⟩
  | jump => exact .inl ⟨.inr (.inr (.inr ho)), rfl⟩
  | loaded =>
    have ho : w.access.write.enable = true := ho
    rw [hturn.write] at ho
    split at ho
    next hl =>
      simp only [MemoryAccess.loads, Bool.and_eq_true, Bool.not_eq_true'] at hl
      exact .inr ⟨hl.1, hl.2.1.1.2, rfl⟩
    · cases ho
  | fault =>
    have ho : w.access.loadFault = true ∨ w.access.storeFault = true := ho
    rw [hturn.loadFault, hturn.storeFault] at ho
    simp only [Bool.and_eq_true, Bool.not_eq_true'] at ho
    rcases ho with ⟨⟨⟨hl, -⟩, hs⟩, -⟩ | ⟨⟨⟨hl, -⟩, hs⟩, -⟩ <;> exact .inr ⟨hl, hs, rfl⟩

namespace Machine

/-- The ledger has an entry for every memory operation. -/
structure Recorded (m : Machine) (l : Ledger) : Prop where
  access : m.access.WF
  length : l.operations.length = m.access.inFlight.length
  bus : m.execute.state.phase = .multi → m.execute.state.csr.phase = .idle

namespace Recorded

theorem of_cleared (h : m.Cleared) : m.Recorded Ledger.tracker.initial := by
  obtain ⟨he, ha, -, -⟩ := h
  refine ⟨ha ▸ .empty, by rw [ha]; rfl, by rw [he]; simp⟩

theorem of_alike {n : Machine} (ha : Alike m n) (h : m.Recorded l) : n.Recorded l := by
  obtain ⟨h1, h2, h3⟩ := h
  exact ⟨ha.access ▸ h1, ha.access ▸ h2, ha.execute ▸ h3⟩

theorem cycle (h : m.Recorded l) (hr : m.reset = false) (hw : m.Settled w) :
    (m.advance w).Recorded (l.cycle m w) := by
  have hturn := hw.turn h.access
  refine ⟨?_, ?_, ?_⟩
  · rw [advance_access hr]
    exact hturn.wf
  · have hin := congrArg List.length (m.access.inFlight_eq (accessInput w))
    rw [← h.length] at hin
    rw [advance_access hr, hturn.inFlight, hw.admitted]
    unfold Ledger.cycle
    cases hl : m.access.leaves (accessInput w) <;> cases w.execute.memoryOp <;>
      simp [hl] at hin ⊢ <;> omega
  · rw [advance_execute hr]
    exact (Execute.step_places h.bus).bus

end Recorded

/-- Everything under way that can still have an effect was accepted after cycle `t`. -/
structure YoungerThan (t : Nat) (m : Machine) (l : Ledger) : Prop extends m.Recorded l where
  cycle : t < m.cycle
  current : m.execute.state.phase = .single ∨ m.execute.state.phase = .multi → t < l.current
  slots : m.execute.state.phase = .multi →
    ∀ k, (m.execute.state.slots.get k).busy = true → t < l.slots.get k
  transaction : m.execute.state.phase = .single → m.execute.state.csr.phase ≠ .idle →
    t < l.transaction
  operations : ∀ p ∈ m.access.inFlight.zip l.operations, p.1.flushed = false → t < p.2

namespace YoungerThan

variable {t : Nat}

theorem of_cleared (h : m.Cleared) (ht : t < m.cycle) : YoungerThan t m Ledger.tracker.initial := by
  have hr := Recorded.of_cleared h
  obtain ⟨he, ha, -, -⟩ := h
  have hp : m.execute.state.phase = .waiting := by rw [he]
  refine { hr with cycle := ht, current := ?_, slots := ?_, transaction := ?_, operations := ?_ }
  · simp [hp]
  · simp [hp]
  · simp [hp]
  · simp [ha, MemoryAccess.inFlight, MemoryQueue.toList]

theorem of_alike {n : Machine} (ha : Alike m n) (h : YoungerThan t m l) : YoungerThan t n l := by
  obtain ⟨hr, h1, h2, h3, h4, h5⟩ := h
  obtain ⟨he, hx, -, -, hc⟩ := id ha
  rw [← he] at h2 h3 h4
  rw [← hx] at h5
  exact ⟨hr.of_alike ha, hc ▸ h1, h2, h3, h4, h5⟩

/-- The cycle that takes a trap leaves nothing that can have an effect. -/
theorem of_trap (h : m.Recorded l) (hr : m.reset = false) (hw : m.Settled w)
    (ht : w.execute.trapReady = true) : YoungerThan m.cycle (m.advance w) (l.cycle m w) := by
  rw [hw.trapReady] at ht
  have hredirect : (m.executeInput w).trap.isSome = true := hw.isSome_redirect.trans ht
  obtain ⟨target, htarget⟩ := Option.isSome_iff_exists.mp hredirect
  have hp : (m.advance w).execute.state.phase = .waiting := by
    rw [advance_execute hr, Execute.step_trap htarget]
    rfl
  have hturn := hw.turn h.access
  have hflush : (accessInput w).flush = true := hw.flush.trans ht
  refine { h.cycle hr hw with cycle := ?_, current := ?_, slots := ?_, transaction := ?_,
                              operations := ?_ }
  · simp
  · simp [hp]
  · simp [hp]
  · simp [hp]
  · intro p hmem hfl
    have hin := (List.of_mem_zip hmem).1
    rw [advance_access hr, hturn.inFlight, hflush] at hin
    obtain ⟨e, -, he⟩ := List.mem_map.mp hin
    rw [← he] at hfl
    simp at hfl

/-- The operations that are left or come in are younger, if they are not squashed. -/
theorem advance_operations (h : YoungerThan t m l) (hr : m.reset = false) (hw : m.Settled w) :
    ∀ p ∈ (m.advance w).access.inFlight.zip (l.cycle m w).operations,
      p.1.flushed = false → t < p.2 := by
  have hturn := hw.turn h.access
  have hlen := h.length
  have hops := h.operations
  -- The operation that is answered and its entry leave together.
  obtain ⟨os, hos, hlos, hleft⟩ : ∃ os, (if m.access.leaves (accessInput w) then l.operations.tail
      else l.operations) = os ∧ os.length = (m.access.remaining (accessInput w)).length ∧
      ∀ p ∈ (m.access.remaining (accessInput w)).zip os, p.1.flushed = false → t < p.2 := by
    refine ⟨_, rfl, ?_⟩
    have hin := m.access.inFlight_eq (accessInput w)
    cases hl : m.access.leaves (accessInput w) with
    | false =>
      simp only [hl, Bool.false_eq_true, if_false, List.nil_append] at hin ⊢
      rw [← hin]
      exact ⟨hlen, hops⟩
    | true =>
      simp only [hl, if_true, List.singleton_append] at hin ⊢
      rw [hin] at hlen hops
      cases hl : l.operations with
      | nil =>
        rw [hl] at hlen
        cases hlen
      | cons o os =>
        rw [hl] at hlen hops
        exact ⟨Nat.succ.inj hlen, fun p hp => hops p (List.mem_cons_of_mem _ hp)⟩
  rw [advance_access hr, hturn.inFlight, hw.admitted]
  unfold Ledger.cycle
  dsimp only
  rw [hos, List.zip_map_left]
  intro p hp hfl
  obtain ⟨q, hq, rfl⟩ := List.mem_map.mp hp
  have hqf : q.1.flushed = false := by
    simp only [Prod.map, QueueEntry.squash, Bool.or_eq_false_iff] at hfl
    exact hfl.1
  rw [List.zip_append hlos.symm, List.mem_append] at hq
  rcases hq with hq | hq
  · exact hleft q hq hqf
  · cases hm : w.execute.memoryOp with
    | none =>
      rw [hm] at hq
      cases hq
    | some op =>
      rw [hm] at hq
      obtain rfl := List.mem_singleton.mp hq
      exact h.cycle

theorem advance (h : YoungerThan t m l) (hr : m.reset = false) (hw : m.Settled w) :
    YoungerThan t (m.advance w) (l.cycle m w) := by
  obtain ⟨hc, hs, htx, -⟩ :=
    Execute.step_places (s := m.execute) (i := m.executeInput w) h.bus
  have hstate : (m.advance w).execute.state = (m.execute.step (m.executeInput w)).next := by
    rw [advance_execute hr]
  rw [← hw.execute, ← hstate] at hc hs htx
  refine { h.toRecorded.cycle hr hw with cycle := ?_, current := ?_, slots := ?_,
                                         transaction := ?_, operations := ?_ }
  · exact Nat.lt_succ_of_lt h.cycle
  · intro hp
    show t < if w.execute.valid then m.cycle else l.current
    split
    · exact h.cycle
    next hv => exact h.current ((hc hp).resolve_left hv)
  · intro hp k hk
    unfold Ledger.cycle
    rw [← hstate, PerSlot.get_ofFn]
    split
    · exact h.cycle
    next hv =>
      obtain ⟨hm, hb⟩ := (hs hp k hk).resolve_left hv
      exact h.slots hm k hb
  · intro hp hne
    unfold Ledger.cycle
    rw [← hstate]
    dsimp only
    split
    · exact h.cycle
    next hv =>
      obtain ⟨hm, hb⟩ := (htx hp hne).resolve_left hv
      exact h.transaction hm hb
  · exact h.advance_operations hr hw

/-- What the execute stage does it does for younger instructions. -/
theorem executed (h : YoungerThan t m l) (hw : m.Settled w)
    (ha : m.execute.Acts (m.executeInput w) (m.execute.step (m.executeInput w))) :
    Effect.executed m w l ≠ [] ∧ ∀ k ∈ Effect.executed m w l, t < k := by
  obtain ⟨-, ⟨hp, k, u, hu⟩ | hp | ⟨hp, hv⟩⟩ := Execute.step_acts ha
  · obtain ⟨hb, -⟩ := Execute.unitResult?_eq_some hu
    have hs := h.slots hp k hb
    have hc := h.current (.inr hp)
    simp only [Effect.executed, hp, hu]
    simp [hs, hc]
  · have hc := h.current (.inl hp)
    simp only [Effect.executed, hp]
    split
    · simp [hc]
    next hne => simp [hc, h.transaction hp hne]
  · have hv : w.execute.valid = true := by rw [hw.execute]; exact hv
    have : Effect.executed m w l = [m.cycle] := by
      rcases hp with hp | hp | hp <;> simp [Effect.executed, hp, hv]
    simp [this, h.cycle]

/-- The operation that is answered with an effect is younger. -/
theorem answered (h : YoungerThan t m l) (hl : m.access.leaves (accessInput w) = true)
    (hs : m.access.squashed (accessInput w) = false) :
    l.operations.take 1 ≠ [] ∧ ∀ k ∈ l.operations.take 1, t < k := by
  have hlen := h.length
  have hops := h.operations
  rw [MemoryAccess.inFlight_of_leaves hl] at hlen hops
  cases ho : l.operations with
  | nil =>
    rw [ho] at hlen
    cases hlen
  | cons o os =>
    rw [ho] at hops
    have hf : m.access.current.flushed = false := by
      simp only [MemoryAccess.squashed, Bool.or_eq_false_iff] at hs
      exact hs.1.1
    have := hops (m.access.current, o) List.mem_cons_self hf
    simp [this]

/-- No effect is due to an instruction that is not younger. -/
theorem effects (h : YoungerThan t m l) (hw : m.Settled w) (e : Effect) (ho : e.Occurs m w) :
    e.sources m w l ≠ [] ∧ ∀ k ∈ e.sources m w l, t < k := by
  rcases ho.origin (l := l) hw h.access with ⟨ha, hs⟩ | ⟨hl, hsq, hs⟩
  · rw [hs]
    exact h.executed hw ha
  · rw [hs]
    exact h.answered hl hsq

end YoungerThan

/-- In the cycle that takes a trap there is no effect at all. -/
theorem not_occurs_of_trapReady (ha : m.access.WF) (hw : m.Settled w)
    (ht : w.execute.trapReady = true) (e : Effect) : ¬ e.Occurs m w := by
  rw [hw.trapReady] at ht
  have hredirect : (m.executeInput w).trap.isSome = true := hw.isSome_redirect.trans ht
  intro ho
  rcases ho.origin (l := {}) hw ha with ⟨hacts, -⟩ | ⟨-, hs, -⟩
  · rw [(Execute.step_acts hacts).1] at hredirect
    cases hredirect
  · have hflush : (accessInput w).flush = true := hw.flush.trans ht
    simp [MemoryAccess.squashed, hflush] at hs

/-- From the cycle on in which a trap is taken, every effect is due to instructions that were
accepted after that cycle, wherever older ones were under way in it. -/
theorem trap_squashes {writable : String → Bool} {c : Config} {p : Program} {m₀ : Machine}
    (hnew : Machine.new writable c p = .ok m₀) (h : List Stimulus)
    (hr : (m₀.after h).reset = false) (hw : (m₀.after h).settle = .ok w)
    (ht : w.execute.trapReady = true) :
    (∀ e : Effect, ¬ e.Occurs (m₀.after h) w) ∧
    ∀ (h' : List Stimulus) (v : Signals),
      let n := m₀.after (h ++ .tick :: h')
      let l := Ledger.tracker.after m₀ {} (h ++ .tick :: h')
      n.Settled v → ∀ e : Effect, e.Occurs n v →
        e.sources n v l ≠ [] ∧ ∀ k ∈ e.sources n v l, (m₀.after h).cycle < k := by
  obtain ⟨-, rfl⟩ := eq_ofConfig_of_new hnew
  have hrec : ((ofConfig c p).after h).Recorded (Ledger.tracker.after (ofConfig c p) {} h) :=
    Tracker.holds (P := Recorded) (fun _ _ _ hn _ _ => .of_cleared hn)
      (fun _ _ _ ha hm => hm.of_alike ha) (fun _ _ _ hr hw hm => hm.cycle hr hw) h
      (.of_cleared (cleared_ofConfig c p))
  have hs := settled_of_settle hw
  refine ⟨not_occurs_of_trapReady hrec.access hs ht, fun h' v => ?_⟩
  intro n l hv e he
  have htick : ((ofConfig c p).after h).apply .tick = ((ofConfig c p).after h).advance w := by
    simp only [apply, tick, hw]
  have hfollow : Ledger.tracker.follow ((ofConfig c p).after h)
      (Ledger.tracker.after (ofConfig c p) {} h) .tick =
      (Ledger.tracker.after (ofConfig c p) {} h).cycle ((ofConfig c p).after h) w := by
    simp only [Tracker.follow, hw, hr]
    rfl
  have hn : n = (((ofConfig c p).after h).advance w).after h' := by
    rw [← htick, ← after_cons, ← after_append]
  have hl : l = Ledger.tracker.after (((ofConfig c p).after h).advance w)
      ((Ledger.tracker.after (ofConfig c p) {} h).cycle ((ofConfig c p).after h) w) h' := by
    rw [← htick, ← hfollow]
    exact Tracker.after_append ..
  have hy : YoungerThan ((ofConfig c p).after h).cycle n l := by
    rw [hn, hl]
    exact Tracker.holds (P := YoungerThan ((ofConfig c p).after h).cycle)
      (fun _ _ _ hn hc hm => .of_cleared hn (Nat.lt_of_lt_of_le hm.cycle hc))
      (fun _ _ _ ha hm => hm.of_alike ha) (fun _ _ _ hr hw hm => hm.advance hr hw) h'
      (.of_trap hrec hr hs ht)
  exact hy.effects hv e he

/-- A load that faults with an addition behind it, and a trap handler that starts over. -/
def restarting : Program :=
  { instructions := #[{ pc := resetVector, word := 0x00002283, opcode := .lw },
      { pc := resetVector + 4, word := 0x00100313, opcode := .addi }] }

theorem trap_squashes_restarting :
    let m₀ := ofConfig { csr := { trapVector := resetVector } } restarting
    let m := m₀.after (.replicate 4 .tick)
    let n := m₀.after (.replicate 6 .tick)
    let l := Ledger.tracker.after m₀ {} (.replicate 6 .tick)
    m.settled.execute.trapReady = true ∧ (∀ e : Effect, ¬ e.Occurs m m.settled) ∧
      Effect.result.Occurs n n.settled ∧
        ∀ k ∈ Effect.result.sources n n.settled l, m.cycle < k := by
  intro m₀ m n l
  have hnew : Machine.new (fun _ => true) { csr := { trapVector := resetVector } } restarting =
      .ok m₀ := rfl
  have hw : m.settle = .ok m.settled := settle_eq (by decide +kernel)
  have ht : m.settled.execute.trapReady = true := by decide +kernel
  obtain ⟨hnone, hlater⟩ := trap_squashes hnew (.replicate 4 .tick) (by decide +kernel) hw ht
  have ho : Effect.result.Occurs n n.settled := by
    show n.settled.execute.write.enable = true
    decide +kernel
  exact ⟨ht, hnone, ho, (hlater [.tick] n.settled settled_settled .result ho).2⟩

end Machine

end RiscvPipeline
