import RiscvPipeline.Proofs.Execute.Effect
import RiscvPipeline.Proofs.Memory.Traffic

/-!
# What the counters count

The instruction mix is told by the classes of the instructions that are accepted. One that is
refused where it stands counts as well, though it is neither handed over to the memory-access stage
nor dispatched to a functional unit: `Machine.statistics_count` is the account with these set apart.
What the data memory has not accepted of the loads and stores is what is left of them in the stage.
-/

namespace RiscvPipeline

namespace MemoryAccess

/-- The operations that the data memory has not accepted, oldest first. -/
def unsent (s : MemoryAccess) : List QueueEntry :=
  (if s.phase = .requesting then [s.current] else []) ++ s.queue.toList

theorem Flow.length_unsent {done rest : List (Nat × QueueEntry)}
    {ts : List (Moment MemoryAccess Input)} {s : MemoryAccess} (h : Flow done rest ts s) :
    (ts.filterMap sent?).length + s.unsent.length = (MemoryAccess.pushes ts).length := by
  have hlen := congrArg List.length h.unanswered
  rw [h.sent, h.pushes]
  unfold MemoryAccess.unanswered at hlen
  unfold unsent
  cases hp : s.phase <;> simp [hp] at hlen ⊢ <;> omega

end MemoryAccess

/-! ## Events of a cycle -/

namespace Instant

variable (t : Instant)

/-- The memory-access stage takes a load or a store. -/
def pushes (store : Bool) : Bool := (MemoryAccess.pushed? t.accessMoment).any (·.store == store)

/-- An operation is dispatched to a functional unit. -/
def dispatches : Bool := t.next.execute.state.dispatches

/-- An instruction of such a class is accepted. -/
def acceptsKind (p : ExecClass → Bool) : Bool := t.accepted?.any fun d => p d.opcode.cls

/-- An instruction of such a class is accepted and refused where it stands. -/
def refusesKind (p : ExecClass → Bool) : Bool :=
  t.acceptsKind p && t.signals.execute.exceptions.refuses

theorem refusesKind_mono {t : Instant} {p q : ExecClass → Bool}
    (h : ∀ c, p c = true → q c = true) (hp : t.refusesKind p = true) : t.refusesKind q = true := by
  unfold refusesKind acceptsKind at hp ⊢
  cases ha : t.accepted? with
  | none => simp [ha] at hp
  | some d =>
    rw [ha, Option.any_some, Bool.and_eq_true] at hp
    rw [Option.any_some, Bool.and_eq_true]
    exact ⟨h _ hp.1, hp.2⟩

theorem acceptsKind_either : t.accepted?.isSome.toNat =
    (t.acceptsKind (·.slot?.isNone)).toNat + (t.acceptsKind (·.slot?.isSome)).toNat := by
  unfold acceptsKind
  cases t.accepted? with
  | none => rfl
  | some d => cases hs : d.opcode.cls.slot? <;> simp [hs]

variable {t}

variable (t) in
/-- What a cycle does for the instruction that it accepts. -/
inductive Account : Prop
  | none (hv : t.signals.execute.valid = false) (ha : t.accepted? = .none)
      (hm : t.memoryOp? = .none) (hs : t.dispatches = false)
  | refused (d : DecodedInstruction) (hv : t.signals.execute.valid = true)
      (hp : t.machine.program.at? t.signals.execute.pc = some d) (ha : t.accepted? = some d)
      (hx : t.signals.execute.exceptions.refuses = true) (hm : t.memoryOp? = .none)
      (hs : t.dispatches = false)
  | carried (d : DecodedInstruction) (hv : t.signals.execute.valid = true)
      (hp : t.machine.program.at? t.signals.execute.pc = some d) (ha : t.accepted? = some d)
      (hx : t.signals.execute.exceptions.refuses = false)
      (hm : t.memoryOp?.map (·.store) =
        if d.opcode.cls.isMemory then some (d.opcode.cls == .store) else .none)
      (hs : t.dispatches = d.opcode.cls.slot?.isSome)

theorem account (hr : t.machine.reset = false) (hw : t.machine.Settled t.signals) :
    t.Account := by
  have he := hw.execute
  have hd : t.dispatches =
      (t.machine.execute.step (t.machine.executeInput t.signals)).next.dispatches := by
    unfold dispatches next
    rw [Machine.advance_execute hr]
  have program {d : DecodedInstruction}
      (ho : t.machine.execute.Offered (t.machine.executeInput t.signals) d)
      (hpc : t.signals.execute.pc = d.pc) :
      t.machine.program.at? t.signals.execute.pc = some d := by
    rw [hpc, ho.pc]
    exact ho.instruction
  cases Execute.step_effect (s := t.machine.execute) (i := t.machine.executeInput t.signals) with
  | none hv hm hs =>
    rw [← he] at hv hm
    exact .none hv (by simp [accepted?, hv]) hm (hd.trans hs)
  | refused d ho hv hpc hx hm hs =>
    rw [← he] at hv hpc hx hm
    exact .refused d hv (program ho hpc) (t.accepted?_eq_some.2 ⟨hv, ho.instruction⟩) hx hm
      (hd.trans hs)
  | carried d ho hv hpc hx hm hs =>
    rw [← he] at hv hpc hx hm
    exact .carried d hv (program ho hpc) (t.accepted?_eq_some.2 ⟨hv, ho.instruction⟩) hx hm
      (hd.trans hs)

theorem pushes_eq (hw : t.machine.Settled t.signals) (store : Bool) :
    t.pushes store = (t.memoryOp?.map (·.store) == some store) := by
  unfold pushes
  rw [pushed?_accessMoment hw]
  cases t.memoryOp? <;> simp [QueueEntry.ofMemoryOp]

theorem pushes_either (hw : t.machine.Settled t.signals) :
    t.memoryOp?.isSome.toNat = (t.pushes false).toNat + (t.pushes true).toNat := by
  rw [pushes_eq hw, pushes_eq hw]
  cases t.memoryOp? with
  | none => rfl
  | some p => cases hp : p.store <;> simp [hp]

/-- A load that is accepted is handed over or refused, and so is a store. -/
theorem acceptsKind_memory (hr : t.machine.reset = false) (hw : t.machine.Settled t.signals)
    (store : Bool) : (t.acceptsKind (· == if store then .store else .load)).toNat =
      (t.pushes store).toNat + (t.refusesKind (· == if store then .store else .load)).toNat := by
  rw [pushes_eq hw]
  unfold refusesKind acceptsKind
  cases account hr hw with
  | none _ ha hm => simp [ha, hm]
  | refused d _ _ ha hx hm => simp [ha, hx, hm]
  | carried d _ _ ha hx hm =>
    rw [ha, hm, hx]
    dsimp only [Option.any_some]
    generalize d.opcode.cls = c
    cases store <;> cases c <;> rfl

/-- An instruction for a functional unit is dispatched or refused. -/
theorem acceptsKind_unit (hr : t.machine.reset = false) (hw : t.machine.Settled t.signals) :
    (t.acceptsKind (·.slot?.isSome)).toNat =
      t.dispatches.toNat + (t.refusesKind (·.slot?.isSome)).toNat := by
  unfold refusesKind acceptsKind
  cases account hr hw with
  | none _ ha _ hs => simp [ha, hs]
  | refused d _ _ ha hx _ hs => simp [ha, hx, hs]
  | carried d _ _ ha hx _ hs => simp [ha, hx, hs]

end Instant

theorem countP_concat {α : Type} (p : α → Bool) (l : List α) (a : α) :
    (l ++ [a]).countP p = l.countP p + (p a).toNat := by
  rw [List.countP_append, List.countP_singleton]
  cases p a <;> rfl

theorem countP_eq_add {α : Type} {p q r : α → Bool} {l : List α}
    (h : ∀ a ∈ l, (p a).toNat = (q a).toNat + (r a).toNat) :
    l.countP p = l.countP q + l.countP r := by
  induction l using List.reverseRecOn with
  | nil => rfl
  | append_singleton l a ih =>
    have hl := ih fun b hb => h b (List.mem_append_left _ hb)
    have ha := h a (by simp)
    rw [countP_concat, countP_concat, countP_concat]
    omega

/-! ## The instruction mix -/

/-- The counters of the instruction mix that go by the way an instruction is carried out. -/
structure Mix where
  instructions : Nat
  single : Nat
  multi : Nat
  loads : Nat
  stores : Nat
  deriving DecidableEq

namespace Mix

/-- One more instruction of a class. -/
def add (x : Mix) (c : ExecClass) : Mix where
  instructions := x.instructions + 1
  single := x.single + c.slot?.isNone.toNat
  multi := x.multi + c.slot?.isSome.toNat
  loads := x.loads + (c == .load).toNat
  stores := x.stores + (c == .store).toNat

/-- The instructions that are accepted in some cycles. -/
def of (ts : List Instant) : Mix where
  instructions := ts.countP (·.accepted?.isSome)
  single := ts.countP (·.acceptsKind (·.slot?.isNone))
  multi := ts.countP (·.acceptsKind (·.slot?.isSome))
  loads := ts.countP (·.acceptsKind (· == .load))
  stores := ts.countP (·.acceptsKind (· == .store))

variable {ts : List Instant} {t : Instant}

theorem of_concat_none (h : t.accepted? = none) : of (ts ++ [t]) = of ts := by
  simp only [of, countP_concat, Instant.acceptsKind, h, Option.any_none, Option.isSome_none,
    Bool.toNat_false, Nat.add_zero]

theorem of_concat_some {d : DecodedInstruction} (h : t.accepted? = some d) :
    of (ts ++ [t]) = (of ts).add d.opcode.cls := by
  simp only [of, add, countP_concat, Instant.acceptsKind, h, Option.any_some, Option.isSome_some,
    Bool.toNat_true]

end Mix

namespace Statistics

variable (x : Statistics)

def mix : Mix := ⟨x.instructions, x.single, x.multi, x.loads, x.stores⟩

theorem countStall_mix (f : Execute.Phase) (b : Bool) : (x.countStall f b).mix = x.mix := by
  unfold countStall
  cases f <;> cases b <;> rfl

theorem countInstruction_mix (d : DecodedInstruction) :
    (x.countInstruction (some d)).mix = x.mix.add d.opcode.cls := by
  unfold countInstruction
  dsimp only
  generalize d.opcode.cls = c
  cases c <;> rfl

end Statistics

namespace Machine

variable {m : Machine} {w : Signals} {ts : List Instant}

/-- A cycle counts the instruction that it accepts. -/
theorem counted_mix (hr : m.reset = false) (hw : m.Settled w) :
    (m.counted w).mix =
      match Instant.accepted? ⟨m, w⟩ with
      | some d => m.statistics.mix.add d.opcode.cls
      | none => m.statistics.mix := by
  have accepted {d : DecodedInstruction} (hv : w.execute.valid = true)
      (hp : m.program.at? w.execute.pc = some d) :
      (m.counted w).mix = m.statistics.mix.add d.opcode.cls := by
    unfold counted
    rw [hv, if_pos rfl, hp, Statistics.countInstruction_mix]
    exact congrArg (Mix.add · _) (Statistics.countStall_mix ..)
  cases Instant.account (t := ⟨m, w⟩) hr hw with
  | none hv ha =>
    have hv : w.execute.valid = false := hv
    rw [ha]
    unfold counted
    rw [hv, if_neg (by simp)]
    exact Statistics.countStall_mix ..
  | refused d hv hp ha | carried d hv hp ha =>
    rw [ha]
    exact accepted hv hp

theorem advance_mix (hr : m.reset = false) :
    (m.advance w).statistics.mix = (m.counted w).mix := by
  simp only [advance, clock, commit, hr]
  rfl

theorem advance_requests (hr : m.reset = false) :
    (m.advance w).memory.requests =
      m.memory.requests + (Instant.memoryRequest? ⟨m, w⟩).toList.length := by
  rw [advance_memory hr, Instant.memoryRequest?_eq]
  cases ha : m.memory.accepts w.access.bus with
  | true =>
    rw [DataMemory.next_of_accepts ha, DataMemory.accept_eq]
    rfl
  | false =>
    obtain ⟨p, hp⟩ := DataMemory.next_of_not_accepts ha
    rw [hp]
    rfl

/-- The counters after the cycles `ts`. -/
structure Tally (ts : List Instant) (m : Machine) : Prop where
  mix : m.statistics.mix = .of ts
  requests : m.statistics.memoryRequests = m.memory.requests
  accepted : m.memory.requests = (ts.filterMap Instant.memoryRequest?).length

theorem Tally.advance (h : Tally ts m) (hr : m.reset = false) (hw : m.Settled w) :
    Tally (ts ++ [⟨m, w⟩]) (m.advance w) where
  mix := by
    rw [advance_mix hr, counted_mix hr hw, h.mix]
    cases ha : Instant.accepted? ⟨m, w⟩ with
    | none => exact (Mix.of_concat_none ha).symm
    | some d => exact (Mix.of_concat_some ha).symm
  requests := rfl
  accepted := by
    rw [advance_requests hr, h.accepted, filterMap_concat, List.length_append]

theorem Tally.apply (h : Tally ts m) {e : Stimulus} (ht : e ≠ .tick)
    (hl : ∀ level, e = .reset level → level = false) : Tally ts (m.apply e) := by
  have same (hs : (m.apply e).statistics = m.statistics)
      (hm : (m.apply e).memory.requests = m.memory.requests) : Tally ts (m.apply e) :=
    ⟨hs ▸ h.mix, by rw [hs, hm, h.requests], hm ▸ h.accepted⟩
  cases e with
  | tick => exact absurd rfl ht
  | reset level =>
    obtain rfl := hl level rfl
    exact same rfl rfl
  | poke addr value =>
    exact same rfl (congrArg (·.requests) (DataMemory.store?_getD addr value (BitVec.allOnes 8)))
  | bytes addr b => exact same rfl (congrArg (·.requests) (DataMemory.load?_getD addr b))
  | interrupt | request | withdraw | collect | register | unit => exact same rfl rfl

theorem tally_after {writable : String → Bool} {c : Config} {p : Program} {m₀ : Machine}
    (hnew : Machine.new writable c p = .ok m₀) {h : List Stimulus}
    (hl : ∀ level, .reset level ∈ h → level = false) : Tally (m₀.cycles h) (m₀.after h) := by
  obtain ⟨-, rfl⟩ := eq_ofConfig_of_new hnew
  obtain ⟨-, later, hc, ht⟩ := low_induction (m := ofConfig c p) (h := [])
    (P := fun m ts => Tally ts m) rfl hl ⟨rfl, rfl, rfl⟩
    (fun k ts e he hne ht => ht.apply hne fun level hlevel => hl level (hlevel ▸ he))
    fun g ts w hr hw ht => ht.advance hr (settled_of_settle hw)
  rw [List.nil_append] at hc ht
  rw [hc]
  exact ht

/-! ## The account -/

/-- What the counters of `m` say about the cycles `ts`. -/
structure Counted (ts : List Instant) (m : Machine) : Prop where
  instructions : m.statistics.instructions = ts.countP (·.accepted?.isSome)
  units : m.statistics.single + m.statistics.multi = m.statistics.instructions
  loads : m.statistics.loads =
    ts.countP (·.pushes false) + ts.countP (·.refusesKind (· == .load))
  stores : m.statistics.stores =
    ts.countP (·.pushes true) + ts.countP (·.refusesKind (· == .store))
  multi : m.statistics.multi =
    ts.countP (·.dispatches) + ts.countP (·.refusesKind (·.slot?.isSome))
  requests : m.statistics.memoryRequests + m.access.unsent.length =
    ts.countP (·.pushes false) + ts.countP (·.pushes true)
  /-- If none has been refused the counters count what happens. -/
  plain : (∀ t ∈ ts, t.refusesKind (fun c => c.isMemory || c.slot?.isSome) = false) →
    m.statistics.loads = ts.countP (·.pushes false) ∧
      m.statistics.stores = ts.countP (·.pushes true) ∧
      m.statistics.multi = ts.countP (·.dispatches) ∧
      m.statistics.memoryRequests + m.access.unsent.length =
        m.statistics.loads + m.statistics.stores

/-- As long as reset is low the counters count what has happened since the first cycle, and of the
loads, stores and operations of functional units those as well that have been refused. -/
theorem statistics_count {writable : String → Bool} {c : Config} {p : Program} {m₀ : Machine}
    (hnew : Machine.new writable c p = .ok m₀) {h : List Stimulus}
    (hl : ∀ level, .reset level ∈ h → level = false) : Counted (m₀.cycles h) (m₀.after h) := by
  obtain ⟨hmix, hrequests, haccepted⟩ := tally_after hnew hl
  have hp : Paired (m₀.cycles h) (m₀.after h) := by
    obtain ⟨-, rfl⟩ := eq_ofConfig_of_new hnew
    exact paired_after h (cleared_ofConfig c p)
  have cycle : ∀ t ∈ m₀.cycles h, t.machine.reset = false ∧ t.machine.Settled t.signals := by
    intro t ht
    obtain ⟨hr, hw, -⟩ := of_mem_cycles ht
    exact ⟨hr, hw⟩
  have loads : (m₀.after h).statistics.loads = _ :=
    (congrArg Mix.loads hmix).trans <| countP_eq_add fun t ht =>
      Instant.acceptsKind_memory (cycle t ht).1 (cycle t ht).2 false
  have stores : (m₀.after h).statistics.stores = _ :=
    (congrArg Mix.stores hmix).trans <| countP_eq_add fun t ht =>
      Instant.acceptsKind_memory (cycle t ht).1 (cycle t ht).2 true
  have multi : (m₀.after h).statistics.multi = _ :=
    (congrArg Mix.multi hmix).trans <| countP_eq_add fun t ht =>
      Instant.acceptsKind_unit (cycle t ht).1 (cycle t ht).2
  have requests : (m₀.after h).statistics.memoryRequests + (m₀.after h).access.unsent.length =
      (m₀.cycles h).countP (·.pushes false) + (m₀.cycles h).countP (·.pushes true) := by
    obtain ⟨done, rest, hflow⟩ := hp.flow
    have hops := congrArg List.length hp.operations
    rw [List.length_map, List.length_map] at hops
    rw [hrequests, haccepted, hp.requests, hflow.length_unsent, hops,
      List.length_filterMap_eq_countP]
    exact countP_eq_add fun t ht => Instant.pushes_either (cycle t ht).2
  constructor
  case instructions => exact congrArg Mix.instructions hmix
  case units =>
    refine (congrArg (fun x => x.single + x.multi) hmix).trans ?_
    refine .trans ?_ (congrArg Mix.instructions hmix).symm
    exact (countP_eq_add fun t _ => t.acceptsKind_either).symm
  case loads => exact loads
  case stores => exact stores
  case multi => exact multi
  case requests => exact requests
  case plain =>
    intro hplain
    have none {p : ExecClass → Bool}
        (hp : ∀ c, p c = true → (c.isMemory || c.slot?.isSome) = true) :
        (m₀.cycles h).countP (·.refusesKind p) = 0 := by
      refine List.countP_eq_zero.2 fun t ht hr => ?_
      have := Instant.refusesKind_mono hp hr
      rw [hplain t ht] at this
      cases this
    rw [none fun c => by cases c <;> decide, Nat.add_zero] at loads stores multi
    rw [requests, loads, stores]
    exact ⟨rfl, rfl, multi, rfl⟩

/-- A store, a product and a load from an odd address. -/
def unaligned : Program :=
  { instructions := #[{ pc := resetVector, word := 0x00532023, opcode := .sw },
      { pc := resetVector + 4, word := 0x022081b3, opcode := .mul },
      { pc := resetVector + 8, word := 0x00103283, opcode := .ld }] }

theorem statistics_count_unaligned :
    let m₀ := ofConfig {} unaligned
    let h : List Stimulus := [.register 6 0x10000000] ++ .replicate 12 .tick
    Machine.new (fun _ => true) {} unaligned = .ok m₀ ∧
      (∀ level, .reset level ∈ h → level = false) ∧ Counted (m₀.cycles h) (m₀.after h) ∧
      (m₀.after h).statistics.mix = ⟨3, 2, 1, 1, 1⟩ ∧
      (m₀.cycles h).countP (·.pushes true) = 1 ∧ (m₀.cycles h).countP (·.dispatches) = 1 ∧
      (m₀.cycles h).countP (·.refusesKind (· == .load)) = 1 := by
  intro m₀ h
  have hnew : Machine.new (fun _ => true) {} unaligned = .ok m₀ := rfl
  have hl : ∀ level, .reset level ∈ h → level = false := by
    intro level hl
    simp [h] at hl
  exact ⟨hnew, hl, statistics_count hnew hl, by decide +kernel, by decide +kernel,
    by decide +kernel, by decide +kernel⟩

/-- The load is counted, though nothing has been handed over to the memory-access stage. -/
theorem load_miscounted_unaligned :
    let p : Program :=
      { instructions := #[{ pc := resetVector, word := 0x00103283, opcode := .ld }] }
    let m₀ := ofConfig {} p
    let m := m₀.after [.tick]
    Machine.new (fun _ => true) {} p = .ok m₀ ∧ m.statistics.loads = 1 ∧
      (m₀.cycles [.tick]).countP (·.pushes false) = 0 ∧
      m.statistics.memoryRequests + m.access.unsent.length = 0 :=
  ⟨rfl, by decide +kernel⟩

end Machine

end RiscvPipeline
