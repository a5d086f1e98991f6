import RiscvPipeline.Proofs.Execute.Outcome
import RiscvPipeline.Units.Functional

/-! A slot of the execute stage and the unit that serves it. -/

namespace RiscvPipeline

namespace LatencyUnit

variable (u : LatencyUnit)

/-- The unit waits for an operation. -/
def Idle : Prop := u.state.busy = false ∧ u.state.valid = false

/-- The unit will answer, or answers, with a value. -/
def Works (v : Word) : Prop := u.state.valid = !u.state.busy ∧ u.state.result = v

/-- The unit after a cycle. -/
def next (q : UnitRequest) : LatencyUnit := { u with state := u.propose q }

variable {u} {q : UnitRequest}

theorem Idle.next (h : u.Idle) (hq : q.enable = false) : (u.next q).Idle := by
  obtain ⟨hb, hv⟩ := h
  simp [Idle, LatencyUnit.next, propose, hb, hq]

theorem Idle.started (h : u.Idle) {o : Opcode} (hq : q.enable = true)
    (ho : q.opcode = some o) : (u.next q).Works (u.slot.evaluate o q.a q.b).1 := by
  obtain ⟨hb, hv⟩ := h
  unfold Works LatencyUnit.next propose start
  simp only [hb, hq, ho]
  by_cases h1 : u.latency = 1 <;> simp [h1]

theorem Works.next {v : Word} (h : u.Works v) (hv : u.state.valid = false) :
    (u.next q).Works v := by
  obtain ⟨hb, hr⟩ := h
  have hb : u.state.busy = true := by simpa [hv] using hb.symm
  unfold Works LatencyUnit.next propose
  simp only [hb, if_true]
  split <;> simp [hr]

theorem Works.answered {v : Word} (h : u.Works v) (hv : u.state.valid = true)
    (hq : q.enable = false) : (u.next q).Idle := by
  obtain ⟨hb, -⟩ := h
  have hb : u.state.busy = false := by simpa [hv] using hb.symm
  simp [Idle, LatencyUnit.next, propose, hb, hq]

end LatencyUnit

open Execute

/-- What a slot and its unit will deliver: nothing if the slot is free, the value of the operation
if it is about to start or under way. -/
inductive Delivers (k : Slot) : SlotState → FunctionalUnit → Option Word → Prop
  | free {x : SlotState} {u : LatencyUnit} (hk : u.slot = k)
      (hb : x.busy = false) (he : x.enable = false) (hi : u.Idle) :
    Delivers k x (.latency u) none
  | started {x : SlotState} {u : LatencyUnit} {o : Opcode} (hk : u.slot = k)
      (hb : x.busy = true) (he : x.enable = true) (hs : x.suppress = false)
      (ho : x.opcode = some o) (hi : u.Idle) :
    Delivers k x (.latency u) (some (k.evaluate o x.a x.b).1)
  | working {x : SlotState} {u : LatencyUnit} {v : Word} (hk : u.slot = k)
      (hb : x.busy = true) (he : x.enable = false) (hs : x.suppress = false) (hw : u.Works v) :
    Delivers k x (.latency u) (some v)

namespace Delivers

variable {k : Slot} {x : SlotState} {u : FunctionalUnit} {v : Option Word} {q : UnitRequest}

theorem busy_eq (h : Delivers k x u v) : x.busy = v.isSome := by
  cases h with
  | free _ hb => exact hb
  | started _ hb => exact hb
  | working _ hb => exact hb

/-- An operation is put into a free slot. -/
theorem start (h : Delivers k x u none) (d : DecodedInstruction) (i : Input) :
    Delivers k (.start d i) u (some (k.evaluate d.opcode (operandA d i) (operandB d i)).1) := by
  cases h with
  | free hk _ _ hi => exact .started hk rfl rfl rfl rfl hi

/-- In a cycle the unit goes on, or it answers and leaves the slot free. -/
theorem next (h : Delivers k x u v) :
    (x.busy && (u.response q).valid) = false ∧
        Delivers k { x with enable := false } (u.next false x.request) v ∨
      (x.busy && (u.response q).valid) = true ∧ x.suppress = false ∧
        v = some (u.response q).result ∧
        Delivers k { x with enable := false, busy := false, suppress := false }
          (u.next false x.request) none := by
  cases h with
  | free hk hb he hi =>
    refine .inl ⟨by rw [hb]; rfl, ?_⟩
    exact .free hk hb rfl (hi.next (q := x.request) he)
  | started hk hb he hs ho hi =>
    refine .inl ⟨?_, ?_⟩
    · have hv : (FunctionalUnit.response (.latency _) q).valid = false := hi.2
      rw [hv, Bool.and_false]
    · have hw := hi.started (q := x.request) he ho
      rw [hk] at hw
      exact .working hk hb rfl hs hw
  | @working u v hk hb he hs hw =>
    cases hv : u.state.valid with
    | false =>
      refine .inl ⟨?_, ?_⟩
      · have hr : (FunctionalUnit.response (.latency u) q).valid = false := hv
        rw [hr, Bool.and_false]
      · exact .working hk hb rfl hs (hw.next hv)
    | true =>
      have hr : (FunctionalUnit.response (.latency u) q).valid = true := hv
      refine .inr ⟨by rw [hb, hr]; rfl, hs, ?_, ?_⟩
      · have : (FunctionalUnit.response (.latency u) q).result =
            if u.state.valid then u.state.result else 0 := rfl
        rw [this, hv, if_pos rfl, hw.2]
      · exact .free hk rfl rfl (hw.answered (q := x.request) hv he)

end Delivers

end RiscvPipeline
