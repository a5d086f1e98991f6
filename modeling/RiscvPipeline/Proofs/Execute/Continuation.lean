import RiscvPipeline.Proofs.Execute.Control

/-!
# Where the execute stage goes on

`step_npc` gives the next program counter after a cycle: a trap goes first, then the instruction that
is accepted, the answer to a return from a trap, and a debug access. In a cycle in which the stage
stalls there is none of these, and nothing else happens either.
-/

namespace RiscvPipeline.Execute

/-- Where an accepted instruction continues. -/
def successor (fpuEnabled : Bool) (d : DecodedInstruction) (i : Input) : Word :=
  if isIllegal fpuEnabled d then following d
  else
    match d.opcode.cls with
    | .branch => branchTarget d i
    | .jump => jumpTarget d i
    | _ => following d

variable (s : Execute) (i : Input)

/-- The instruction that a cycle accepts. -/
def accepted? : Option DecodedInstruction :=
  if (s.step i).out.valid then i.instruction else none

/-- The address that the bus answers to a return from a trap. -/
def returned? : Option Word :=
  if s.state.phase = .single ∧ s.state.current.opcode.any (·.cls == .trapReturn) then
    (Cycle.csrResponse? s.state i).bind fun q => if q.exception then none else some q.data
  else none

/-- What sends the stage elsewhere. -/
def redirect? : Option Word :=
  i.trap.or <|
    ((s.accepted? i).map (successor s.fpuEnabled · i)).or <| (s.returned? i).or i.npcWrite

variable {s i} {d : DecodedInstruction}

section

attribute [local simp] opening_eq Cycle.trap Cycle.occupied Cycle.ready Cycle.raise Cycle.accept
  Cycle.keep Cycle.complete_eq Cycle.unitDone_eq Cycle.accessCsr Cycle.command Cycle.writeCsr

/-- An instruction is only accepted at the next program counter, and announced with it. -/
theorem offered_of_valid (hv : (s.step i).out.valid = true) :
    ∃ d, i.trap = none ∧ s.state.phase.IsOpen ∧ s.Offered i d ∧ (s.step i).out.pc = d.pc ∧
      (s.step i).next.npc = successor s.fpuEnabled d i := by
  have h := step_outcome (s := s) (i := i)
  generalize s.step i = c at h hv
  cases h with
  | trapped | running | parked | pending | finished | passed => simp at hv
  | answered _ _ _ _ _ _ ha => cases ha <;> simp at hv
  | accepted d c ht hp ho ha =>
    refine ⟨d, ht, hp, ho, ?_⟩
    unfold successor
    cases ha with
    | illegal hl => simp [hl]
    | alu hl hd | misaligned hl hd | memory hl hd => rcases hd with hd | hd <;> simp [hl, hd]
    | branch hl hd | jump hl hd | csr hl hd | trapReturn hl hd | wfi hl hd | ecall hl hd
    | ebreak hl hd | fence hl hd => simp [hl, hd]
    | dispatch k hl hd =>
      cases hc : d.opcode.cls with
      | mul | div | fpu => simp [hl]
      | _ => simp [hc, ExecClass.slot?] at hd

theorem accepted?_eq_some : s.accepted? i = some d ↔
    (s.step i).out.valid = true ∧ i.instruction = some d := by
  unfold accepted?
  split <;> simp [*]

theorem accepted?_eq_none : s.accepted? i = none ↔ (s.step i).out.valid = false := by
  unfold accepted?
  split
  next hv =>
    obtain ⟨d, -, -, ho, -⟩ := offered_of_valid hv
    simp [hv, ho.instruction]
  next hv => simpa using hv

theorem returned?_eq_none (h : Cycle.csrResponse? s.state i = none) : s.returned? i = none := by
  unfold returned?
  split
  · rw [h]
    rfl
  · rfl

theorem returned?_of_ne_single (h : s.state.phase ≠ .single) : s.returned? i = none := by
  unfold returned?
  rw [if_neg fun hc => h hc.1]

/-- What a cycle that accepts nothing makes of the next program counter. -/
theorem npc_of_not_valid (ht : i.trap = none) (hv : (s.step i).out.valid = false) :
    (s.step i).next.npc = ((s.returned? i).or i.npcWrite).getD s.state.npc := by
  have h := step_outcome (s := s) (i := i)
  generalize s.step i = c at h hv
  have of_none (hr : s.returned? i = none) :
      ((s.returned? i).or i.npcWrite).getD s.state.npc = i.npcWrite.getD s.state.npc := by
    rw [hr, Option.none_or]
  cases h with
  | trapped _ ht' => rw [ht] at ht'; cases ht'
  | running _ hp | finished _ _ _ hp =>
    rw [of_none (returned?_of_ne_single (by simp [hp]))]
    simp
  | parked _ hp hc =>
    rw [of_none (returned?_eq_none (by simp [Cycle.csrResponse?, hc]))]
    simp
  | pending _ hp hc hq =>
    rw [of_none (returned?_eq_none hq)]
    simp
  | passed p b _ hp =>
    rw [of_none (returned?_of_ne_single hp.ne_single)]
    simp
  | answered q c _ hp _ hq ha =>
    cases ha with
    | ended ho =>
      have hr : s.returned? i = none := by
        unfold returned?
        cases hc : s.state.current.opcode with
        | none => simp
        | some o => simp [(ho o hc).2.1]
      rw [of_none hr]
      simp
    | rejected o ho hx => simp [returned?, hp, ho, hq, hx]
    | returned o ho hx hd => simp [returned?, hp, ho, hd, hq, hx]
    | rewrite o ho hx hd | completed o v ho hx hd => simp [returned?, hp, ho, hd]
  | accepted d c _ _ _ ha =>
    have hvalid : c.out.valid = true := by cases ha <;> simp
    rw [hvalid] at hv
    cases hv

theorem step_npc : (s.step i).next.npc = (s.redirect? i).getD s.state.npc := by
  unfold redirect?
  cases ht : i.trap with
  | some target =>
    rw [step_trap ht]
    rfl
  | none =>
    rw [Option.none_or]
    cases hv : (s.step i).out.valid with
    | true =>
      obtain ⟨d, -, -, ho, -, hn⟩ := offered_of_valid hv
      rw [hn, accepted?_eq_some.2 ⟨hv, ho.instruction⟩]
      rfl
    | false =>
      rw [npc_of_not_valid ht hv, accepted?_eq_none.2 hv]
      rfl

end

/-! ## Stalls -/

section

variable (s i)

/-- The instruction that is presented has to wait. -/
def Stalls : Prop :=
  (s.step i).next.phase = .hold ∨ (s.step i).next.phase = .hazard ∨
    s.state.phase.IsOpen ∧ i.hold = true ∧ i.trap = none ∧ i.npcWrite = none

/-- Nothing happens but what is under way already. -/
structure Frozen (c : Cycle) : Prop where
  npc : c.next.npc = s.state.npc
  tag : c.next.tag = s.state.tag
  valid : c.out.valid = false
  write : c.out.write.enable = false
  memoryOp : c.out.memoryOp = none
  csr : s.Keeps i c
  enable : ∀ k, (c.next.slots.get k).enable = false
  busy : ∀ k, (c.next.slots.get k).busy = true → (s.state.slots.get k).busy = true

end

/-- A debug access does not come in a cycle that leaves the stage holding an instruction. -/
theorem npcWrite_of_held (h : (s.step i).next.phase = .hold ∨ (s.step i).next.phase = .hazard)
    (hp : s.state.phase.IsOpen) (ht : i.trap = none) : i.npcWrite = none := by
  have hw : (s.step i).next.phase ≠ .waiting := by rcases h with h | h <;> rw [h] <;> decide
  by_contra hn
  apply hw
  have hissue : s.step i = (s.opening i).issue s.fpuEnabled s.state i := by
    rw [step_eq, ht]
    rcases hp with hp | hp | hp <;> simp [Cycle.advance, hp]
  rw [hissue]
  unfold Cycle.issue
  cases i.instruction with
  | none => rfl
  | some d =>
    dsimp only
    rw [if_pos (.inr (Option.isSome_iff_ne_none.2 hn))]
    rfl

attribute [local simp] opening_eq Cycle.trap Cycle.occupied Cycle.ready Cycle.raise Cycle.accept
  Cycle.keep Cycle.complete_eq Cycle.unitDone_eq Cycle.accessCsr Cycle.command Cycle.writeCsr
  slotsLeft_enable

theorem Stalls.passed (h : s.Stalls i) : i.npcWrite = none ∧ ∃ p b, s.step i =
    { next := { (s.opening i).next with phase := p }
      out := { (s.opening i).out with hold := b } } := by
  have single_or_waiting (q : Prop) [Decidable q] :
      ¬ ((if q then Phase.waiting else .single) = .hold ∨
        (if q then Phase.waiting else .single) = .hazard) := by
    split <;> simp
  rw [Stalls, ← or_assoc] at h
  have hw (hh : (s.step i).next.phase = .hold ∨ (s.step i).next.phase = .hazard) :=
    npcWrite_of_held hh
  have ho := step_outcome (s := s) (i := i)
  generalize s.step i = c at ho h hw
  cases ho with
  | passed p b ht hp =>
    refine ⟨?_, p, b, rfl⟩
    rcases h with h | h
    · exact hw h hp ht
    · exact h.2.2.2
  | trapped _ ht => simp [ht] at h
  | running _ hp | pending _ hp => simp [hp, Phase.IsOpen] at h
  | parked _ hp | finished _ _ _ hp => simp [hp, Phase.IsOpen, single_or_waiting] at h
  | answered _ _ _ hp _ _ ha => cases ha <;> simp [hp, Phase.IsOpen, single_or_waiting] at h
  | accepted _ _ _ _ ho ha => cases ha <;> simp [ho.hold, single_or_waiting] at h

theorem Stalls.frozen (h : s.Stalls i) : s.Frozen i (s.step i) := by
  obtain ⟨hw, p, b, hs⟩ := h.passed
  rw [hs]
  constructor
  case csr => exact .of_left (by simp)
  case busy => exact fun k hk => slotsLeft_busy (i := i) (by simpa using hk)
  all_goals simp [hw]

end RiscvPipeline.Execute
