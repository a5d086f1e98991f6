import Mathlib.Data.List.Forall2
import RiscvPipeline.Memory.Queue
import RiscvPipeline.Proofs.Execute.Completion
import RiscvPipeline.Proofs.Execute.Operands

/-!
# Registers that an instruction does not name

The register file reaches the execute stage through the operands of the instruction that is
presented. `Cycle.Alike` relates cycles that differ in nothing but operands that make no difference:
in what a load leaves unused, and in operands on which a functional unit comes to the same.
`Alike.step` says that a cycle keeps this, if the operands that the instruction reads are the same,
so that registers which its hazards do not list have no effect (`hazards_complete`).
-/

namespace RiscvPipeline

/-- The unit of the slot answers both requests in the same way. -/
structure UnitRequest.Alike (k : Slot) (q q' : UnitRequest) : Prop where
  enable : q'.enable = q.enable
  opcode : q'.opcode = q.opcode
  result : ∀ o, q.opcode = some o → k.evaluate o q'.a q'.b = k.evaluate o q.a q.b

/-- The memory operations differ at most in data that a load does not use. -/
structure MemoryOp.Alike (p p' : MemoryOp) : Prop where
  rest : p' = { p with data := p'.data }
  data : p.store = true → p'.data = p.data

namespace Execute

structure SlotState.Alike (k : Slot) (x x' : SlotState) : Prop where
  busy : x'.busy = x.busy
  suppress : x'.suppress = x.suppress
  request : x.request.Alike k x'.request

structure State.Alike (r r' : State) : Prop where
  rest : r' = { r with slots := r'.slots }
  slots : ∀ k, (r.slots.get k).Alike k (r'.slots.get k)

structure Output.Alike (o o' : Output) : Prop where
  rest : o' = { o with memoryOp := o'.memoryOp, units := o'.units }
  memoryOp : Option.Rel MemoryOp.Alike o.memoryOp o'.memoryOp
  units : ∀ k, (o.units.get k).Alike k (o'.units.get k)

structure Cycle.Alike (c c' : Cycle) : Prop where
  next : c.next.Alike c'.next
  out : c.out.Alike c'.out

/-! ## What does not look at operands -/

namespace Cycle

/-- The cycle with other slots, other requests to the units and another memory operation. -/
def replace (c : Cycle) (x : PerSlot SlotState) (u : PerSlot UnitRequest) (p : Option MemoryOp) :
    Cycle :=
  { next := { c.next with slots := x }, out := { c.out with memoryOp := p, units := u } }

/-- The function does not look at what `replace` replaces, and leaves it alone. -/
def Blind (f : Cycle → Cycle) : Prop := ∀ c x u p, f (c.replace x u p) = (f c).replace x u p

variable {c c' : Cycle} {r : State} {i : Input}

theorem Alike.eq_replace (h : c.Alike c') :
    c' = c.replace c'.next.slots c'.out.units c'.out.memoryOp := by
  have hn := h.next.rest
  have ho := h.out.rest
  cases c'
  unfold replace
  congr

theorem Alike.of_replace {x : PerSlot SlotState} {u : PerSlot UnitRequest} {p : Option MemoryOp}
    (hx : ∀ k, (c.next.slots.get k).Alike k (x.get k))
    (hp : Option.Rel MemoryOp.Alike c.out.memoryOp p)
    (hu : ∀ k, (c.out.units.get k).Alike k (u.get k)) : c.Alike (c.replace x u p) :=
  ⟨⟨rfl, hx⟩, rfl, hp, hu⟩

theorem Alike.blind {f : Cycle → Cycle} (hf : Blind f) (h : c.Alike c') : (f c).Alike (f c') := by
  have hself : f c = (f c).replace c.next.slots c.out.units c.out.memoryOp := (hf c _ _ _).symm ▸ rfl
  rw [h.eq_replace, hf, hself]
  exact .of_replace h.next.slots h.out.memoryOp h.out.units

theorem blind_complete (b : Bool) (t : RegIndex) (v : Word) : Blind (·.complete b t v) := by
  intro c x u p
  dsimp only [complete]
  split
  · rfl
  · split <;> rfl

theorem blind_unitDone (k : Slot) (q : UnitResponse) : Blind (·.unitDone r i k q) := by
  obtain ⟨g, hg, h⟩ : ∃ g, Blind g ∧
      ∀ c, c.unitDone r i k q = (g c).complete i.writeReady r.current.target q.result :=
    ⟨_, fun _ _ _ _ => rfl, fun c => c.unitDone_eq r i k q⟩
  intro c x u p
  dsimp only
  rw [h, h, hg]
  exact blind_complete _ _ _ (g c) x u p

theorem blind_csrDone (q : CsrResponse) : Blind (·.csrDone r i q) := by
  intro c x u p
  dsimp only [csrDone]
  cases r.current.opcode with
  | none => rfl
  | some o =>
    dsimp only
    repeat' split
    all_goals first
      | rfl
      | exact blind_complete _ _ _ _ _ _ _

end Cycle

/-! ## Instructions -/

/-- The inputs differ at most in operands that the instruction does not read. -/
structure Input.Agrees (i j : Input) : Prop where
  rest : j = { i with a := j.a, b := j.b, fa := j.fa, fb := j.fb }
  operands : ∀ d, i.instruction = some d → SameOperands d i j

theorem SlotState.alike_start {k : Slot} {d : DecodedInstruction} {i j : Input}
    (h : SameOperands d i j) (hd : d.opcode.cls.slot? = some k) :
    (SlotState.start d i).Alike k (.start d j) where
  busy := rfl
  suppress := rfl
  request :=
    { enable := rfl
      opcode := rfl
      result := fun o ho => by
        obtain rfl : d.opcode = o := Option.some.inj ho
        exact h.evaluate hd }

namespace Cycle.Alike

variable {c c' : Cycle} {i j : Input} {d : DecodedInstruction}

theorem memory (h : c.Alike c') (ho : SameOperands d i j) (hr : j.memoryReady = i.memoryReady)
    (hd : d.opcode.cls = .load ∨ d.opcode.cls = .store) (tag : Tag) :
    (c.memory d i tag).Alike (c'.memory d j tag) := by
  have hh : c'.next.hazards = c.next.hazards := by rw [h.next.rest]
  unfold Cycle.memory
  rw [ho.memoryAddress hd, hr, hh]
  dsimp only
  split
  · exact h.blind (f := fun c => (c.raise d.pc (following d) _).accept d (following d))
      fun _ _ _ _ => rfl
  split
  · exact h.blind (f := (·.stall .hold)) fun _ _ _ _ => rfl
  · rw [h.eq_replace]
    refine .of_replace h.next.slots (.some ⟨?_, fun hs => ?_⟩) h.out.units
    · unfold memoryOp
      rw [ho.memoryAddress hd]
    · have hs : d.opcode.cls = .store := beq_iff_eq.1 hs
      exact ho.second (Opcode.reads_of_store hs).2

theorem dispatch (h : c.Alike c') (ho : SameOperands d i j) (hr : j.units = i.units) {k : Slot}
    (hd : d.opcode.cls.slot? = some k) {x x' : PerSlot SlotState}
    (hx : ∀ k, (x.get k).Alike k (x'.get k)) :
    (c.dispatch k d i x).Alike (c'.dispatch k d j x') := by
  have hbusy : x'.any (·.busy) = x.any (·.busy) := by
    show ((x'.get .mul).busy || (x'.get .div).busy || (x'.get .fpu).busy) = _
    rw [(hx .mul).busy, (hx .div).busy, (hx .fpu).busy]
    rfl
  unfold Cycle.dispatch
  rw [hbusy, hr]
  split
  · exact h.blind (f := (·.stall .hold)) fun _ _ _ _ => rfl
  · rw [h.eq_replace]
    refine .of_replace (fun l => ?_) h.out.memoryOp h.out.units
    have hset (c : Cycle) (y : SlotState) : (c.next.slots.set k y).get l =
        if l = k then y else c.next.slots.get l := by
      split
      next hl => rw [hl, PerSlot.get_set_same]
      next hl => rw [PerSlot.get_set_other _ hl]
    show SlotState.Alike l ((c.next.slots.set k (.start d i)).get l)
      ((c'.next.slots.set k (.start d j)).get l)
    rw [hset, hset]
    split
    next hl => exact hl ▸ SlotState.alike_start ho hd
    next => exact h.next.slots l

theorem start (h : c.Alike c') (hi : i.Agrees j) (hd : i.instruction = some d) {r r' : State}
    (hr : r.Alike r') (fpuEnabled : Bool) :
    (c.start fpuEnabled r d i).Alike (c'.start fpuEnabled r' d j) := by
  have ho := hi.operands d hd
  have hready : j.memoryReady = i.memoryReady := by rw [hi.rest]
  have hunits : j.units = i.units := by rw [hi.rest]
  have hwrite : j.writeReady = i.writeReady := by rw [hi.rest]
  have htag : r'.tag = r.tag := by rw [hr.rest]
  unfold Cycle.start
  dsimp only
  split
  · exact h.blind (f := fun c => (c.raise d.pc (following d) _).accept d (following d))
      fun _ _ _ _ => rfl
  have accepted (n : Word) : (c.accept d n).Alike (c'.accept d n) :=
    h.blind (f := (·.accept d n)) fun _ _ _ _ => rfl
  cases hc : d.opcode.cls with
  | alu | shift =>
    dsimp only
    rw [ho.aluResult (by simp [hc]), hwrite]
    exact (accepted _).blind (blind_complete _ _ _)
  | branch =>
    dsimp only
    rw [ho.branchTarget hc]
    exact accepted _
  | jump =>
    dsimp only
    rw [ho.jumpTarget hc, hwrite]
    exact (accepted _).blind (blind_complete _ _ _)
  | load =>
    dsimp only
    rw [htag]
    exact h.memory ho hready (.inl hc) r.tag
  | store =>
    dsimp only
    rw [htag]
    exact h.memory ho hready (.inr hc) r.tag
  | mul | div | fpu => exact h.dispatch ho hunits (by rw [hc]; rfl) hr.slots
  | csr =>
    dsimp only
    rw [ho.accessCsr]
    exact h.blind (f := (·.accessCsr d i)) fun _ _ _ _ => rfl
  | trapReturn => exact h.blind (f := (·.command d .trapReturn _)) fun _ _ _ _ => rfl
  | wfi => exact h.blind (f := (·.command d .wfi 0)) fun _ _ _ _ => rfl
  | ecall | ebreak =>
    exact h.blind (f := fun c => (c.raise d.pc (following d) _).accept d (following d))
      fun _ _ _ _ => rfl
  | fence | atomic => exact accepted _

theorem issue (h : c.Alike c') (hi : i.Agrees j) {r r' : State} (hr : r.Alike r')
    (fpuEnabled : Bool) : (c.issue fpuEnabled r i).Alike (c'.issue fpuEnabled r' j) := by
  have hinstr : j.instruction = i.instruction := by rw [hi.rest]
  have hnpcWrite : j.npcWrite = i.npcWrite := by rw [hi.rest]
  have hhold : j.hold = i.hold := by rw [hi.rest]
  have hnpc : r'.npc = r.npc := by rw [hr.rest]
  have hcsr : r'.csr = r.csr := by rw [hr.rest]
  have hhazards : r'.hazards = r.hazards := by rw [hr.rest]
  have hready : c.ready.Alike c'.ready := h.blind (f := (·.ready)) fun _ _ _ _ => rfl
  have stalled (p : Phase) : (c.ready.stall p).Alike (c'.ready.stall p) :=
    hready.blind (f := (·.stall p)) fun _ _ _ _ => rfl
  unfold Cycle.issue
  rw [hinstr, hnpcWrite, hhold, hnpc, hcsr, hhazards]
  cases hd : i.instruction with
  | none => exact hready
  | some d =>
    dsimp only
    split
    · exact hready
    split
    · exact hready.blind (f := fun c => { c with out.hold := true }) fun _ _ _ _ => rfl
    split
    · exact stalled .hold
    split
    · exact stalled .hazard
    · exact hready.start hi hd hr fpuEnabled

/-- A trap finds the same slots busy. -/
theorem trap (h : c.Alike c') (target : Word) : (c.trap target).Alike (c'.trap target) := by
  refine ⟨⟨?_, fun k => ?_⟩, ?_, h.out.memoryOp, h.out.units⟩
  · unfold Cycle.trap
    rw [h.next.rest]
  · have hk := h.next.slots k
    unfold Cycle.trap
    rw [PerSlot.get_map, PerSlot.get_map, hk.busy]
    split
    · exact ⟨rfl, rfl, hk.request⟩
    · exact hk
  · unfold Cycle.trap
    rw [h.out.rest]

end Cycle.Alike

/-! ## Cycles and runs -/

variable {s s' : Execute} {i j : Input}

theorem opening_alike (hs : s.state.Alike s'.state) (hi : i.Agrees j) :
    (s.opening i).Alike (s'.opening j) := by
  have hslots (k : Slot) : ((s.slotsLeft i).get k).Alike k ((s'.slotsLeft j).get k) := by
    have hk := hs.slots k
    have hfinishes : Cycle.finishes s'.state j k = Cycle.finishes s.state i k := by
      rw [Cycle.finishes, hk.busy, hi.rest]
      rfl
    unfold slotsLeft
    rw [PerSlot.get_ofFn, PerSlot.get_ofFn, hfinishes]
    split
    · exact ⟨rfl, rfl, rfl, hk.request.opcode, hk.request.result⟩
    · exact ⟨hk.busy, hk.suppress, rfl, hk.request.opcode, hk.request.result⟩
  have hunits (k : Slot) : ((s.state.slots.map SlotState.request).get k).Alike k
      ((s'.state.slots.map SlotState.request).get k) := by
    rw [PerSlot.get_map, PerSlot.get_map]
    exact (hs.slots k).request
  rw [opening_eq, opening_eq]
  refine ⟨⟨?_, hslots⟩, ?_, .none, hunits⟩
  · unfold hazardsLeft transactionLeft
    rw [hs.rest, hi.rest]
  · unfold busDrive
    rw [hs.rest, hi.rest]

theorem unitResult?_alike (hs : s.state.Alike s'.state) (hi : i.Agrees j) :
    Cycle.unitResult? s'.state j = Cycle.unitResult? s.state i := by
  have hu : j.units = i.units := by rw [hi.rest]
  unfold Cycle.unitResult? Cycle.finishes
  simp only [(hs.slots _).busy, (hs.slots _).suppress, hu]

/-- Operands that the instruction does not read make no difference to a cycle. -/
theorem State.Alike.step (hs : s.state.Alike s'.state) (hf : s'.fpuEnabled = s.fpuEnabled)
    (hi : i.Agrees j) : (s.step i).Alike (s'.step j) := by
  have ho := opening_alike hs hi
  have htrap : j.trap = i.trap := by rw [hi.rest]
  have hwrite : j.writeReady = i.writeReady := by rw [hi.rest]
  have hcurrent : s'.state.current = s.state.current := by rw [hs.rest]
  have hphase : s'.state.phase = s.state.phase := by rw [hs.rest]
  have hnpc : s'.state.npc = s.state.npc := by rw [hs.rest]
  have hcsr : s'.state.csr = s.state.csr := by rw [hs.rest]
  have hoccupied : (s.opening i).occupied.Alike (s'.opening j).occupied :=
    ho.blind (f := (·.occupied)) fun _ _ _ _ => rfl
  rw [step_eq, step_eq, htrap]
  cases i.trap with
  | some target => exact ho.trap target
  | none =>
    dsimp only
    unfold Cycle.advance
    rw [hphase]
    cases s.state.phase with
    | multi =>
      dsimp only
      rw [unitResult?_alike hs hi]
      cases Cycle.unitResult? s.state i with
      | none => exact hoccupied
      | some u =>
        dsimp only [Cycle.unitDone]
        rw [hcurrent, hnpc, hwrite]
        exact hoccupied.blind (Cycle.blind_unitDone (r := s.state) (i := i) u.1 u.2)
    | single =>
      have hresponse : Cycle.csrResponse? s'.state j = Cycle.csrResponse? s.state i := by
        rw [Cycle.csrResponse?, hs.rest, hi.rest]
        rfl
      dsimp only
      rw [hcsr, hresponse, hcurrent, hwrite]
      split
      · exact hoccupied.blind (Cycle.blind_complete _ _ _)
      · cases Cycle.csrResponse? s.state i with
        | none => exact hoccupied
        | some q =>
          have heq : (s'.opening j).occupied.csrDone s'.state j q =
              (s'.opening j).occupied.csrDone s.state i q := by
            unfold Cycle.csrDone Cycle.writeCsr
            rw [hcurrent, hcsr, hwrite, hnpc]
          dsimp only
          rw [heq]
          exact hoccupied.blind (Cycle.blind_csrDone q)
    | waiting | hold | hazard =>
      rw [hf]
      exact ho.issue hi hs s.fpuEnabled

theorem State.Alike.refl (r : State) : r.Alike r := ⟨rfl, fun _ => ⟨rfl, rfl, rfl, rfl, fun _ _ => rfl⟩⟩

theorem Input.Agrees.refl (i : Input) : i.Agrees i := ⟨rfl, fun _ _ => ⟨fun _ => rfl, fun _ => rfl⟩⟩

/-- Nor do they to a run. -/
theorem State.Alike.run {is js : List Input} (hi : List.Forall₂ Input.Agrees is js)
    (hs : s.state.Alike s'.state) (hf : s'.fpuEnabled = s.fpuEnabled) :
    List.Forall₂ (fun t u => (t.state.step t.input).Alike (u.state.step u.input))
      (clocked.moments s is) (clocked.moments s' js) := by
  induction hi generalizing s s' with
  | nil => exact .nil
  | cons hi _ ih => exact .cons (hs.step hf hi) (ih (hs.step hf hi).next hf)

/-! ## Registers that are read -/

/-- The instruction is presented, with its operands from the registers. -/
def Input.reading (i : Input) (d : DecodedInstruction) (r : Registers) : Input :=
  { i with
    instruction := some d
    a := r.read d.source1
    b := r.read d.source2
    fa := r.read d.source1
    fb := r.read d.source2 }

theorem Input.reading_agrees {d : DecodedInstruction} {r r' : Registers}
    (h0 : r.read 0 = r'.read 0) (hr : ∀ x, some x ∈ d.hazards → r.read x = r'.read x) :
    (i.reading d r).Agrees (i.reading d r') where
  rest := rfl
  operands e he := by
    obtain rfl : d = e := Option.some.inj he
    have hread {x : RegIndex} (hx : x ≠ 0 → some x ∈ d.hazards) : r'.read x = r.read x := by
      by_cases h : x = 0
      · rw [h, h0]
      · exact (hr x (hx h)).symm
    refine ⟨fun h1 => ?_, fun h2 => ?_⟩
    · have := hread (DecodedInstruction.source1_mem_hazards h1)
      simp only [operandA, reading, this]
    · have := hread (DecodedInstruction.source2_mem_hazards h2)
      simp only [operandB, reading, this]

/-! ## Registers that are written -/

/-- Nothing but `t` is written in the cycle, or afterwards by the instruction that is not
finished. -/
structure Cycle.Targets (t : RegIndex) (c : Cycle) : Prop where
  current : c.next.phase.IsOpen ∨ c.next.current.target = 0 ∨ c.next.current.target = t
  write : c.out.write.enable = true → c.out.write.target = t ∧ t ≠ 0

theorem Cycle.targets_complete {c : Cycle} {t x : RegIndex} (hx : x = 0 ∨ x = t)
    (hw : c.out.write.enable = false) (b : Bool) (v : Word) : (c.complete b x v).Targets t := by
  unfold complete
  split
  · exact ⟨.inl (.inl rfl), fun h => absurd (hw.symm.trans h) Bool.false_ne_true⟩
  next h0 =>
    obtain rfl := hx.resolve_left h0
    split
    · exact ⟨.inl (.inl rfl), fun _ => ⟨rfl, h0⟩⟩
    · exact ⟨.inr (.inr rfl), fun h => absurd (hw.symm.trans h) Bool.false_ne_true⟩

section

attribute [local simp] opening_eq Cycle.trap Cycle.occupied Cycle.ready Cycle.raise Cycle.accept
  Cycle.keep Cycle.unitDone_eq Cycle.accessCsr Cycle.command Cycle.writeCsr

theorem step_targets {t : RegIndex}
    (hs : s.state.phase.IsOpen ∨ s.state.current.target = 0 ∨ s.state.current.target = t)
    (ha : ∀ d, s.accepted? i = some d → d.target = t) : (s.step i).Targets t := by
  have hbusy (hp : ¬ s.state.phase.IsOpen) : s.state.current.target = 0 ∨
      s.state.current.target = t := hs.resolve_left hp
  have h := step_outcome (s := s) (i := i)
  have hvalid : (s.step i).out.valid = true → ∀ d, i.instruction = some d → d.target = t :=
    fun hv d hd => ha d (accepted?_eq_some.2 ⟨hv, hd⟩)
  generalize s.step i = c at h hvalid
  have kept {c : Cycle} (hp : c.next.phase = s.state.phase) (hc : c.next.current = s.state.current)
      (hw : c.out.write.enable = false) : c.Targets t :=
    ⟨by rw [hp, hc]; exact hs, fun h => absurd (hw.symm.trans h) Bool.false_ne_true⟩
  have opened {c : Cycle} (hp : c.next.phase.IsOpen) (hw : c.out.write.enable = false) :
      c.Targets t := ⟨.inl hp, fun h => absurd (hw.symm.trans h) Bool.false_ne_true⟩
  have single (hp : s.state.phase = .single) : ¬ s.state.phase.IsOpen := fun h => h.ne_single hp
  have multi (hp : s.state.phase = .multi) : ¬ s.state.phase.IsOpen := by
    rw [hp]
    rintro (h | h | h) <;> cases h
  cases h with
  | trapped => exact opened (.inl rfl) (by simp)
  | running | pending => exact kept (by simp) (by simp) (by simp)
  | finished k u _ hp =>
    rw [Cycle.unitDone_eq]
    exact Cycle.targets_complete (hbusy (multi hp)) (by simp) _ _
  | parked _ hp => exact Cycle.targets_complete (hbusy (single hp)) (by simp) _ _
  | answered q c _ hp _ _ hq =>
    cases hq with
    | ended | rejected | returned => exact opened (.inl rfl) (by simp)
    | rewrite => exact ⟨.inr (by simpa using hbusy (single hp)), by simp⟩
    | completed => exact Cycle.targets_complete (hbusy (single hp)) (by simp) _ _
  | passed p b _ _ hn => exact opened hn (by simp)
  | accepted d c _ _ ho hc =>
    have hd (hv : c.out.valid = true) : d.target = t := hvalid hv d ho.instruction
    cases hc with
    | alu | jump => exact Cycle.targets_complete (.inr (hd (by simp [Cycle.complete_eq]))) (by simp) _ _
    | dispatch | csr => exact ⟨.inr (.inr (hd (by simp))), by simp⟩
    | trapReturn | wfi => exact ⟨.inr (.inl rfl), by simp⟩
    | _ => exact opened (.inl rfl) (by simp)

end

/-- The registers that a cycle writes and that the load which it hands over will write. -/
def targets (t : Moment Execute Input) : List RegIndex :=
  let o := (t.state.step t.input).out
  (if o.write.enable then [o.write.target] else []) ++
    (o.memoryOp.map fun p => (QueueEntry.ofMemoryOp p).target).toList

variable {d : DecodedInstruction} {t first : Moment Execute Input}
  {later : List (Moment Execute Input)}

theorem eq_of_mem_targets {x : RegIndex} (hc : (t.state.step t.input).Targets x)
    (ha : ∀ d, t.state.accepted? t.input = some d → d.target = x) :
    ∀ y ∈ targets t, y ≠ 0 → y = x := by
  intro y hy h0
  rcases List.mem_append.1 hy with hy | hy
  · split at hy
    next he => exact (List.mem_singleton.1 hy).trans (hc.write he).1
    next => cases hy
  · obtain ⟨p, hp, rfl⟩ := Option.map_eq_some_iff.1 (Option.mem_toList.1 hy)
    obtain ⟨hv, d, ho, -, rfl⟩ := accepted_of_memoryOp hp
    have hd := ha d (accepted?_eq_some.2 ⟨hv, ho.instruction⟩)
    unfold QueueEntry.ofMemoryOp at h0 ⊢
    dsimp only at h0 ⊢
    split at h0
    · exact absurd rfl h0
    next hs => rw [if_neg hs]; exact hd

/-- Until the next instruction is accepted, the last one writes no other register than its
target. -/
theorem targets_of_moments {is : List Input} (h : clocked.moments s is = [] ++ first :: later)
    (hf : first.state.accepted? first.input = some d)
    (hl : ∀ t ∈ later, t.state.accepted? t.input = none) :
    ∀ t ∈ first :: later, ∀ x ∈ targets t, x ≠ 0 → x = d.target := by
  refine (Clocked.since_induction (m := clocked) (I := fun _ => True)
    (S := fun t => t.state.accepted? t.input = some d)
    (Q := fun t => t.state.accepted? t.input = none)
    (P := fun t ts x => (x.state.phase.IsOpen ∨ x.state.current.target = 0 ∨
      x.state.current.target = d.target) ∧ ∀ u ∈ t :: ts, ∀ y ∈ targets u, y ≠ 0 → y = d.target)
    (fun _ _ _ => trivial) ?_ ?_ trivial h hf hl).2
  · intro x i _ hx
    obtain ⟨-, -, hopen, -⟩ := offered_of_valid (accepted?_eq_some.1 hx).1
    have ha : ∀ e, x.accepted? i = some e → e.target = d.target := by
      intro e he
      rw [Option.some.inj (hx.symm.trans he)]
    have hc := step_targets (.inl hopen) ha
    refine ⟨hc.current, fun u hu => ?_⟩
    obtain rfl := List.mem_singleton.1 hu
    exact eq_of_mem_targets hc ha
  · intro t ts x i _ hx ⟨hp, hts⟩
    have ha : ∀ e, x.accepted? i = some e → e.target = d.target := by
      intro e he
      rw [hx] at he
      cases he
    have hc := step_targets hp ha
    refine ⟨hc.current, fun u hu => ?_⟩
    rw [← List.cons_append] at hu
    rcases List.mem_append.1 hu with hu | hu
    · exact hts u hu
    · obtain rfl := List.mem_singleton.1 hu
      exact eq_of_mem_targets hc ha

/-- Registers that the hazards of an instruction do not list have no effect on it: from the cycle in
which it is presented, all cycles are alike. The third hazard is the one register that it writes. -/
theorem hazards_complete {r r' : Registers} (h0 : r.read 0 = r'.read 0)
    (hr : ∀ x, some x ∈ d.hazards → r.read x = r'.read x) (s : Execute) (i : Input)
    (later : List Input) :
    let cycles (r : Registers) := clocked.moments s (i.reading d r :: later)
    List.Forall₂ (fun t u => (t.state.step t.input).Alike (u.state.step u.input))
        (cycles r) (cycles r') ∧
      (s.step (i.reading d r)).out.readIndex1 = d.source1 ∧
      (s.step (i.reading d r)).out.readIndex2 = d.source2 ∧
      (s.accepted? (i.reading d r) = some d →
        (∀ t ∈ (cycles r).tail, t.state.accepted? t.input = none) →
        ∀ t ∈ cycles r, ∀ x ∈ targets t, x ≠ 0 → d.hazards[2]? = some (some x)) := by
  intro cycles
  refine ⟨?_, step_wired.readIndex1, step_wired.readIndex2, fun hf hl t ht x hx hne => ?_⟩
  · refine State.Alike.run (.cons (Input.reading_agrees h0 hr) ?_) (.refl s.state) rfl
    exact List.forall₂_same.2 fun j _ => .refl j
  · have hcycles : cycles r = [] ++ ⟨s, i.reading d r⟩ :: (cycles r).tail := rfl
    have hxt := targets_of_moments hcycles hf hl t ht x hx hne
    rw [hxt] at hne ⊢
    have hthird : d.hazards[2]? = some (if true && d.target != 0 then some d.target else none) := rfl
    rw [hthird, Bool.true_and, if_pos (bne_iff_ne.2 hne)]

/-- A load whose immediate looks like register 8. -/
def loading : DecodedInstruction := { pc := resetVector, word := 0x00813083, opcode := .ld }

/-- What is in register 8 does not go further than the data that the load leaves unused. -/
theorem hazards_complete_loading :
    let r := ({} : Registers).write 2 0x10000000
    let i : Input := { memoryReady := true }
    let t (v : Word) : Moment Execute Input := ⟨{}, i.reading loading (r.write 8 v)⟩
    loading.source2 = 8 ∧
      (∀ x, some x ∈ loading.hazards → (r.write 8 1).read x = (r.write 8 2).read x) ∧
      (({} : Execute).step (t 1).input).Alike (({} : Execute).step (t 2).input) ∧
      targets (t 1) = [1] ∧ loading.hazards[2]? = some (some 1) := by
  intro r i t
  have hr : ∀ x, some x ∈ loading.hazards → (r.write 8 1).read x = (r.write 8 2).read x := by
    have hh : loading.hazards = [some 2, none, some 1] := by decide
    intro x hx
    have hx : x = 2 ∨ x = 1 := by simpa [hh] using hx
    rcases hx with rfl | rfl <;> decide
  have h0 : (r.write 8 1).read 0 = (r.write 8 2).read 0 := by decide
  obtain ⟨hcycles, -, -, htargets⟩ := hazards_complete h0 hr {} i []
  have ht : targets (t 1) = [1] := by decide +kernel
  refine ⟨by decide, hr, ?_, ht, ?_⟩
  · obtain ⟨h, -⟩ := List.forall₂_cons.1 hcycles
    exact h
  · refine htargets (by decide +kernel) (fun u hu => nomatch hu) (t 1) List.mem_cons_self 1 ?_
      (by decide)
    rw [ht]
    exact List.mem_singleton_self 1

end Execute

end RiscvPipeline
