import RiscvPipeline.Execute.Stage

/-! The outcomes of a cycle of the execute stage. `step_outcome` says once what a cycle can come to:
each way in which it can go is one constructor of `Outcome`, with the conditions under which it is
taken and the cycle that results. -/

namespace RiscvPipeline

theorem PerSlot.any_eq_false {α : Type} {p : PerSlot α} {f : α → Bool} :
    p.any f = false ↔ ∀ k, f (p.get k) = false := by
  constructor
  · intro h k
    simp only [PerSlot.any, Bool.or_eq_false_iff] at h
    cases k with
    | mul => exact h.1.1
    | div => exact h.1.2
    | fpu => exact h.2
  · intro h
    have h1 := h .mul
    have h2 := h .div
    have h3 := h .fpu
    simp only [PerSlot.get] at h1 h2 h3
    simp [PerSlot.any, h1, h2, h3]

namespace Execute

namespace Cycle

section

variable (c : Cycle)

/-- A completed result changes the instruction in flight, the phase and the register write. -/
theorem complete_eq (b : Bool) (t : RegIndex) (v : Word) :
    c.complete b t v =
      { next := { c.next with
          current := if t = 0 ∨ b = true then c.next.current
            else { c.next.current with target := t, result := v }
          phase := if t = 0 ∨ b = true then .waiting else .single }
        out := { c.out with
          write := if t = 0 ∨ b = false then c.out.write
            else { enable := true, target := t, data := v } } } := by
  unfold complete ready
  split
  next ht => simp only [ht, true_or, if_true]
  next ht => cases b <;> simp only [ht, or_true, or_false, if_true, if_false, reduceCtorEq]

theorem complete_phase (b : Bool) (t : RegIndex) (v : Word) : (c.complete b t v).next.phase =
    if t = 0 ∨ b = true then .waiting else .single := by
  rw [complete_eq]

theorem complete_current (b : Bool) (t : RegIndex) (v : Word) : (c.complete b t v).next.current =
    if t = 0 ∨ b = true then c.next.current
    else { c.next.current with target := t, result := v } := by
  rw [complete_eq]

theorem complete_slots (b : Bool) (t : RegIndex) (v : Word) :
    (c.complete b t v).next.slots = c.next.slots := by
  rw [complete_eq]

theorem complete_write (b : Bool) (t : RegIndex) (v : Word) : (c.complete b t v).out.write =
    if t = 0 ∨ b = false then c.out.write else { enable := true, target := t, data := v } := by
  rw [complete_eq]

/-- The flags of a floating-point result are raised on the way to its completion. -/
theorem unitDone_eq (r : State) (i : Input) (s : Slot) (u : UnitResponse) :
    c.unitDone r i s u =
      Cycle.complete
        { c with out := { c.out with
            fpuValid := if s = .fpu then true else c.out.fpuValid
            exceptions := if s = .fpu ∧ u.flags.isEmpty = false then
                { c.out.exceptions with pc := r.current.pc, npc := r.npc, fpu := u.flags }
              else c.out.exceptions } }
        i.writeReady r.current.target u.result := by
  cases s <;> cases hu : u.flags.isEmpty <;> simp [unitDone, raise, hu]

end

/-! ## Acceptance -/

/-- The ways in which an instruction is accepted in a cycle that has come to `c`. -/
inductive Accepted (fpuEnabled : Bool) (c : Cycle) (r : State) (i : Input)
    (d : DecodedInstruction) : Cycle → Prop
  | illegal (hl : isIllegal fpuEnabled d = true) :
    Accepted fpuEnabled c r i d
      ((c.raise d.pc (following d) fun e => { e with illegal := true }).accept d (following d))
  | alu (hl : isIllegal fpuEnabled d = false) (hd : d.opcode.cls = .alu ∨ d.opcode.cls = .shift) :
    Accepted fpuEnabled c r i d
      ((c.accept d (following d)).complete i.writeReady d.target (aluResult d i))
  | branch (hl : isIllegal fpuEnabled d = false) (hd : d.opcode.cls = .branch) :
    Accepted fpuEnabled c r i d (c.accept d (branchTarget d i))
  | jump (hl : isIllegal fpuEnabled d = false) (hd : d.opcode.cls = .jump) :
    Accepted fpuEnabled c r i d
      ((c.accept d (jumpTarget d i)).complete i.writeReady d.target (following d))
  | misaligned (hl : isIllegal fpuEnabled d = false)
      (hd : d.opcode.cls = .load ∨ d.opcode.cls = .store)
      (ha : d.opcode.traits.size.aligned (memoryAddress d i) = false) :
    Accepted fpuEnabled c r i d
      ((c.raise d.pc (following d) fun e =>
        { e with
          misalignedLoad := !(d.opcode.cls == .store)
          misalignedStore := d.opcode.cls == .store }).accept d (following d))
  | memory (hl : isIllegal fpuEnabled d = false)
      (hd : d.opcode.cls = .load ∨ d.opcode.cls = .store)
      (ha : d.opcode.traits.size.aligned (memoryAddress d i) = true) (hr : i.memoryReady = true)
      (hf : d.target = 0 ∨ c.next.hazards.isFull = false) :
    Accepted fpuEnabled c r i d
      (Cycle.accept
        { next := { c.next with
            tag := nextTag r.tag
            hazards := if d.opcode.cls = .store then c.next.hazards
              else c.next.hazards.issue d.target r.tag }
          out := { c.out with memoryOp := some (memoryOp d i r.tag) } }
        d (following d))
  | dispatch (k : Slot) (hl : isIllegal fpuEnabled d = false) (hd : d.opcode.cls.slot? = some k)
      (hs : r.slots.any (·.busy) = false) (hu : i.units.any (·.busy) = false) :
    Accepted fpuEnabled c r i d
      (Cycle.keep
        (Cycle.accept { c with next.slots := c.next.slots.set k (.start d i) } d (following d))
        { pc := d.pc, word := d.word, opcode := some d.opcode, target := d.target } .multi)
  | csr (hl : isIllegal fpuEnabled d = false) (hd : d.opcode.cls = .csr) :
    Accepted fpuEnabled c r i d (c.accessCsr d i)
  | trapReturn (hl : isIllegal fpuEnabled d = false) (hd : d.opcode.cls = .trapReturn) :
    Accepted fpuEnabled c r i d (c.command d .trapReturn (returnRegister d.opcode).addr)
  | wfi (hl : isIllegal fpuEnabled d = false) (hd : d.opcode.cls = .wfi) :
    Accepted fpuEnabled c r i d (c.command d .wfi 0)
  | ecall (hl : isIllegal fpuEnabled d = false) (hd : d.opcode.cls = .ecall) :
    Accepted fpuEnabled c r i d
      ((c.raise d.pc (following d) fun e => { e with ecall := true }).accept d (following d))
  | ebreak (hl : isIllegal fpuEnabled d = false) (hd : d.opcode.cls = .ebreak) :
    Accepted fpuEnabled c r i d
      ((c.raise d.pc (following d) fun e => { e with breakpoint := true }).accept d (following d))
  | fence (hl : isIllegal fpuEnabled d = false) (hd : d.opcode.cls = .fence) :
    Accepted fpuEnabled c r i d (c.accept d (following d))

variable {fpuEnabled : Bool} {c : Cycle} {r : State} {i : Input} {d : DecodedInstruction}

theorem memory_outcome (hl : isIllegal fpuEnabled d = false)
    (hd : d.opcode.cls = .load ∨ d.opcode.cls = .store) :
    c.memory d i r.tag = c.stall .hold ∨ Accepted fpuEnabled c r i d (c.memory d i r.tag) := by
  unfold memory
  cases ha : d.opcode.traits.size.aligned (memoryAddress d i) with
  | false => exact .inr (.misaligned hl hd ha)
  | true =>
    by_cases hw : (!i.memoryReady || (d.target != 0 && c.next.hazards.isFull)) = true
    · simp only [hw, if_true]
      exact .inl rfl
    · simp only [hw, Bool.not_true, Bool.false_eq_true, if_false]
      simp only [Bool.or_eq_true, Bool.not_eq_true', Bool.and_eq_true, bne_iff_ne, not_or,
        not_and] at hw
      have := Accepted.memory (c := c) (r := r) hl hd ha (by simpa using hw.1)
        (by by_cases ht : d.target = 0
            · exact .inl ht
            · exact .inr (by simpa using hw.2 ht))
      exact .inr (by simpa using this)

theorem dispatch_outcome {k : Slot} (hl : isIllegal fpuEnabled d = false)
    (hd : d.opcode.cls.slot? = some k) :
    c.dispatch k d i r.slots = c.stall .hold ∨
      Accepted fpuEnabled c r i d (c.dispatch k d i r.slots) := by
  unfold dispatch
  split
  · exact .inl rfl
  next h =>
    simp only [Bool.not_eq_true, Bool.or_eq_false_iff] at h
    exact .inr (.dispatch k hl hd h.1 h.2)

variable (fpuEnabled c r i d) in
/-- An instruction that is looked at is accepted or waits for memory or a functional unit. -/
theorem start_outcome : c.start fpuEnabled r d i = c.stall .hold ∨
    Accepted fpuEnabled c r i d (c.start fpuEnabled r d i) := by
  unfold start
  cases hl : isIllegal fpuEnabled d with
  | true => exact .inr (.illegal hl)
  | false =>
    simp only [Bool.false_eq_true, if_false]
    cases hd : d.opcode.cls with
    | alu => exact .inr (.alu hl (.inl hd))
    | shift => exact .inr (.alu hl (.inr hd))
    | branch => exact .inr (.branch hl hd)
    | jump => exact .inr (.jump hl hd)
    | load => exact memory_outcome hl (.inl hd)
    | store => exact memory_outcome hl (.inr hd)
    | csr => exact .inr (.csr hl hd)
    | trapReturn => exact .inr (.trapReturn hl hd)
    | fence => exact .inr (.fence hl hd)
    | wfi => exact .inr (.wfi hl hd)
    | ecall => exact .inr (.ecall hl hd)
    | ebreak => exact .inr (.ebreak hl hd)
    | mul => exact dispatch_outcome hl (by rw [hd]; rfl)
    | div => exact dispatch_outcome hl (by rw [hd]; rfl)
    | fpu => exact dispatch_outcome hl (by rw [hd]; rfl)
    | atomic => simp [isIllegal, hd] at hl

/-! ## The end of a bus transaction -/

/-- The ways in which the answer `q` of the bus is taken in a cycle that has come to `c`. -/
inductive Answered (c : Cycle) (r : State) (i : Input) (q : CsrResponse) : Cycle → Prop
  | ended (ho : ∀ o, r.current.opcode = some o →
        q.exception = false ∧ o.cls ≠ .trapReturn ∧ o.cls ≠ .csr) :
    Answered c r i q c.ready
  | rejected (o : Opcode) (ho : r.current.opcode = some o) (hq : q.exception = true) :
    Answered c r i q
      (c.raise r.current.pc r.npc fun e => { e with illegal := true }).ready
  | returned (o : Opcode) (ho : r.current.opcode = some o) (hq : q.exception = false)
      (hd : o.cls = .trapReturn) :
    Answered c r i q { c.ready with next.npc := q.data }
  | rewrite (o : Opcode) (ho : r.current.opcode = some o) (hq : q.exception = false)
      (hd : o.cls = .csr) (hc : r.csr.command = .read) (hw : r.current.writePending = true) :
    Answered c r i q (c.writeCsr r o q.data)
  | completed (o : Opcode) (v : Word) (ho : r.current.opcode = some o) (hq : q.exception = false)
      (hd : o.cls = .csr)
      (hv : r.csr.command = .read ∧ r.current.writePending = false ∧ v = q.data ∨
        r.csr.command ≠ .read ∧ v = r.current.result) :
    Answered c r i q (c.complete i.writeReady r.current.target v)

theorem csrDone_outcome (q : CsrResponse) : Answered c r i q (c.csrDone r i q) := by
  unfold csrDone
  cases ho : r.current.opcode with
  | none => exact .ended (by simp [ho])
  | some o =>
    dsimp only
    cases hq : q.exception with
    | true => exact .rejected o ho hq
    | false =>
      simp only [Bool.false_eq_true, if_false]
      split
      next hd => exact .returned o ho hq hd
      next hd =>
        split
        next hc =>
          split
          next hw => exact .rewrite o ho hq hd hc hw
          next hw => exact .completed o _ ho hq hd (.inl ⟨hc, by simpa using hw, rfl⟩)
        next hc => exact .completed o _ ho hq hd (.inr ⟨hc, rfl⟩)
      next h1 h2 =>
        refine .ended fun o' ho' => ?_
        cases ho.symm.trans ho'
        exact ⟨hq, h1, h2⟩

end Cycle

/-! ## A whole cycle -/

/-- The phases in which the stage looks for an instruction. -/
def Phase.IsOpen (p : Phase) : Prop := p = .waiting ∨ p = .hold ∨ p = .hazard

theorem Phase.IsOpen.ne_single {p : Phase} (h : p.IsOpen) : p ≠ .single := by
  rcases h with rfl | rfl | rfl <;> decide

variable (s : Execute) (i : Input)

/-- The cycle before the stage looks at traps and at its phase. -/
def opening : Cycle :=
  let c := ((Cycle.begin s.state i).release s.state i).driveCsr s.state i
  { c with next.npc := i.npcWrite.getD c.next.npc }

/-- What a retired load leaves of the pending writes. -/
def hazardsLeft : HazardTracker :=
  match i.retired with
  | some w => s.state.hazards.commit w.target w.tag
  | none => s.state.hazards

/-- What the units that finish leave of the slots. -/
def slotsLeft : PerSlot SlotState :=
  .ofFn fun k =>
    if Cycle.finishes s.state i k then
      { s.state.slots.get k with enable := false, busy := false, suppress := false }
    else { s.state.slots.get k with enable := false }

/-- How far the bus transaction comes. -/
def transactionLeft : CsrTransaction :=
  match s.state.csr.phase with
  | .idle => s.state.csr
  | .request => if i.csr.ready then { s.state.csr with phase := .response } else s.state.csr
  | .response =>
    if i.csr.valid then { s.state.csr with phase := .idle, discard := false } else s.state.csr

/-- What the stage drives on the bus. -/
def busDrive : CsrRequest :=
  match s.state.csr.phase with
  | .idle => {}
  | .request =>
    { valid := true
      command := s.state.csr.command
      addr := s.state.csr.addr
      data := s.state.csr.data }
  | .response => { ready := true }

theorem opening_eq : s.opening i =
    { next := { s.state with
        npc := i.npcWrite.getD s.state.npc
        slots := s.slotsLeft i
        hazards := s.hazardsLeft i
        csr := s.transactionLeft i }
      out := {
        npc := s.state.npc
        readIndex1 := (i.instruction.map (·.source1)).getD 0
        readIndex2 := (i.instruction.map (·.source2)).getD 0
        units := s.state.slots.map fun s =>
          { enable := s.enable, opcode := s.opcode, a := s.a, b := s.b }
        csr := s.busDrive } } := by
  have hs : ((Cycle.begin s.state i).release s.state i).next.slots = s.slotsLeft i := by
    simp [Cycle.begin, Cycle.release, slotsLeft]
  have hh : ((Cycle.begin s.state i).release s.state i).next.hazards = s.hazardsLeft i := rfl
  unfold opening Cycle.driveCsr transactionLeft busDrive
  rw [← hs, ← hh]
  cases s.state.csr.phase with
  | idle => rfl
  | request => cases i.csr.ready <;> rfl
  | response => cases i.csr.valid <;> rfl

/-- The stage looks at an instruction, and nothing but memory or a functional unit can keep it from
being accepted. -/
structure Offered (d : DecodedInstruction) : Prop where
  instruction : i.instruction = some d
  pc : d.pc = s.state.npc
  npcWrite : i.npcWrite = none
  hold : i.hold = false
  csr : s.state.csr.phase = .idle
  hazards : s.state.hazards.conflicts d.hazards = false

/-- The ways in which a cycle goes. -/
inductive Outcome : Cycle → Prop
  | trapped (target : Word) (ht : i.trap = some target) : Outcome ((s.opening i).trap target)
  | running (ht : i.trap = none) (hp : s.state.phase = .multi)
      (hu : Cycle.unitResult? s.state i = none) : Outcome (s.opening i).occupied
  | finished (k : Slot) (u : UnitResponse) (ht : i.trap = none) (hp : s.state.phase = .multi)
      (hu : Cycle.unitResult? s.state i = some (k, u)) :
    Outcome ((s.opening i).occupied.unitDone s.state i k u)
  | parked (ht : i.trap = none) (hp : s.state.phase = .single) (hc : s.state.csr.phase = .idle) :
    Outcome ((s.opening i).occupied.complete i.writeReady s.state.current.target
      s.state.current.result)
  | pending (ht : i.trap = none) (hp : s.state.phase = .single) (hc : s.state.csr.phase ≠ .idle)
      (hq : Cycle.csrResponse? s.state i = none) : Outcome (s.opening i).occupied
  | answered (q : CsrResponse) (c : Cycle) (ht : i.trap = none) (hp : s.state.phase = .single)
      (hc : s.state.csr.phase ≠ .idle) (hq : Cycle.csrResponse? s.state i = some q)
      (ha : Cycle.Answered (s.opening i).occupied s.state i q c) : Outcome c
  | passed (p : Phase) (b : Bool) (ht : i.trap = none) (hp : s.state.phase.IsOpen)
      (hn : p.IsOpen) :
    Outcome
      { next := { (s.opening i).next with phase := p }
        out := { (s.opening i).out with hold := b } }
  | accepted (d : DecodedInstruction) (c : Cycle) (ht : i.trap = none)
      (hp : s.state.phase.IsOpen) (ho : s.Offered i d)
      (ha : Cycle.Accepted s.fpuEnabled (s.opening i).ready s.state i d c) : Outcome c

theorem step_eq : s.step i =
    match i.trap with
    | some target => (s.opening i).trap target
    | none => (s.opening i).advance s.fpuEnabled s.state i := by
  unfold step opening
  cases i.trap with
  | some target => rfl
  | none => cases i.npcWrite <;> rfl

variable {s i}

theorem step_trap {target : Word} (ht : i.trap = some target) :
    s.step i = (s.opening i).trap target := by
  rw [step_eq, ht]

theorem issue_outcome (ht : i.trap = none) (hp : s.state.phase.IsOpen) :
    s.Outcome i ((s.opening i).issue s.fpuEnabled s.state i) := by
  have passed (p : Phase) (b : Bool) := Outcome.passed (s := s) p b ht hp
  unfold Cycle.issue
  cases hi : i.instruction with
  | none => exact passed .waiting (s.opening i).out.hold (.inl rfl)
  | some d =>
    dsimp only
    split
    · exact passed .waiting (s.opening i).out.hold (.inl rfl)
    next hpc =>
      simp only [ne_eq, not_or, Decidable.not_not, Bool.not_eq_true, Option.isSome_eq_false_iff,
        Option.isNone_iff_eq_none] at hpc
      split
      · exact passed .waiting true (.inl rfl)
      next hh =>
        split
        · exact passed .hold true (.inr (.inl rfl))
        next hc =>
          split
          · exact passed .hazard true (.inr (.inr rfl))
          next hz =>
            rcases Cycle.start_outcome s.fpuEnabled (s.opening i).ready s.state i d with h | h
            · rw [h]
              exact passed .hold true (.inr (.inl rfl))
            · exact .accepted d _ ht hp
                ⟨hi, hpc.1, hpc.2, by simpa using hh, by simpa using hc, by simpa using hz⟩ h

/-- Every cycle goes in one of these ways. -/
theorem step_outcome : s.Outcome i (s.step i) := by
  rw [step_eq]
  cases ht : i.trap with
  | some target => exact .trapped target ht
  | none =>
    dsimp only
    unfold Cycle.advance
    cases hp : s.state.phase with
    | multi =>
      cases hu : Cycle.unitResult? s.state i with
      | none => exact .running ht hp hu
      | some u => exact .finished u.1 u.2 ht hp hu
    | single =>
      dsimp only
      split
      next hc => exact .parked ht hp hc
      next hc =>
        cases hq : Cycle.csrResponse? s.state i with
        | none => exact .pending ht hp hc hq
        | some q => exact .answered q _ ht hp hc hq (Cycle.csrDone_outcome q)
    | waiting => exact issue_outcome ht (.inl hp)
    | hold => exact issue_outcome ht (.inr (.inl hp))
    | hazard => exact issue_outcome ht (.inr (.inr hp))

/-! ## What a cycle drives from the registers alone -/

/-- The request that a slot makes of its unit. -/
def SlotState.request (x : SlotState) : UnitRequest :=
  { enable := x.enable, opcode := x.opcode, a := x.a, b := x.b }

attribute [local simp] opening_eq Cycle.trap Cycle.occupied Cycle.ready Cycle.raise Cycle.accept
  Cycle.keep Cycle.complete_eq Cycle.unitDone_eq Cycle.accessCsr Cycle.command Cycle.writeCsr

variable (s i) in
/-- The outputs that depend on registers, the instruction and the trap alone. -/
structure Wired (o : Output) : Prop where
  readIndex1 : o.readIndex1 = (i.instruction.map (·.source1)).getD 0
  readIndex2 : o.readIndex2 = (i.instruction.map (·.source2)).getD 0
  bus : o.csr = s.busDrive
  trapReady : o.trapReady = i.trap.isSome
  flush : o.flush = i.trap.isSome
  units : ∀ k, o.units.get k = (s.state.slots.get k).request

theorem step_wired : s.Wired i (s.step i).out := by
  have h := step_outcome (s := s) (i := i)
  generalize s.step i = c at h
  cases h with
  | trapped _ ht | running ht | parked ht | pending ht | finished _ _ ht | passed _ _ ht =>
    constructor <;> simp [ht, SlotState.request]
  | answered _ _ ht _ _ _ ha => cases ha <;> constructor <;> simp [ht, SlotState.request]
  | accepted _ _ ht _ _ ha => cases ha <;> constructor <;> simp [ht, SlotState.request]

/-- A result is only written when the register file takes it. -/
theorem step_writeReady (hw : (s.step i).out.write.enable = true) : i.writeReady = true := by
  have of_complete {c : Cycle} {t : RegIndex} {v : Word} (hc : c.out.write.enable = false)
      (hw : (c.complete i.writeReady t v).out.write.enable = true) : i.writeReady = true := by
    rw [Cycle.complete_write] at hw
    split at hw
    · rw [hc] at hw
      cases hw
    next hn => simpa using (not_or.mp hn).2
  have h := step_outcome (s := s) (i := i)
  generalize s.step i = c at h hw
  cases h with
  | trapped | running | pending | passed => simp at hw
  | parked => exact of_complete (by simp) hw
  | finished =>
    rw [Cycle.unitDone_eq] at hw
    exact of_complete (by simp) hw
  | answered _ _ _ _ _ _ ha =>
    cases ha with
    | completed => exact of_complete (by simp) hw
    | _ => simp at hw
  | accepted _ _ _ _ _ ha =>
    cases ha with
    | alu | jump => exact of_complete (by simp) hw
    | _ => simp at hw

/-! ## What a cycle does to the pending writes -/

variable (s i) in
/-- The ways in which a cycle treats the pending writes and the tag. Only a load or store that is
handed over does more than a retired load. -/
inductive Handed (c : Cycle) : Prop
  | squashed (ht : i.trap.isSome = true) (hm : c.out.memoryOp = none) (hh : c.next.hazards = {})
      (hg : c.next.tag = s.state.tag)
  | kept (ht : i.trap = none) (hm : c.out.memoryOp = none) (hh : c.next.hazards = s.hazardsLeft i)
      (hg : c.next.tag = s.state.tag)
  | handed (d : DecodedInstruction) (ht : i.trap = none) (ho : s.Offered i d)
      (hd : d.opcode.cls = .load ∨ d.opcode.cls = .store) (hr : i.memoryReady = true)
      (hf : d.target = 0 ∨ (s.hazardsLeft i).isFull = false)
      (hm : c.out.memoryOp = some (memoryOp d i s.state.tag))
      (hh : c.next.hazards = if d.opcode.cls = .store then s.hazardsLeft i
        else (s.hazardsLeft i).issue d.target s.state.tag)
      (hg : c.next.tag = nextTag s.state.tag)

theorem step_handed : s.Handed i (s.step i) := by
  have h := step_outcome (s := s) (i := i)
  generalize s.step i = c at h
  cases h with
  | trapped _ ht => exact .squashed (by simp [ht]) (by simp) (by simp) (by simp)
  | running ht | parked ht | pending ht => exact .kept ht (by simp) (by simp) (by simp)
  | finished _ _ ht | passed _ _ ht => exact .kept ht (by simp) (by simp) (by simp)
  | answered _ _ ht _ _ _ ha => cases ha <;> exact .kept ht (by simp) (by simp) (by simp)
  | accepted d _ ht _ ho ha =>
    cases ha with
    | memory _ hd _ hr hf =>
      exact .handed d ht ho hd hr (by simpa using hf) (by simp) (by simp) (by simp)
    | _ => exact .kept ht (by simp) (by simp) (by simp)

/-- An operation is handed over in the cycle in which its instruction is accepted. -/
theorem accepted_of_memoryOp {p : MemoryOp} (h : (s.step i).out.memoryOp = some p) :
    (s.step i).out.valid = true ∧ ∃ d, s.Offered i d ∧
      (d.opcode.cls = .load ∨ d.opcode.cls = .store) ∧ p = memoryOp d i s.state.tag := by
  have ho := step_outcome (s := s) (i := i)
  generalize s.step i = c at ho h
  cases ho with
  | trapped | running | parked | pending | finished | passed => simp at h
  | answered _ _ _ _ _ _ ha => cases ha <;> simp at h
  | accepted d _ _ _ ho ha =>
    cases ha with
    | memory _ hd =>
      have hp : p = memoryOp d i s.state.tag := by simpa using h.symm
      exact ⟨by simp, d, ho, hd, hp⟩
    | _ => simp at h

/-! ## What a cycle does outside, and on whose behalf -/

variable (s i) in
/-- The stage writes a register, raises something, or goes elsewhere than a trap or a debug access
demands. -/
def Acts (c : Cycle) : Prop :=
  c.out.write.enable = true ∨ c.out.exceptions.any = true ∨ c.out.fpuValid = true ∨
    c.next.npc ≠ (i.trap.or i.npcWrite).getD s.state.npc

/-- The stage acts for the unit that finishes, for the instruction that waits for the register file
or the bus, or for the one that it accepts. -/
theorem step_acts (h : s.Acts i (s.step i)) : i.trap = none ∧
    (s.state.phase = .multi ∧ (∃ k u, Cycle.unitResult? s.state i = some (k, u)) ∨
      s.state.phase = .single ∨ s.state.phase.IsOpen ∧ (s.step i).out.valid = true) := by
  have hs := step_outcome (s := s) (i := i)
  generalize s.step i = c at hs h
  have any_empty : ExceptionPulses.any { pc := 0#64, npc := 0#64 } = false := by decide
  cases hs with
  | trapped _ ht => simp [Acts, ht, any_empty] at h
  | running ht | pending ht | passed _ _ ht => simp [Acts, ht, any_empty] at h
  | finished k u ht hp hu => exact ⟨ht, .inl ⟨hp, k, u, hu⟩⟩
  | parked ht hp => exact ⟨ht, .inr (.inl hp)⟩
  | answered _ _ ht hp => exact ⟨ht, .inr (.inl hp)⟩
  | accepted _ _ ht hp _ ha => exact ⟨ht, .inr (.inr ⟨hp, by cases ha <;> simp⟩)⟩

/-- The unit that finishes was at work in a slot that no trap has overtaken. -/
theorem unitResult?_eq_some {k : Slot} {u : UnitResponse}
    (h : Cycle.unitResult? s.state i = some (k, u)) :
    (s.state.slots.get k).busy = true ∧ (i.units.get k).valid = true ∧
      (s.state.slots.get k).suppress = false ∧ u = i.units.get k := by
  unfold Cycle.unitResult? at h
  obtain ⟨j, hj, hju⟩ := Option.map_eq_some_iff.mp h
  cases hju
  have hm := List.mem_filter.mp (List.mem_of_getLast? hj)
  simp only [Cycle.finishes, Bool.and_eq_true, Bool.not_eq_true'] at hm
  exact ⟨hm.2.1.1, hm.2.1.2, hm.2.2, rfl⟩

/-- If no unit counts as finished, those that finish have been overtaken by a trap. -/
theorem suppress_of_unitResult?_eq_none (h : Cycle.unitResult? s.state i = none) {k : Slot}
    (hk : Cycle.finishes s.state i k = true) : (s.state.slots.get k).suppress = true := by
  unfold Cycle.unitResult? at h
  rw [Option.map_eq_none_iff, List.getLast?_eq_none_iff, List.filter_eq_nil_iff] at h
  have hm : k ∈ Slot.all := by cases k <;> decide
  simpa [hk] using h k hm

variable (s) in
/-- Where the instructions under way are after a cycle: each of them was accepted in this cycle or
was there before. -/
structure Places (c : Cycle) : Prop where
  current : c.next.phase = .single ∨ c.next.phase = .multi →
    c.out.valid = true ∨ s.state.phase = .single ∨ s.state.phase = .multi
  slots : c.next.phase = .multi → ∀ k, (c.next.slots.get k).busy = true →
    c.out.valid = true ∧ (c.next.slots.get k).enable = true ∨
      s.state.phase = .multi ∧ (s.state.slots.get k).busy = true
  transaction : c.next.phase = .single → c.next.csr.phase ≠ .idle →
    c.out.valid = true ∧ c.next.csr.phase = .request ∨
      s.state.phase = .single ∧ s.state.csr.phase ≠ .idle
  bus : c.next.phase = .multi → c.next.csr.phase = .idle

theorem transactionLeft_idle (h : s.state.csr.phase = .idle) :
    s.transactionLeft i = s.state.csr := by
  unfold transactionLeft
  rw [h]

theorem slotsLeft_busy {k : Slot} (h : ((s.slotsLeft i).get k).busy = true) :
    (s.state.slots.get k).busy = true := by
  unfold slotsLeft at h
  rw [PerSlot.get_ofFn] at h
  split at h
  · cases h
  · exact h

theorem waiting_or_single_ne_multi (p : Prop) [Decidable p] :
    (if p then Phase.waiting else .single) ≠ .multi := by
  split <;> simp

attribute [local simp] waiting_or_single_ne_multi

/-- While a unit is at work no bus transaction is under way. -/
theorem step_places (hb : s.state.phase = .multi → s.state.csr.phase = .idle) :
    s.Places (s.step i) := by
  have h := step_outcome (s := s) (i := i)
  generalize s.step i = c at h
  cases h with
  | trapped => constructor <;> simp
  | running _ hp =>
    have hl := transactionLeft_idle (i := i) (hb hp)
    constructor
    · exact fun _ => .inr (.inr hp)
    · intro _ k hk
      exact .inr ⟨hp, slotsLeft_busy (i := i) (by simpa using hk)⟩
    · simp [hp]
    · simpa [hl] using hb
  | finished k u _ hp =>
    have hl := transactionLeft_idle (i := i) (hb hp)
    constructor
    · exact fun _ => .inr (.inr hp)
    · simp
    · simp [hl, hb hp]
    · simp
  | parked _ hp hc =>
    constructor
    · exact fun _ => .inr (.inl hp)
    · simp
    · simp [transactionLeft_idle hc, hc]
    · simp
  | pending _ hp hc =>
    constructor
    · exact fun _ => .inr (.inl hp)
    · simp [hp]
    · exact fun _ _ => .inr ⟨hp, hc⟩
    · simp [hp]
  | answered q c _ hp hc _ ha =>
    have hm : c.next.phase ≠ .multi := by cases ha <;> simp [hp]
    constructor
    · exact fun _ => .inr (.inl hp)
    · exact fun h => absurd h hm
    · exact fun _ _ => .inr ⟨hp, hc⟩
    · exact fun h => absurd h hm
  | passed p b _ _ hn =>
    rcases hn with rfl | rfl | rfl <;> constructor <;> simp
  | accepted d c _ hp ho ha =>
    have hv : c.out.valid = true := by cases ha <;> simp
    cases ha with
    | dispatch j _ _ hs =>
      constructor
      · exact fun _ => .inl hv
      · intro _ k hk
        left
        by_cases hkj : k = j
        · subst hkj
          simp [SlotState.start]
        · have hk : (s.state.slots.get k).busy = true :=
            slotsLeft_busy (i := i) (by simpa [PerSlot.get_set_other _ hkj] using hk)
          rw [PerSlot.any_eq_false.mp hs k] at hk
          cases hk
      · simp
      · simp [transactionLeft_idle (i := i) ho.csr, ho.csr]
    | _ =>
      constructor
      · exact fun _ => .inl hv
      · simp
      · simp [transactionLeft_idle (i := i) ho.csr, ho.csr]
      · simp

end Execute

end RiscvPipeline
