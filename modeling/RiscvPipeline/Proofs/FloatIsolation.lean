import RiscvPipeline.Proofs.Built
import RiscvPipeline.Proofs.Execute.Effect
import RiscvPipeline.Proofs.WritePort

/-!
# A core without its floating-point unit

Floating-point registers share an index with the others, and loads, results and debug accesses write
all of them through one port. Without the floating-point unit the execute stage refuses an
instruction by its entry in the instruction table. Here it is shown that this is enough: what is not
refused names no floating-point register (`Execute.usesFloat_eq`), so that nothing under way does
either (`Machine.noFloat_of_reachable`), and only the debug port is left to write them
(`Machine.float_isolated`).
-/

namespace RiscvPipeline

/-! ## Which registers an instruction names -/

/-- The register is one of the floating-point registers. -/
def RegIndex.isFloat (r : RegIndex) : Bool := decide (32 ≤ r.toNat % 64)

@[simp] theorem RegIndex.isFloat_zero : RegIndex.isFloat 0#8 = false := rfl

namespace DecodedInstruction

variable (d : DecodedInstruction)

theorem isFloat_inBank (b : Bool) (r : BitVec 5) : (inBank b r).isFloat = b := by
  revert r
  cases b <;> decide

theorem isFloat_source1 : d.source1.isFloat = d.opcode.traits.fpRs1 := isFloat_inBank ..

theorem isFloat_source2 : d.source2.isFloat = d.opcode.traits.fpRs2 := isFloat_inBank ..

/-- Every instruction of the table with a floating-point destination writes it. -/
theorem isFloat_target : d.target.isFloat = d.opcode.traits.fpRd := by
  have htable : d.opcode.traits.writesRd = false → d.opcode.traits.fpRd = false := by
    cases d.opcode <;> decide
  unfold target
  split
  · exact isFloat_inBank ..
  next hw => exact (htable (by simpa using hw)).symm

/-- The instruction is for the floating-point unit or names a register of its bank. -/
def isFloat : Bool :=
  d.opcode.cls == .fpu || d.target.isFloat || d.source1.isFloat || d.source2.isFloat

theorem target_of_not_isFloat (h : d.isFloat = false) : d.target.isFloat = false := by
  simp only [isFloat, Bool.or_eq_false_iff] at h
  exact h.1.1.2

end DecodedInstruction

namespace Execute

variable {s : Execute} {i : Input}

/-- The test of the execute stage goes by the table, and agrees with the registers. -/
theorem usesFloat_eq (d : DecodedInstruction) : usesFloat d = d.isFloat := by
  rw [DecodedInstruction.isFloat, d.isFloat_target, d.isFloat_source1, d.isFloat_source2]
  rfl

theorem isIllegal_of_isFloat {d : DecodedInstruction} (h : d.isFloat = true) :
    isIllegal false d = true := by
  rw [isIllegal, usesFloat_eq, h]
  simp

theorem isFloat_of_legal {d : DecodedInstruction} (h : isIllegal false d = false) :
    d.isFloat = false := by
  by_contra hd
  rw [Bool.not_eq_false] at hd
  rw [isIllegal_of_isFloat hd] at h
  cases h

theorem target_of_legal {d : DecodedInstruction} (h : isIllegal false d = false) :
    d.target.isFloat = false :=
  d.target_of_not_isFloat (isFloat_of_legal h)

/-! ## The execute stage -/

/-- Nothing in the stage is for a floating-point register or unit. -/
structure State.NoFloat (x : State) : Prop where
  busy : (x.slots.get .fpu).busy = false
  enable : (x.slots.get .fpu).enable = false
  target : x.current.target.isFloat = false

/-- No result is for a floating-point register, and no floating-point unit has finished. -/
structure Output.NoFloat (o : Output) : Prop where
  write : o.write.enable = true → o.write.target.isFloat = false
  flags : o.exceptions.fpu.isEmpty = true
  valid : o.fpuValid = false

/-- A cycle in the making that has nothing to do with floating-point numbers. -/
structure Cycle.NoFloat (c : Cycle) : Prop where
  next : c.next.NoFloat
  out : c.out.NoFloat

theorem State.NoFloat.initial : State.NoFloat {} := ⟨rfl, rfl, rfl⟩

theorem Cycle.NoFloat.complete {c : Cycle} (hc : c.NoFloat) {t : RegIndex}
    (ht : t.isFloat = false) (b : Bool) (v : Word) : (c.complete b t v).NoFloat := by
  obtain ⟨⟨hbusy, henable, htarget⟩, ⟨hwrite, hflags, hvalid⟩⟩ := hc
  rw [complete_eq]
  refine ⟨⟨hbusy, henable, ?_⟩, ⟨?_, hflags, hvalid⟩⟩
  · dsimp only
    split
    · exact htarget
    · exact ht
  · dsimp only
    split
    · exact hwrite
    · exact fun _ => ht

attribute [local simp] opening_eq Cycle.trap Cycle.occupied Cycle.ready Cycle.raise Cycle.accept
  Cycle.keep Cycle.accessCsr Cycle.command Cycle.writeCsr slotsLeft_enable

/-- An instruction for the floating-point unit, or with one of its registers, is refused. -/
theorem illegal_of_isFloat (hf : s.fpuEnabled = false) {d : DecodedInstruction}
    (hv : (s.step i).out.valid = true) (ho : s.Offered i d) (hd : d.isFloat = true) :
    (s.step i).out.exceptions.illegal = true := by
  have hl : isIllegal s.fpuEnabled d = true := by rw [hf, isIllegal_of_isFloat hd]
  have h := step_outcome (s := s) (i := i)
  generalize s.step i = c at h hv
  cases h with
  | trapped | running | pending | passed => simp at hv
  | parked | finished => simp [Cycle.complete_eq, Cycle.unitDone_eq] at hv
  | answered _ _ _ _ _ _ ha => cases ha <;> simp [Cycle.complete_eq] at hv
  | accepted d' c _ _ ho' ha =>
    obtain rfl : d = d' := Option.some.inj (ho.instruction.symm.trans ho'.instruction)
    cases ha with
    | illegal => simp
    | alu hl' | branch hl' | jump hl' | misaligned hl' | memory hl' | dispatch _ hl' | csr hl'
    | trapReturn hl' | wfi hl' | ecall hl' | ebreak hl' | fence hl' =>
      rw [hl] at hl'
      cases hl'

/-- A memory operation is that of an instruction that names no floating-point register. -/
theorem legal_of_memoryOp (hf : s.fpuEnabled = false) {p : MemoryOp}
    (hp : (s.step i).out.memoryOp = some p) :
    ∃ d, s.Offered i d ∧ d.isFloat = false ∧ p = memoryOp d i s.state.tag := by
  obtain ⟨hv, d, ho, -, hd⟩ := accepted_of_memoryOp hp
  refine ⟨d, ho, ?_, hd⟩
  by_contra hfloat
  have hx := illegal_of_isFloat hf hv ho (by simpa using hfloat)
  cases step_effect (s := s) (i := i) with
  | none _ hm | refused _ _ _ _ _ hm =>
    rw [hm] at hp
    cases hp
  | carried _ _ _ _ hr => simp [ExceptionPulses.refuses, hx] at hr

theorem step_noFloat (hs : s.state.NoFloat) (hf : s.fpuEnabled = false) :
    (s.step i).NoFloat := by
  have hbusy : ((s.slotsLeft i).get .fpu).busy = false := by
    by_contra hb
    have := slotsLeft_busy (Bool.not_eq_false _ ▸ hb)
    rw [hs.busy] at this
    cases this
  have htarget := hs.target
  have hflags : (FpFlags.none).isEmpty = true := rfl
  have h := step_outcome (s := s) (i := i)
  generalize s.step i = c at h
  cases h with
  | trapped =>
    constructor <;> constructor <;> simp [hbusy, hflags]
  | running | pending | passed => constructor <;> constructor <;> simp [*]
  | finished k u _ _ hu =>
    have hk : k ≠ .fpu := by
      rintro rfl
      have := (unitResult?_eq_some hu).1
      rw [hs.busy] at this
      cases this
    rw [Cycle.unitDone_eq]
    refine Cycle.NoFloat.complete ?_ htarget _ _
    constructor <;> constructor <;> simp [*]
  | parked =>
    refine Cycle.NoFloat.complete ?_ htarget _ _
    constructor <;> constructor <;> simp [*]
  | answered q c _ _ _ _ ha =>
    cases ha with
    | completed =>
      refine Cycle.NoFloat.complete ?_ htarget _ _
      constructor <;> constructor <;> simp [*]
    | _ => constructor <;> constructor <;> simp [*]
  | accepted d c _ _ ho ha =>
    rw [hf] at ha
    cases ha with
    | alu hl | jump hl =>
      refine Cycle.NoFloat.complete ?_ (target_of_legal hl) _ _
      constructor <;> constructor <;> simp [*]
    | dispatch k hl hd =>
      have hk : .fpu ≠ k := by
        rintro rfl
        have hcls : d.opcode.cls = .fpu := by
          revert hd
          cases d.opcode.cls <;> simp [ExecClass.slot?]
        have := isFloat_of_legal hl
        simp [DecodedInstruction.isFloat, hcls] at this
      have := target_of_legal hl
      constructor <;> constructor <;> simp [PerSlot.get_set_other _ hk, *]
    | csr hl =>
      have := target_of_legal hl
      constructor <;> constructor <;> simp [*]
    | _ => constructor <;> constructor <;> simp [*]

end Execute

/-! ## The memory-access stage -/

/-- No operation under way is for a floating-point register. -/
structure MemoryAccess.NoFloat (x : MemoryAccess) : Prop where
  wf : x.WF
  target : ∀ e ∈ x.inFlight, e.target.isFloat = false

namespace Registers

variable {x y : Registers} {r : RegIndex}

theorem read_apply_congr (hr : r.isFloat = true) (h : x.read r = y.read r)
    (u : DebugPort.RegisterWrite) : (x.apply u).read r = (y.apply u).read r := by
  have hr : 32 ≤ r.toNat % 64 := of_decide_eq_true hr
  by_cases ht : r.toNat % 64 = u.target.toNat % 64
  · have hread (z : Registers) : z.read r = z.read u.target := by rw [read, read, ht]
    rw [hread, hread]
    have hne : u.target.toNat % 64 ≠ 0 := by omega
    exact (x.read_write_self hne _).trans (y.read_write_self hne _).symm
  · exact ((x.read_write_other ht _).trans h).trans (y.read_write_other ht _).symm

/-- Of some writes only those of floating-point registers count for one of them. -/
theorem read_foldl_filter (hr : r.isFloat = true) (us : List DebugPort.RegisterWrite) :
    (us.foldl apply x).read r = ((us.filter (·.target.isFloat)).foldl apply x).read r := by
  induction us using List.reverseRecOn with
  | nil => rfl
  | append_singleton us u ih =>
    rw [List.filter_append, List.foldl_append, List.foldl_append]
    cases hu : u.target.isFloat with
    | true =>
      rw [List.filter_singleton, hu]
      exact read_apply_congr hr ih u
    | false =>
      rw [List.filter_singleton, hu]
      refine .trans (read_write_other _ (fun h => ?_) u.data) ih
      rw [RegIndex.isFloat, h] at hr
      exact Bool.false_ne_true (hu.symm.trans hr)

end Registers

namespace Machine

variable {m : Machine} {w : Signals}

/-- Nothing that the pipeline has under way is for a floating-point register or unit. -/
structure NoFloat (m : Machine) : Prop where
  execute : m.execute.state.NoFloat
  access : m.access.NoFloat

theorem NoFloat.of_cleared (h : m.Cleared) : m.NoFloat := by
  constructor
  · rw [h.execute]
    exact .initial
  · rw [h.access]
    exact ⟨.empty, by simp [MemoryAccess.inFlight, MemoryQueue.toList]⟩

/-- What goes to memory comes from an instruction that names no floating-point register. -/
theorem Settled.legal_of_memoryOp (hw : m.Settled w) (hf : m.execute.fpuEnabled = false)
    {p : MemoryOp} (hp : w.execute.memoryOp = some p) :
    ∃ d, m.program.at? m.execute.state.npc = some d ∧ d.isFloat = false ∧
      p.word = d.word ∧ p.target = d.target := by
  rw [hw.execute] at hp
  obtain ⟨d, ho, hd, rfl⟩ := Execute.legal_of_memoryOp hf hp
  exact ⟨d, ho.instruction, hd, rfl, rfl⟩

section

variable (h : m.NoFloat) (hf : m.execute.fpuEnabled = false) (hw : m.Settled w)
include h hf hw

theorem NoFloat.advance (hr : m.reset = false) : (m.advance w).NoFloat := by
  have ht := hw.turn h.access.wf
  constructor
  · rw [advance_execute hr]
    exact (Execute.step_noFloat h.execute hf).next
  · rw [advance_access hr]
    refine ⟨ht.wf, fun e he => ?_⟩
    rw [ht.inFlight, hw.admitted] at he
    obtain ⟨e, hmem, rfl⟩ := List.mem_map.1 he
    show e.target.isFloat = false
    rcases List.mem_append.1 hmem with hmem | hmem
    · refine h.access.target e ?_
      rw [m.access.inFlight_eq (accessInput w)]
      exact List.mem_append_right _ hmem
    · obtain ⟨p, hp, rfl⟩ := by simpa using hmem
      obtain ⟨d, -, hd, -, htarget⟩ := hw.legal_of_memoryOp hf hp
      unfold QueueEntry.ofMemoryOp
      dsimp only
      split
      · rfl
      · rw [htarget]
        exact d.target_of_not_isFloat hd

/-- Neither stage writes a floating-point register. -/
theorem NoFloat.asserted {a : Writer} {x : DebugPort.RegisterWrite}
    (hx : w.asserted a = some x) (ha : a ≠ .debug) : x.target.isFloat = false := by
  cases a with
  | debug => exact absurd rfl ha
  | access =>
    rw [hw.asserted_access h.access.wf, wanted] at hx
    split at hx
    next hl =>
      cases hx
      simp only [Bool.and_eq_true] at hl
      refine h.access.target _ ?_
      rw [MemoryAccess.inFlight_of_leaves hl.1]
      exact List.mem_cons_self
    · cases hx
  | execute =>
    have hx : w.execute.write.request? = some x := hx
    unfold WriteBack.request? at hx
    split at hx
    next he =>
      cases hx
      rw [hw.execute] at he ⊢
      exact (Execute.step_noFloat h.execute hf).out.write he
    · cases hx

end

theorem noFloat_of_reachable (hm : m.Reachable) (hf : m.execute.fpuEnabled = false) :
    m.NoFloat := by
  revert hf
  refine hm.holds (P := fun m => m.execute.fpuEnabled = false → m.NoFloat) ?_ ?_ ?_
  · exact fun k n hr _ => .of_cleared hr.toCleared
  · intro k n hu ih hf
    rw [hu.execute] at hf
    obtain ⟨hx, ha⟩ := ih hf
    exact ⟨hu.execute ▸ hx, hu.access ▸ ha⟩
  · intro k w hr hw ih hf
    have hk : k.execute.fpuEnabled = false := (kin_advance k w).fpuEnabled.symm.trans hf
    exact (ih hk).advance hk hw hr

/-! ## Histories -/

/-- What a stimulus writes to the registers other than by the pipeline: a debug access, or a write
from outside. -/
def outsideWrites (m : Machine) : Stimulus → List DebugPort.RegisterWrite
  | .tick =>
    match m.settle with
    | .ok w => if m.reset then [] else w.debug.registerWrite.toList
    | .error _ => []
  | .register r v => [⟨r, v⟩]
  | _ => []

def outsideLog (m : Machine) : List Stimulus → List DebugPort.RegisterWrite
  | [] => []
  | e :: h => m.outsideWrites e ++ (m.apply e).outsideLog h

/-- No other writes are of floating-point registers. -/
theorem NoFloat.registerWrites (h : m.NoFloat) (hf : m.execute.fpuEnabled = false)
    (e : Stimulus) : (m.registerWrites e).filter (·.target.isFloat) =
      (m.outsideWrites e).filter (·.target.isFloat) := by
  cases e with
  | tick =>
    unfold Machine.registerWrites outsideWrites
    cases hs : m.settle with
    | error e => rfl
    | ok w =>
      dsimp only
      split
      · rfl
      have hw := settled_of_settle hs
      have hsplit : w.writes = (w.asserted .access).toList ++ (w.asserted .execute).toList ++
          (w.asserted .debug).toList := by
        unfold Signals.writes
        cases ha : w.asserted .access <;> cases he : w.asserted .execute <;>
          cases hd : w.asserted .debug <;> simp [ha, he, hd]
      have hstage (a : Writer) (ha : a ≠ .debug) :
          (w.asserted a).toList.filter (·.target.isFloat) = [] := by
        rw [List.filter_eq_nil_iff]
        intro x hx
        rw [h.asserted hf hw (Option.mem_toList.1 hx) ha]
        exact Bool.false_ne_true
      rw [hsplit, List.filter_append, List.filter_append, hstage _ (by decide),
        hstage _ (by decide)]
      rfl
  | register | reset | interrupt | request | withdraw | collect | poke | bytes | unit => rfl

theorem registerLog_float (hm : m.Reachable) (hf : m.execute.fpuEnabled = false)
    (h : List Stimulus) : (m.registerLog h).filter (·.target.isFloat) =
      (m.outsideLog h).filter (·.target.isFloat) := by
  induction h generalizing m with
  | nil => rfl
  | cons e h ih =>
    have hrest := ih (hm.after [e]) ((kin_apply m e).fpuEnabled.trans hf)
    rw [registerLog, outsideLog, List.filter_append, List.filter_append,
      (noFloat_of_reachable hm hf).registerWrites hf e]
    exact congrArg _ hrest

/-- What a cycle of `m` with signals `w` has to do with floating-point numbers. -/
structure Isolated (m : Machine) (w : Signals) : Prop where
  /-- The floating-point unit is not triggered. -/
  unit : (w.execute.units.get .fpu).enable = false
  /-- No flags are raised. -/
  flags : w.execute.exceptions.fpu.isEmpty = true ∧ w.execute.fpuValid = false
  /-- Only instructions that name no floating-point register reach the memory-access stage. -/
  memoryOp : ∀ p, w.execute.memoryOp = some p →
    ∃ d, m.program.at? m.execute.state.npc = some d ∧ d.isFloat = false ∧
      p.word = d.word ∧ p.target = d.target
  underWay : ∀ e ∈ m.access.inFlight, e.target.isFloat = false
  /-- An instruction that is for the unit or names one of the registers is refused. -/
  refused : ∀ d, m.program.at? m.execute.state.npc = some d → w.execute.valid = true →
    d.isFloat = true → w.execute.exceptions.illegal = true
  /-- Neither stage writes a floating-point register. -/
  write : ∀ a x, w.asserted a = some x → a ≠ .debug → x.target.isFloat = false

theorem NoFloat.isolated (h : m.NoFloat) (hf : m.execute.fpuEnabled = false)
    (hw : m.Settled w) : Isolated m w := by
  have hs := Execute.step_noFloat (i := m.executeInput w) h.execute hf
  constructor
  case unit =>
    rw [hw.execute, Execute.step_wired.units]
    exact h.execute.enable
  case flags =>
    rw [hw.execute]
    exact ⟨hs.out.flags, hs.out.valid⟩
  case memoryOp => exact fun p hp => hw.legal_of_memoryOp hf hp
  case underWay => exact h.access.target
  case refused =>
    intro d hd hv hfloat
    rw [hw.execute] at hv ⊢
    obtain ⟨d', -, -, ho, -⟩ := Execute.offered_of_valid hv
    obtain rfl : d = d' := Option.some.inj (hd.symm.trans ho.instruction)
    exact Execute.illegal_of_isFloat hf hv ho hfloat
  case write => exact fun a x hx ha => h.asserted hf hw hx ha

/-- Without the floating-point unit the floating-point registers are out of reach of the program:
no cycle has anything to do with them, and along a history they are what debug accesses and writes
from outside have made of them. -/
theorem float_isolated {writable : String → Bool} {c : Config} {p : Program} {m₀ : Machine}
    (hnew : Machine.new writable c p = .ok m₀) (hfpu : c.general.fpuEnabled = false)
    (h : List Stimulus) :
    (∀ w, (m₀.after h).Settled w → Isolated (m₀.after h) w) ∧
      (∀ e r, RegIndex.isFloat r = true → ((m₀.after h).apply e).registers.read r =
        (((m₀.after h).outsideWrites e).foldl Registers.apply (m₀.after h).registers).read r) ∧
      ∀ r, RegIndex.isFloat r = true → (m₀.after h).registers.read r =
        ((m₀.outsideLog h).foldl Registers.apply m₀.registers).read r := by
  have hnew' := hnew
  obtain ⟨-, rfl⟩ := eq_ofConfig_of_new hnew'
  have hm₀ : (ofConfig c p).Reachable := ⟨writable, c, p, _, [], hnew, rfl⟩
  have hf : ((ofConfig c p).after h).execute.fpuEnabled = false :=
    (kin_after (ofConfig c p) h).fpuEnabled.trans hfpu
  have hn := noFloat_of_reachable (hm₀.after h) hf
  refine ⟨fun w hw => hn.isolated hf hw, fun e r hr => ?_, fun r hr => ?_⟩
  · rw [apply_registers, Registers.read_foldl_filter hr, hn.registerWrites hf e,
      ← Registers.read_foldl_filter hr]
  · rw [registers_eq_log, Registers.read_foldl_filter hr, registerLog_float hm₀ hfpu h,
      ← Registers.read_foldl_filter hr]

/-- A core without the unit. -/
def withoutFloat : Config := { general := { fpuEnabled := false } }

/-- A load into a floating-point register. -/
def loadFloat : DecodedInstruction := { pc := resetVector, word := 0x00033087, opcode := .fld }

def loadingFloat : Program := { instructions := #[loadFloat] }

/-- The load is refused, and the debug port writes the register. -/
theorem float_isolated_loading :
    let m₀ := ofConfig withoutFloat loadingFloat
    let h := [.request { region := .registers, addr := 33, write := true, wdata := 7 }] ++
      .replicate 3 .tick
    Machine.new (fun _ => true) withoutFloat loadingFloat = .ok m₀ ∧
      withoutFloat.general.fpuEnabled = false ∧ m₀.settled.execute.valid = true ∧
      m₀.settled.execute.exceptions.illegal = true ∧ m₀.outsideLog h = [⟨33, 7⟩] ∧
      (m₀.after h).registers.read 33 = 7 := by
  intro m₀ h
  have hnew : Machine.new (fun _ => true) withoutFloat loadingFloat = .ok m₀ := rfl
  have hv : m₀.settled.execute.valid = true := by decide +kernel
  have hlog : m₀.outsideLog h = [⟨33, 7⟩] := by decide +kernel
  have hx := (float_isolated hnew rfl []).1 m₀.settled settled_settled
  refine ⟨hnew, rfl, hv, hx.refused loadFloat (by decide +kernel) hv (by decide), hlog, ?_⟩
  rw [(float_isolated hnew rfl h).2.2 33 (by decide), hlog]
  decide +kernel

end Machine

end RiscvPipeline
