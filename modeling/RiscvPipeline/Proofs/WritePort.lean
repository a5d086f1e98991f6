import RiscvPipeline.Proofs.Memory.Traffic
import RiscvPipeline.Proofs.Registers
import RiscvPipeline.Proofs.Resumption

/-!
# The write port of the register file

Loads, results of the execute stage and the debug port share one write port. `Machine.wanted` says
what each of them would write if the port were free, and `Signals.asserted` what it asserts. Only
one of them asserts a write in a cycle, and that one is made; the others ask again in the next cycle
(`Machine.register_writes`).
-/

namespace RiscvPipeline

/-- The write that is asserted, if there is one. -/
def WriteBack.request? (b : WriteBack) : Option DebugPort.RegisterWrite :=
  if b.enable then some ⟨b.target, b.data⟩ else none

/-- The registers after a write. -/
def Registers.apply (r : Registers) (x : DebugPort.RegisterWrite) : Registers :=
  r.write x.target x.data

/-! ## The execute stage -/

namespace Execute

/-- The same inputs with the register file free. -/
def Input.free (i : Input) : Input := { i with writeReady := true }

/-- A cycle that finds the register file taken, and the same one with the register file free. The
one keeps the result that the other writes. -/
inductive Cycle.Keeps : Cycle → Cycle → Prop
  | same {c : Cycle} (hw : c.out.write = {}) : Keeps c c
  | completed {c : Cycle} (t : RegIndex) (v : Word) (hw : c.out.write = {})
      (hc : c.next.csr.phase = .idle) : Keeps (c.complete false t v) (c.complete true t v)

/-- A result waits for the register file. -/
structure State.Holds (s : State) (x : DebugPort.RegisterWrite) : Prop where
  phase : s.phase = .single
  csr : s.csr.phase = .idle
  target : s.current.target = x.target
  result : s.current.result = x.data
  ne : x.target ≠ 0

namespace Cycle

variable {c c' : Cycle} {r : State} {i : Input}

theorem Keeps.holds (h : c.Keeps c') {x : DebugPort.RegisterWrite}
    (hx : c'.out.write.request? = some x) : c.next.Holds x := by
  cases h with
  | same hw =>
    rw [hw] at hx
    cases hx
  | @completed c t v hw hc =>
    rw [complete_write] at hx
    by_cases ht : t = 0
    · rw [if_pos (.inl ht), hw] at hx
      cases hx
    · rw [if_neg (not_or.2 ⟨ht, Bool.noConfusion⟩)] at hx
      cases hx
      rw [complete, if_neg ht]
      exact ⟨rfl, hc, rfl, rfl, ht⟩

theorem Keeps.ite {p : Prop} [Decidable p] {a a' : Cycle} (h : p → c.Keeps c')
    (h' : ¬ p → a.Keeps a') : Keeps (if p then c else a) (if p then c' else a') := by
  split
  next hp => exact h hp
  next hp => exact h' hp

theorem keeps_unitDone (hw : c.out.write = {}) (hc : c.next.csr.phase = .idle)
    (hi : i.writeReady = false) (k : Slot) (u : UnitResponse) :
    Keeps (c.unitDone r i k u) (c.unitDone r i.free k u) := by
  rw [unitDone_eq, unitDone_eq, hi]
  exact .completed _ _ hw hc

theorem keeps_csrDone (hw : c.out.write = {}) (hc : c.next.csr.phase = .idle)
    (hi : i.writeReady = false) (q : CsrResponse) :
    Keeps (c.csrDone r i q) (c.csrDone r i.free q) := by
  unfold csrDone
  rw [hi]
  cases r.current.opcode with
  | none => exact .same hw
  | some o =>
    dsimp only
    split
    · exact .same hw
    split
    · exact .same hw
    · split
      · split
        · exact .same hw
        · exact .completed _ _ hw hc
      · exact .completed _ _ hw hc
    · exact .same hw

theorem keeps_start (hw : c.out.write = {}) (hc : c.next.csr.phase = .idle)
    (hi : i.writeReady = false) (fpuEnabled : Bool) (d : DecodedInstruction) :
    Keeps (c.start fpuEnabled r d i) (c.start fpuEnabled r d i.free) := by
  have hmemory : (c.memory d i r.tag).out.write = {} := by
    unfold memory
    repeat' split
    all_goals exact hw
  have hdispatch (k : Slot) : (c.dispatch k d i r.slots).out.write = {} := by
    unfold dispatch
    split <;> exact hw
  unfold start
  rw [hi]
  dsimp only
  split
  · exact .same hw
  cases d.opcode.cls with
  | alu | shift | jump => exact .completed _ _ hw hc
  | load | store => exact .same hmemory
  | mul => exact .same (hdispatch .mul)
  | div => exact .same (hdispatch .div)
  | fpu => exact .same (hdispatch .fpu)
  | branch | csr | trapReturn | wfi | ecall | ebreak | fence | atomic => exact .same hw

theorem keeps_issue (hw : c.out.write = {}) (hc : r.csr.phase = .idle → c.next.csr.phase = .idle)
    (hi : i.writeReady = false) (fpuEnabled : Bool) :
    Keeps (c.issue fpuEnabled r i) (c.issue fpuEnabled r i.free) := by
  have hinstruction : i.free.instruction = i.instruction := rfl
  unfold issue
  rw [hinstruction]
  cases i.instruction with
  | none => exact .same hw
  | some d =>
    refine .ite (fun _ => .same hw) fun _ => .ite (fun _ => .same hw) fun _ => ?_
    refine .ite (fun _ => .same hw) fun hn => .ite (fun _ => .same hw) fun _ => ?_
    exact keeps_start (c := c.ready) hw (hc (not_not.1 hn)) hi fpuEnabled d

end Cycle

variable {s : Execute} {i : Input}

/-- While the register file is taken the stage does all it would do otherwise, but for a write,
which it keeps. -/
theorem step_keeps (hb : s.state.BusFits) (hi : i.writeReady = false) :
    Cycle.Keeps (s.step i) (s.step i.free) := by
  have hw : (s.opening i).out.write = {} := by rw [opening_eq]
  have hcsr : (s.opening i).next.csr = s.transactionLeft i := by rw [opening_eq]
  have hidle (h : s.state.csr.phase = .idle) : (s.opening i).next.csr.phase = .idle := by
    rw [hcsr, transactionLeft_idle h, h]
  have htrap : i.free.trap = i.trap := rfl
  rw [step_eq, step_eq, htrap]
  cases i.trap with
  | some target => exact .same hw
  | none =>
    show Cycle.Keeps _ ((s.opening i).advance s.fpuEnabled s.state i.free)
    unfold Cycle.advance
    cases hp : s.state.phase with
    | multi =>
      have hunit : Cycle.unitResult? s.state i.free = Cycle.unitResult? s.state i := rfl
      dsimp only
      rw [hunit]
      cases Cycle.unitResult? s.state i with
      | none => exact .same hw
      | some u =>
        exact Cycle.keeps_unitDone (c := (s.opening i).occupied) hw (hidle (hb.idle_of_multi hp)) hi
          u.1 u.2
    | single =>
      dsimp only
      split
      next hc =>
        rw [hi]
        exact .completed _ _ hw (hidle hc)
      next hc =>
        have hresponse : Cycle.csrResponse? s.state i.free = Cycle.csrResponse? s.state i := rfl
        rw [hresponse]
        cases hq : Cycle.csrResponse? s.state i with
        | none => exact .same hw
        | some q =>
          obtain ⟨hp, hv, -⟩ := csrResponse?_eq_some hq
          -- The answer ends the transaction, as a result that is kept needs it.
          have hidle : (s.opening i).next.csr.phase = .idle := by
            rw [hcsr, transactionLeft, hp]
            exact congrArg _ (if_pos hv)
          exact Cycle.keeps_csrDone (c := (s.opening i).occupied) hw hidle hi q
    | waiting | hold | hazard => exact Cycle.keeps_issue hw hidle hi s.fpuEnabled

/-- A result that is kept is offered again, unless a trap takes the instruction away. -/
theorem State.Holds.request? {x : DebugPort.RegisterWrite} (h : s.state.Holds x)
    (ht : i.trap = none) : (s.step i.free).out.write.request? = some x := by
  have hfree : i.free.trap = none := ht
  rw [step_eq, hfree]
  dsimp only
  unfold Cycle.advance
  rw [h.phase]
  dsimp only
  rw [if_pos h.csr, h.target, h.result, Cycle.complete, if_neg h.ne]
  rfl

end Execute

/-! ## The debug port -/

namespace DebugPort

/-- The same inputs with the register file free. -/
def Input.free (i : Input) : Input := { i with writeReady := true }

variable {s : DebugPort} {i : Input}

theorem output_registerWrite : (s.output i).registerWrite =
    if i.writeReady then (s.output i.free).registerWrite else none := by
  unfold output
  cases s.phase with
  | access => cases s.request.region <;> cases i.writeReady <;> simp [Input.free]
  | _ => exact (ite_self _).symm

/-- The port keeps a write that it cannot make. -/
theorem propose_of_taken {x : RegisterWrite} (hi : i.writeReady = false)
    (hx : (s.output i.free).registerWrite = some x) : s.propose i = s := by
  unfold output at hx
  cases hp : s.phase with
  | access =>
    cases hr : s.request.region with
    | registers =>
      cases hw : s.request.write with
      | false => simp [hp, hr, hw] at hx
      | true => simp [propose, hp, access, hr, hw, hi]
    | csr | control => simp [hp, hr] at hx
  | _ => simp [hp] at hx

end DebugPort

/-! ## The port -/

/-- Who writes registers from within. -/
inductive Writer
  | access
  | execute
  | debug
  deriving DecidableEq

namespace Signals

/-- The register write that is asserted. -/
def asserted (w : Signals) : Writer → Option DebugPort.RegisterWrite
  | .access => w.access.write.request?
  | .execute => w.execute.write.request?
  | .debug => w.debug.registerWrite

/-- The register writes that are asserted. -/
def writes (w : Signals) : List DebugPort.RegisterWrite :=
  [Writer.access, .execute, .debug].filterMap w.asserted

end Signals

namespace Machine

variable {m n : Machine} {w : Signals} {x : DebugPort.RegisterWrite}

/-- The register write that would be asserted if the port were free: that of a load that is answered
and neither squashed nor at fault, that of a result, and that of a debug access. -/
def wanted (m : Machine) (w : Signals) : Writer → Option DebugPort.RegisterWrite
  | .access =>
    if m.access.leaves (accessInput w) && m.access.loads (accessInput w) then
      some ⟨m.access.current.target, m.access.current.loaded w.memory.data⟩
    else none
  | .execute => (m.execute.step (m.executeInput w).free).out.write.request?
  | .debug => (m.debug.output (m.debugInput w).free).registerWrite

/-- What a cycle from `m` to `n` with signals `w` does at the write port. -/
structure WritePort (m : Machine) (w : Signals) (n : Machine) : Prop where
  exclusive : ∀ a b x y, w.asserted a = some x → w.asserted b = some y → a = b
  registers : n.registers = w.writes.foldl Registers.apply m.registers
  read : ∀ a x, w.asserted a = some x → x.target.toNat % 64 ≠ 0 →
    n.registers.read x.target = x.data
  others : ∀ r : RegIndex, (∀ a x, w.asserted a = some x → x.target.toNat % 64 ≠ r.toNat % 64) →
    n.registers.read r = m.registers.read r
  wanted : ∀ a x, w.asserted a = some x → m.wanted w a = some x
  kept : ∀ a x, m.wanted w a = some x → w.asserted a = some x ∨
    ∀ v, n.Settled v → n.wanted v a = some x ∨ a = .execute ∧ n.trap.pending.isSome = true

namespace Settled

variable (h : m.Settled w)
include h

/-- A loaded value is written in any case. -/
theorem asserted_access (hm : m.access.WF) : w.asserted .access = m.wanted w .access := by
  show w.access.write.request? = _
  rw [(h.turn hm).write, wanted]
  split <;> rfl

/-- A result is written unless a loaded value is. -/
theorem asserted_execute : w.asserted .execute =
    if w.access.write.enable then none else m.wanted w .execute := by
  have hw : w.execute.write = (m.execute.step (m.executeInput w)).out.write := by rw [← h.execute]
  show w.execute.write.request? = _
  rw [wanted, hw]
  split
  next ha =>
    refine if_neg fun he => ?_
    have := Execute.step_writeReady he
    rw [executeInput, ha] at this
    cases this
  next ha =>
    rw [Bool.not_eq_true] at ha
    have hfree : m.executeInput w = (m.executeInput w).free := by
      rw [Execute.Input.free, executeInput, ha]
      rfl
    rw [← hfree]

/-- The debug port writes if no stage does. -/
theorem asserted_debug : w.asserted .debug =
    if !w.access.write.enable && !w.execute.write.enable then m.wanted w .debug else none := by
  show w.debug.registerWrite = _
  rw [h.debug, DebugPort.output_registerWrite]
  rfl

end Settled

variable (m w) in
/-- Nothing is written, or what one of the writers asserts. -/
inductive Served : Prop
  | idle (hw : ∀ a, w.asserted a = none) (hr : m.writtenRegisters w = m.registers)
  | one (a : Writer) (x : DebugPort.RegisterWrite) (hx : w.asserted a = some x)
      (hw : ∀ b, b ≠ a → w.asserted b = none) (hr : m.writtenRegisters w = m.registers.apply x)

theorem Settled.served (h : m.Settled w) : Served m w := by
  cases ha : w.access.write.enable with
  | true =>
    refine .one .access ⟨_, _⟩ (if_pos ha) (fun b hb => ?_) (if_pos ha)
    cases b with
    | access => exact absurd rfl hb
    | execute => rw [h.asserted_execute, if_pos ha]
    | debug => rw [h.asserted_debug, ha]; rfl
  | false =>
    have hna : ¬ w.access.write.enable = true := by rw [ha]; exact Bool.false_ne_true
    cases he : w.execute.write.enable with
    | true =>
      refine .one .execute ⟨_, _⟩ (if_pos he) (fun b hb => ?_) ((if_neg hna).trans (if_pos he))
      cases b with
      | access => exact if_neg hna
      | execute => exact absurd rfl hb
      | debug => rw [h.asserted_debug, ha, he]; rfl
    | false =>
      have hne : ¬ w.execute.write.enable = true := by rw [he]; exact Bool.false_ne_true
      cases hd : w.debug.registerWrite with
      | none =>
        refine .idle (fun b => ?_) (by rw [writtenRegisters, if_neg hna, if_neg hne, hd])
        cases b with
        | access => exact if_neg hna
        | execute => exact if_neg hne
        | debug => exact hd
      | some x =>
        have hr : m.writtenRegisters w = m.registers.apply x := by
          rw [writtenRegisters, if_neg hna, if_neg hne, hd]
          rfl
        refine .one .debug x hd (fun b hb => ?_) hr
        cases b with
        | access => exact if_neg hna
        | execute => exact if_neg hne
        | debug => exact absurd rfl hb

theorem Served.registers (h : Served m w) :
    m.writtenRegisters w = w.writes.foldl Registers.apply m.registers := by
  unfold Signals.writes
  cases h with
  | idle hw hr => simp [hw, hr]
  | one a x hx hw hr => cases a <;> simp [hx, hw, hr]

/-- A write that is asserted is the only one, and it is made. -/
theorem Served.of_asserted (h : Served m w) {a : Writer} (hx : w.asserted a = some x) :
    (∀ b, b ≠ a → w.asserted b = none) ∧ m.writtenRegisters w = m.registers.apply x := by
  cases h with
  | idle hw =>
    rw [hw] at hx
    cases hx
  | one c z hz hw hr =>
    have hac : a = c := by
      by_contra hne
      rw [hw a hne] at hx
      cases hx
    subst hac
    cases hz.symm.trans hx
    exact ⟨hw, hr⟩

/-- What is wanted and not asserted is wanted again in the next cycle. -/
theorem Settled.kept (h : m.Settled w) (hr : m.reset = false) (hm : m.access.WF)
    (hb : m.execute.state.BusFits) {a : Writer} (hx : m.wanted w a = some x) :
    w.asserted a = some x ∨ ∀ v, (m.advance w).Settled v →
      (m.advance w).wanted v a = some x ∨
        a = .execute ∧ (m.advance w).trap.pending.isSome = true := by
  cases a with
  | access => exact .inl ((h.asserted_access hm).trans hx)
  | execute =>
    rw [h.asserted_execute]
    cases ha : w.access.write.enable with
    | false => exact .inl hx
    | true =>
      -- A loaded value has the port, so that the result stays in the stage until the next cycle,
      -- which offers it unless the stage is redirected.
      have hi : (m.executeInput w).writeReady = false := by rw [executeInput, ha]; rfl
      have hkeeps : (m.advance w).execute.state.Holds x := by
        rw [advance_execute hr]
        exact (Execute.step_keeps hb hi).holds hx
      refine .inr fun v hv => ?_
      cases ht : (m.advance w).trap.pending.isSome with
      | true => exact .inr ⟨rfl, rfl⟩
      | false =>
        have hredirect : v.trap.redirect = none := by
          rw [← Option.isNone_iff_eq_none, ← Option.not_isSome, hv.isSome_redirect, ht]
          rfl
        exact .inl (hkeeps.request? hredirect)
  | debug =>
    rw [h.asserted_debug]
    cases hi : !w.access.write.enable && !w.execute.write.enable with
    | true => exact .inl hx
    | false =>
      have hstays : (m.advance w).debug = m.debug := by
        rw [advance_debug hr]
        exact DebugPort.propose_of_taken hi hx
      refine .inr fun v _ => .inl ?_
      rw [wanted, hstays, ← hx]
      exact congrArg (·.registerWrite) (m.debug.output_congr rfl)

theorem Settled.writePort (h : m.Settled w) (hr : m.reset = false) (hm : m.access.WF)
    (hb : m.execute.state.BusFits) : WritePort m w (m.advance w) := by
  have hs := h.served
  have hreg : (m.advance w).registers = m.writtenRegisters w := advance_registers hr
  constructor
  case exclusive =>
    intro a b x y hx hy
    by_contra hne
    rw [(hs.of_asserted hy).1 a hne] at hx
    cases hx
  case registers => rw [hreg, hs.registers]
  case read =>
    intro a x hx hne
    rw [hreg, (hs.of_asserted hx).2]
    exact Registers.read_write_self _ hne x.data
  case others =>
    intro r hne
    rw [hreg]
    cases hs with
    | idle _ hr => rw [hr]
    | one a x hx _ hr =>
      rw [hr]
      exact Registers.read_write_other _ (hne a x hx).symm x.data
  case wanted =>
    intro a x hx
    cases a with
    | access => exact (h.asserted_access hm).symm.trans hx
    | execute =>
      rw [h.asserted_execute] at hx
      split at hx
      · cases hx
      · exact hx
    | debug =>
      rw [h.asserted_debug] at hx
      split at hx
      · exact hx
      · cases hx
  case kept => exact fun a x hx => h.kept hr hm hb hx

/-! ## Histories -/

/-- What a stimulus writes to the registers. -/
def registerWrites (m : Machine) : Stimulus → List DebugPort.RegisterWrite
  | .tick =>
    match m.settle with
    | .ok w => if m.reset then [] else w.writes
    | .error _ => []
  | .register r v => [⟨r, v⟩]
  | _ => []

/-- What has been written to the registers in a history, resets or not. -/
def registerLog (m : Machine) : List Stimulus → List DebugPort.RegisterWrite
  | [] => []
  | e :: h => m.registerWrites e ++ (m.apply e).registerLog h

theorem apply_registers (m : Machine) (e : Stimulus) :
    (m.apply e).registers = (m.registerWrites e).foldl Registers.apply m.registers := by
  cases e with
  | tick =>
    unfold apply registerWrites tick
    cases hs : m.settle with
    | error e => rfl
    | ok w =>
      dsimp only
      cases hr : m.reset with
      | true => simp [advance, clock, commit, hr]
      | false => exact (advance_registers hr).trans (settled_of_settle hs).served.registers
  | reset level =>
    unfold apply setReset
    dsimp only
    split <;> rfl
  | _ => rfl

theorem registers_eq_log (m : Machine) (h : List Stimulus) :
    (m.after h).registers = (m.registerLog h).foldl Registers.apply m.registers := by
  induction h generalizing m with
  | nil => rfl
  | cons e h ih => rw [after_cons, ih, registerLog, List.foldl_append, apply_registers]

/-- The registers are what the writes of the log have made of them. In each cycle at most one write
is asserted, which is made, and what is wanted besides is not lost. -/
theorem register_writes {writable : String → Bool} {c : Config} {p : Program} {m₀ : Machine}
    (hnew : Machine.new writable c p = .ok m₀) (h : List Stimulus) :
    (m₀.after h).registers = (m₀.registerLog h).foldl Registers.apply m₀.registers ∧
      ∀ n, (m₀.after h).reset = false → (m₀.after h).tick = .ok n →
        (m₀.after h).settle = .ok n.signals ∧ WritePort (m₀.after h) n.signals n := by
  refine ⟨registers_eq_log m₀ h, fun n hr ht => ?_⟩
  have hb := (controlled_of_reachable ⟨writable, c, p, m₀, h, hnew, rfl⟩).toBusFits
  obtain ⟨-, rfl⟩ := eq_ofConfig_of_new hnew
  have hm := (paired_after h (cleared_ofConfig c p)).lockStep.wf
  unfold tick at ht
  cases hw : ((ofConfig c p).after h).settle with
  | error e =>
    rw [hw] at ht
    cases ht
  | ok w =>
    rw [hw] at ht
    cases ht
    exact ⟨rfl, (settled_of_settle hw).writePort hr hm hb⟩

/-- A load with additions behind it, of which the third is accepted when the loaded value comes. -/
def contending : Program :=
  { instructions := #[{ pc := resetVector, word := 0x00032083, opcode := .lw },
      { pc := resetVector + 4, word := 0x00500193, opcode := .addi },
      { pc := resetVector + 8, word := 0x00500213, opcode := .addi },
      { pc := resetVector + 12, word := 0x00500293, opcode := .addi }] }

/-- The debug port waits all the time to write register 2. -/
theorem register_writes_contending :
    let m₀ := ofConfig {} contending
    let h := [.register 6 0x10000000, .poke 0x10000000 9,
      .request { region := .registers, addr := 2, write := true, wdata := 7 }] ++ .replicate 3 .tick
    let m := m₀.after h
    Machine.new (fun _ => true) {} contending = .ok m₀ ∧ m.reset = false ∧
      ∃ n, m.tick = .ok n ∧ n.signals.writes = [⟨1, 9⟩] ∧ n.registers.read 1 = 9 ∧
        (∀ v, n.Settled v → n.wanted v .execute = some ⟨5, 5⟩ ∧ n.wanted v .debug = some ⟨2, 7⟩) ∧
        (m₀.after (h ++ .replicate 3 .tick)).registers.read 5 = 5 ∧
        (m₀.after (h ++ .replicate 3 .tick)).registers.read 2 = 7 := by
  intro m₀ h m
  have hnew : Machine.new (fun _ => true) {} contending = .ok m₀ := rfl
  have hr : m.reset = false := by decide +kernel
  have ht : m.tick = .ok (m.advance m.settled) := tick_eq (by decide +kernel)
  have hload : m.settled.asserted .access = some ⟨1, 9⟩ := by decide +kernel
  have hp : (m.advance m.settled).trap.pending.isSome = false := by decide +kernel
  obtain ⟨-, hw⟩ := (register_writes hnew h).2 _ hr ht
  have hkept {a : Writer} {x : DebugPort.RegisterWrite} (hx : m.wanted m.settled a = some x)
      (hne : m.settled.asserted a = none) {v : Signals} (hv : (m.advance m.settled).Settled v) :
      (m.advance m.settled).wanted v a = some x := by
    obtain hx | hx := hw.kept a x hx
    · exact absurd (hx.symm.trans hne) (by simp)
    · exact (hx v hv).resolve_right fun hc => by simp [hp] at hc
  refine ⟨hnew, hr, _, ht, by decide +kernel, hw.read .access ⟨1, 9⟩ hload (by decide), ?_, ?_, ?_⟩
  · exact fun v hv => ⟨hkept (by decide +kernel) (by decide +kernel) hv,
      hkept (by decide +kernel) (by decide +kernel) hv⟩
  · rw [(register_writes hnew _).1]
    decide +kernel
  · rw [(register_writes hnew _).1]
    decide +kernel

end Machine

end RiscvPipeline
