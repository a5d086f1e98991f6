import RiscvPipeline.Proofs.Refinement.Sound

/-!
# The machine simulates sequential execution

In a cycle the machine accepts the next instruction of sequential execution, or none
(`Simulates.cycle`). There is a lemma for each way in which a cycle can go.
-/

namespace RiscvPipeline.Machine

open Execute

/-- The machine leads to the state of sequential execution. -/
structure Simulates (p : Program) (base : Word) (m : Machine) (s : Sequential.State) : Prop
    extends m.Sound p base where
  pc : s.pc = m.execute.state.npc
  agrees : ∃ a, m.Awaits a ∧
    (∀ t v, a = some (t, v) → t.toNat < 64 ∧ Spares m.access.inFlight t) ∧
    s.registers = finish a m.outlook.1 ∧ s.ram = m.outlook.2

variable {p : Program} {base : Word} {m : Machine} {w : Signals}

namespace Simulates

variable {s : Sequential.State} (h : m.Simulates p base s)
include h

/-- While the stage looks for an instruction, memory operations are all that is under way. -/
theorem of_isOpen (hp : m.execute.state.phase.IsOpen) :
    (∀ k, Delivers k (m.execute.state.slots.get k) (m.units.get k) none) ∧
      s.registers = m.outlook.1 ∧ s.ram = m.outlook.2 := by
  obtain ⟨a, hawaits, -, hregisters, hram⟩ := h.agrees
  obtain ⟨rfl, hs⟩ := hawaits.of_isOpen hp
  exact ⟨hs, hregisters, hram⟩

/-- An operand is what sequential execution reads: no load under way will change it. -/
theorem read_eq {d : DecodedInstruction} (hp : m.execute.state.phase.IsOpen)
    (hc : m.execute.state.hazards.conflicts d.hazards = false) {r : RegIndex}
    (hr : r.toNat < 64) (hm : r ≠ 0 → some r ∈ d.hazards) :
    m.registers.read r = s.read r := by
  unfold Sequential.State.read
  split
  next h0 => rw [h0, h.zero]
  next h0 =>
    have hsp : Spares m.access.undone r := fun e he =>
      h.spares hc hr hm e (MemoryAccess.mem_inFlight_of_mem_undone he)
    rw [(h.of_isOpen hp).2.1, outlook, read_drain hsp]

variable (hw : m.Settled w)
include hw

attribute [local simp] opening_eq Cycle.occupied Cycle.ready Cycle.accept Cycle.keep

/-- A cycle that writes no result and hands nothing over leaves what is awaited. -/
theorem kept {c : Cycle} (hstep : m.execute.step (m.executeInput w) = c)
    (hx : c.out.exceptions.Harmless) (hwr : c.out.write.enable = false)
    (hm : c.out.memoryOp = none) (hc : c.next.csr = m.execute.transactionLeft (m.executeInput w))
    (hn : c.next.npc = m.execute.state.npc) (ha : ∀ a, m.Awaits a → (m.advance w).Awaits a) :
    (m.advance w).Simulates p base s := by
  have hout : w.execute = c.out := by rw [hw.execute, hstep]
  have hs := h.toSound
  rw [← hout] at hx hwr hm
  obtain ⟨a, hawaits, hspares, hregisters, hram⟩ := h.agrees
  have hlook := hs.outlook_kept hw hwr
  rw [hw.admitted, hm] at hlook
  refine { hs.advance_plain hw hx hm (by rw [hstep, hc]) with pc := ?_, agrees := ?_ }
  · rw [h.pc, advance_execute hs.calm.reset, hstep, hn]
  · refine ⟨a, ha a hawaits, fun t v he => ?_, ?_, ?_⟩
    · exact ⟨(hspares t v he).1, hs.spares_advance hw hm (hspares t v he).2⟩
    · rw [hlook]
      exact hregisters
    · rw [hlook]
      exact hram

theorem of_passed {f : Phase} {b : Bool} (hp : m.execute.state.phase.IsOpen) (hn : f.IsOpen)
    (hstep : m.execute.step (m.executeInput w) =
      { next := { (m.execute.opening (m.executeInput w)).next with phase := f }
        out := { (m.execute.opening (m.executeInput w)).out with hold := b } }) :
    (m.advance w).Simulates p base s := by
  have hr := h.calm.reset
  have hnpc := h.calm.input_npcWrite hw
  refine h.kept hw hstep ?_ (by simp) (by simp) (by simp) (by simp [hnpc]) ?_
  · constructor <;> simp
  · intro a ha
    obtain ⟨rfl, hs⟩ := ha.of_isOpen hp
    refine .nothing ?_ fun k => ?_
    · rw [advance_execute hr, hstep]
      exact hn
    · rw [advance_execute hr, hstep]
      have := deliver_none hr hw (hs k)
      simpa using this

theorem of_running (hp : m.execute.state.phase = .multi)
    (hu : Cycle.unitResult? m.execute.state (m.executeInput w) = none)
    (hstep : m.execute.step (m.executeInput w) =
      (m.execute.opening (m.executeInput w)).occupied) :
    (m.advance w).Simulates p base s := by
  have hr := h.calm.reset
  have hnpc := h.calm.input_npcWrite hw
  refine h.kept hw hstep ?_ (by simp) (by simp) (by simp) (by simp [hnpc]) ?_
  · constructor <;> simp
  · intro a ha
    obtain ⟨j, v, rfl, hj, hs⟩ := ha.of_multi hp
    have htarget : (m.advance w).execute.state.current.target = m.execute.state.current.target := by
      rw [advance_execute hr, hstep]
      simp
    rw [← htarget]
    refine .unit j v ?_ ?_ fun k hk => ?_
    · rw [advance_execute hr, hstep]
      simpa using hp
    · rw [advance_execute hr, hstep]
      rcases deliver_next hr hw hj with ⟨-, hd⟩ | ⟨hf, hsup, -⟩
      · simpa using hd
      · exact absurd hsup (by rw [suppress_of_unitResult?_eq_none hu hf]; simp)
    · rw [advance_execute hr, hstep]
      have := deliver_none hr hw (hs k hk)
      simpa using this

/-- A cycle that completes a result leads to a state that has the result. -/
theorem completed {c : Cycle} {t : RegIndex} {v : Word} {s' : Sequential.State}
    (hstep : m.execute.step (m.executeInput w) = c.complete (m.executeInput w).writeReady t v)
    (hx : c.out.exceptions.Harmless) (hwr : c.out.write = {}) (hm : c.out.memoryOp = none)
    (hc : c.next.csr = m.execute.transactionLeft (m.executeInput w))
    (hs : ∀ k, Delivers k (c.next.slots.get k) ((m.advance w).units.get k) none)
    (ht : t.toNat < 64) (hsp : Spares m.access.inFlight t) (hpc : s'.pc = c.next.npc)
    (hregisters : s'.registers = m.outlook.1.write t v) (hram : s'.ram = m.outlook.2) :
    (m.advance w).Simulates p base s' := by
  have hout : w.execute = (c.complete (m.executeInput w).writeReady t v).out := by
    rw [hw.execute, hstep]
  have hm' : w.execute.memoryOp = none := by simpa [hout, Cycle.complete_eq] using hm
  have hx' : w.execute.exceptions.Harmless := by simpa [hout, Cycle.complete_eq] using hx
  obtain ⟨a, hawaits, hspares, hfinish, hmem⟩ := h.complete hw hstep hwr hm' hs ht hsp
  refine { h.advance_plain hw hx' hm' ?_ with pc := ?_, agrees := ⟨a, hawaits, hspares, ?_, ?_⟩ }
  · rw [hstep, Cycle.complete_eq]
    exact hc
  · rw [hpc, advance_execute h.calm.reset, hstep, Cycle.complete_eq]
  · rw [hregisters, hfinish]
  · rw [hram, hmem]

theorem of_parked (hp : m.execute.state.phase = .single)
    (hstep : m.execute.step (m.executeInput w) =
      (m.execute.opening (m.executeInput w)).occupied.complete (m.executeInput w).writeReady
        m.execute.state.current.target m.execute.state.current.result) :
    (m.advance w).Simulates p base s := by
  have hnpc := h.calm.input_npcWrite hw
  obtain ⟨a, hawaits, hspares, hregisters, hram⟩ := h.agrees
  obtain ⟨rfl, hs⟩ := hawaits.of_single hp
  obtain ⟨ht, hsp⟩ := hspares _ _ rfl
  refine h.completed hw hstep ?_ (by simp) (by simp) (by simp) ?_ ht hsp ?_ hregisters hram
  · constructor <;> simp
  · intro k
    have := deliver_none h.calm.reset hw (hs k)
    simpa using this
  · rw [h.pc]
    simp [hnpc]

theorem of_finished {k : Slot} {u : UnitResponse} (hp : m.execute.state.phase = .multi)
    (hu : Cycle.unitResult? m.execute.state (m.executeInput w) = some (k, u))
    (hstep : m.execute.step (m.executeInput w) =
      (m.execute.opening (m.executeInput w)).occupied.unitDone m.execute.state
        (m.executeInput w) k u) :
    (m.advance w).Simulates p base s := by
  have hr := h.calm.reset
  have hnpc := h.calm.input_npcWrite hw
  obtain ⟨a, hawaits, hspares, hregisters, hram⟩ := h.agrees
  obtain ⟨j, v, rfl, hj, hs⟩ := hawaits.of_multi hp
  obtain ⟨ht, hsp⟩ := hspares _ _ rfl
  obtain ⟨hbusy, hvalid, -, rfl⟩ := unitResult?_eq_some hu
  -- Only the unit that is awaited can be the one that finishes.
  obtain rfl : k = j := by
    by_contra hne
    rw [(hs k hne).busy_eq] at hbusy
    cases hbusy
  have hfin : Cycle.finishes m.execute.state (m.executeInput w) k = true := by
    rw [Cycle.finishes, hbusy, hvalid]
    rfl
  rcases deliver_next hr hw hj with ⟨hf, -⟩ | ⟨-, -, hv, hd⟩
  · exact absurd (hfin.symm.trans hf) (by simp)
  obtain rfl := Option.some.inj hv
  rw [Cycle.unitDone_eq] at hstep
  refine h.completed hw hstep ?_ (by simp) (by simp) (by simp) ?_ ht hsp ?_ hregisters hram
  · dsimp only
    split <;> constructor <;> simp
  · intro i
    by_cases hi : i = k
    · rw [hi]
      simpa using hd
    · have := deliver_none hr hw (hs i hi)
      simpa using this
  · rw [h.pc]
    simp [hnpc]

/-! ## Acceptance -/

/-- Nothing but the program counter changes. -/
theorem of_skipped {d : DecodedInstruction} {npc : Word} (hp : m.execute.state.phase.IsOpen)
    (hstep : m.execute.step (m.executeInput w) =
      (m.execute.opening (m.executeInput w)).ready.accept d npc) :
    (m.advance w).Simulates p base { s with pc := npc } := by
  have hr := h.calm.reset
  have hout : w.execute = _ := hw.execute.trans (congrArg Cycle.out hstep)
  have hm : w.execute.memoryOp = none := by simp [hout]
  obtain ⟨hs, hregisters, hram⟩ := h.of_isOpen hp
  have hlook := h.outlook_kept hw (by simp [hout])
  rw [hw.admitted, hm] at hlook
  refine { h.advance_plain hw ?_ hm (by simp [hstep]) with
    pc := ?_, agrees := ⟨none, .nothing ?_ fun k => ?_, by simp, ?_, ?_⟩ }
  · rw [hout]
    constructor <;> simp
  · rw [advance_execute hr, hstep]
    simp
  · rw [advance_execute hr, hstep]
    simp [Phase.IsOpen]
  · rw [advance_execute hr, hstep]
    have := deliver_none hr hw (hs k)
    simpa using this
  · rw [hlook]
    exact hregisters
  · rw [hlook]
    exact hram

section

variable {d : DecodedInstruction} (hp : m.execute.state.phase.IsOpen)
  (ho : m.execute.Offered (m.executeInput w) d)
include hp ho

theorem operands : Operands d (m.executeInput w) s := by
  have hwired := step_wired (s := m.execute) (i := m.executeInput w)
  have h1 : w.execute.readIndex1 = d.source1 := by
    rw [hw.execute, hwired.readIndex1, ho.instruction]
    rfl
  have h2 : w.execute.readIndex2 = d.source2 := by
    rw [hw.execute, hwired.readIndex2, ho.instruction]
    rfl
  refine ⟨ho.pc.trans h.pc.symm, fun hr => ?_, fun hr => ?_⟩
  · have ha : operandA d (m.executeInput w) = m.registers.read d.source1 := by
      rw [← h1]
      exact ite_self _
    rw [ha]
    exact h.read_eq hp ho.hazards d.source1_lt (d.source1_mem_hazards hr)
  · have hb : operandB d (m.executeInput w) = m.registers.read d.source2 := by
      rw [← h2]
      exact ite_self _
    rw [hb]
    exact h.read_eq hp ho.hazards d.source2_lt (d.source2_mem_hazards hr)

/-- The result is there at once. -/
theorem of_computed {npc v : Word} (hstep : m.execute.step (m.executeInput w) =
      ((m.execute.opening (m.executeInput w)).ready.accept d npc).complete
        (m.executeInput w).writeReady d.target v)
    {s' : Sequential.State} (hpc : s'.pc = npc)
    (hregisters : s'.registers = s.registers.write d.target v) (hram : s'.ram = s.ram) :
    (m.advance w).Simulates p base s' := by
  obtain ⟨hs, hr, hmem⟩ := h.of_isOpen hp
  have hsp := h.spares ho.hazards d.target_lt d.target_mem_hazards
  refine h.completed hw hstep ?_ (by simp) (by simp) (by simp) ?_ d.target_lt hsp
    (by simp [hpc]) ?_ ?_
  · constructor <;> simp
  · intro k
    have := deliver_none h.calm.reset hw (hs k)
    simpa using this
  · rw [hregisters, hr]
  · rw [hram, hmem]

/-- An operation is handed over to the memory-access stage. -/
theorem of_memory (hd : d.opcode.cls = .load ∨ d.opcode.cls = .store)
    (hsafe : Sequential.Proper base d s) {hazards : HazardTracker} {tag : Tag}
    (hstep : m.execute.step (m.executeInput w) = Cycle.accept
      { next := { (m.execute.opening (m.executeInput w)).ready.next with hazards, tag }
        out := { (m.execute.opening (m.executeInput w)).ready.out with
          memoryOp := some (memoryOp d (m.executeInput w) m.execute.state.tag) } }
      d (following d)) : (m.advance w).Simulates p base (Sequential.execute base d s) := by
  have hr := h.calm.reset
  have hout : w.execute = _ := hw.execute.trans (congrArg Cycle.out hstep)
  obtain ⟨hs, hregisters, hram⟩ := h.of_isOpen hp
  have hsize : s.ram.size = m.memory.ram.size := by rw [hram, outlook, size_drain]
  obtain ⟨hinside, hpc, heffect⟩ := (h.operands hw hp ho).memory hd hsafe h.alignedBase
    (by rw [hsize]; exact h.alignedSize) m.execute.state.tag
  have hadm : m.access.admitted (accessInput w) =
      [.ofMemoryOp (memoryOp d (m.executeInput w) m.execute.state.tag)] := by
    rw [hw.admitted, hout]
    rfl
  have hlook := h.outlook_kept hw (by simp [hout])
  have hstate : (s.registers, s.ram) = m.outlook := by rw [hregisters, hram]
  rw [hadm, drain_cons, drain_nil, ← hstate, ← heffect] at hlook
  refine { h.advance hw ?_ ?_ ?_ with
    pc := ?_, agrees := ⟨none, .nothing ?_ fun k => ?_, by simp, ?_, ?_⟩ }
  · rw [hout]
    constructor <;> simp
  · rw [hstep]
    simpa [transactionLeft_idle h.calm.transaction] using h.calm.transaction
  · rw [hadm]
    intro e he
    obtain rfl := List.mem_singleton.mp he
    rw [Ram.isSome_peekAt_congr hsize.symm]
    refine ⟨hinside, ?_⟩
    show (if (d.opcode.cls == .store) = true then (0 : RegIndex) else d.target).toNat < 64
    split
    · decide
    · exact d.target_lt
  · rw [hpc, advance_execute hr, hstep]
    simp
  · rw [advance_execute hr, hstep]
    simp [Phase.IsOpen]
  · rw [advance_execute hr, hstep]
    have := deliver_none hr hw (hs k)
    simpa using this
  · rw [hlook]
    rfl
  · rw [hlook]

/-- An operation starts on a functional unit. -/
theorem of_dispatch {k : Slot} (hd : d.opcode.cls.slot? = some k)
    (hstep : m.execute.step (m.executeInput w) = Cycle.keep
      (Cycle.accept { (m.execute.opening (m.executeInput w)).ready with
        next.slots := (m.execute.opening (m.executeInput w)).ready.next.slots.set k
          (.start d (m.executeInput w)) } d (following d))
      { pc := d.pc, word := d.word, opcode := some d.opcode, target := d.target } .multi) :
    (m.advance w).Simulates p base (Sequential.execute base d s) := by
  have hr := h.calm.reset
  have hout : w.execute = _ := hw.execute.trans (congrArg Cycle.out hstep)
  have hm : w.execute.memoryOp = none := by simp [hout]
  obtain ⟨hs, hregisters, hram⟩ := h.of_isOpen hp
  have hoperands := h.operands hw hp ho
  have hsp := h.spares ho.hazards d.target_lt d.target_mem_hazards
  have hlook := h.outlook_kept hw (by simp [hout])
  rw [hw.admitted, hm] at hlook
  have hawaits : (m.advance w).Awaits (some (d.target, (k.evaluate d.opcode
      (operandA d (m.executeInput w)) (operandB d (m.executeInput w))).1)) := by
    have htarget : (m.advance w).execute.state.current.target = d.target := by
      rw [advance_execute hr, hstep]
      simp
    rw [← htarget]
    refine .unit k _ ?_ ?_ fun i hi => ?_
    · rw [advance_execute hr, hstep]
      simp
    · rw [advance_execute hr, hstep]
      have := (deliver_none hr hw (hs k)).start d (m.executeInput w)
      simpa using this
    · rw [advance_execute hr, hstep]
      have := deliver_none hr hw (hs i)
      simpa [PerSlot.get_set_other _ hi] using this
  rw [hoperands.dispatch hd]
  refine { h.advance_plain hw ?_ hm (by simp [hstep]) with
    pc := ?_, agrees := ⟨_, hawaits, ?_, ?_, ?_⟩ }
  · rw [hout]
    constructor <;> simp
  · rw [advance_execute hr, hstep]
    simp [Sequential.State.write, hoperands.following_eq]
  · intro t v he
    obtain ⟨rfl, -⟩ := Prod.mk.inj (Option.some.inj he)
    exact ⟨d.target_lt, h.spares_advance hw hm hsp⟩
  · rw [hlook]
    simp [Sequential.State.write, finish, hregisters]
  · rw [hlook]
    exact hram

theorem of_accepted {c : Cycle} (hstep : m.execute.step (m.executeInput w) = c)
    (ha : Cycle.Accepted m.execute.fpuEnabled (m.execute.opening (m.executeInput w)).ready
      m.execute.state (m.executeInput w) d c)
    (hd : d.unsupported = false ∧ Sequential.isPlain d.opcode.cls = true)
    (hsafe : Sequential.Proper base d s) :
    (m.advance w).Simulates p base (Sequential.execute base d s) := by
  have hx := h.operands hw hp ho
  have hlegal : isIllegal m.execute.fpuEnabled d = false := by
    have hne : (d.opcode.cls == .atomic) = false := by
      refine beq_false_of_ne fun he => ?_
      rw [he] at hd
      cases hd.2
    rw [isIllegal, hd.1, hne, h.calm.fpuEnabled]
    rfl
  cases ha with
  | illegal hl => cases hl.symm.trans hlegal
  | alu _ hc =>
    rw [hx.alu hc]
    exact h.of_computed hw hp ho hstep hx.following_eq.symm rfl rfl
  | branch _ hc =>
    rw [hx.branch hc]
    exact h.of_skipped hw hp hstep
  | jump _ hc =>
    rw [hx.jump hc]
    exact h.of_computed hw hp ho hstep rfl rfl rfl
  | misaligned _ hc hal =>
    have hm : d.opcode.cls.isMemory = true := by rcases hc with hc | hc <;> rw [hc] <;> rfl
    rw [hx.address_eq hc, Bool.eq_false_iff] at hal
    exact absurd ((AccessSize.aligned_iff _ _).mpr (hsafe hm).1) hal
  | memory _ hc _ _ _ => exact h.of_memory hw hp ho hc hsafe hstep
  | dispatch k _ hc => exact h.of_dispatch hw hp ho hc hstep
  | fence _ hc =>
    rw [hx.fence hc]
    exact h.of_skipped hw hp hstep
  | csr _ hc | trapReturn _ hc | wfi _ hc | ecall _ hc | ebreak _ hc =>
    rw [hc] at hd
    cases hd.2

end

/-- In a cycle the machine accepts the next instruction of sequential execution, or none. -/
theorem cycle (hplain : ∀ d, p.at? s.pc = some d →
      d.unsupported = false ∧ Sequential.isPlain d.opcode.cls = true)
    (hsafe : ∀ d, p.at? s.pc = some d → Sequential.Proper base d s) :
    w.execute.valid = false ∧ (m.advance w).Simulates p base s ∨
      w.execute.valid = true ∧ ∃ d, p.at? s.pc = some d ∧
        (m.advance w).Simulates p base (Sequential.execute base d s) := by
  have htrap := h.calm.input_trap hw
  have houtcome := step_outcome (s := m.execute) (i := m.executeInput w)
  have hout := hw.execute
  generalize hstep : m.execute.step (m.executeInput w) = c at houtcome hout
  cases houtcome with
  | trapped _ ht => cases ht.symm.trans htrap
  | running _ hp hu => exact .inl ⟨by simp [hout], h.of_running hw hp hu hstep⟩
  | finished k u _ hp hu =>
    exact .inl ⟨by simp [hout, Cycle.unitDone_eq, Cycle.complete_eq], h.of_finished hw hp hu hstep⟩
  | parked _ hp _ => exact .inl ⟨by simp [hout, Cycle.complete_eq], h.of_parked hw hp hstep⟩
  | pending _ _ hc => exact absurd h.calm.transaction hc
  | answered _ _ _ _ hc => exact absurd h.calm.transaction hc
  | passed f b _ hp hn => exact .inl ⟨by simp [hout], h.of_passed hw hp hn hstep⟩
  | accepted d c _ hp ho ha =>
    have hat : p.at? s.pc = some d := by
      rw [← ho.instruction, h.pc, ← h.program]
      rfl
    refine .inr ⟨?_, d, hat, h.of_accepted hw hp ho hstep ha (hplain d hat) (hsafe d hat)⟩
    rw [hout]
    cases ha <;> simp [Cycle.complete_eq, Cycle.raise, Cycle.accessCsr, Cycle.command]

end Simulates

end RiscvPipeline.Machine
