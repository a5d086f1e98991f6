import RiscvPipeline.Proofs.PendingLoads
import RiscvPipeline.Proofs.Refinement.Calm
import RiscvPipeline.Proofs.Refinement.Results
import RiscvPipeline.Proofs.Units

/-!
# What is under way in the machine

Between two cycles results are under way in three places: loads and stores in the memory-access
stage, a result that waits for the register file, and an operation on a functional unit. Once all of
them are carried out, registers and memory are those of sequential execution. Since no two of them
touch the same register, it does not matter in which order they end.
-/

namespace RiscvPipeline.Machine

open Execute

/-- What the execute stage has still to write: nothing, a result that waits for the register file,
or the value of the operation on a functional unit. -/
inductive Awaits (m : Machine) : Option (RegIndex × Word) → Prop
  | nothing (hp : m.execute.state.phase.IsOpen)
      (hs : ∀ k, Delivers k (m.execute.state.slots.get k) (m.units.get k) none) : Awaits m none
  | result (hp : m.execute.state.phase = .single)
      (hs : ∀ k, Delivers k (m.execute.state.slots.get k) (m.units.get k) none) :
    Awaits m (some (m.execute.state.current.target, m.execute.state.current.result))
  | unit (j : Slot) (v : Word) (hp : m.execute.state.phase = .multi)
      (hj : Delivers j (m.execute.state.slots.get j) (m.units.get j) (some v))
      (hs : ∀ k, k ≠ j → Delivers k (m.execute.state.slots.get k) (m.units.get k) none) :
    Awaits m (some (m.execute.state.current.target, v))

/-- Writes what is awaited. -/
def finish : Option (RegIndex × Word) → Registers → Registers
  | none, r => r
  | some (t, v), r => r.write t v

/-- Registers and memory once the memory operations under way are done. -/
def outlook (m : Machine) : Registers × Ram :=
  drain m.memory.base m.access.undone (m.registers, m.memory.ram)

/-- A machine in which nothing goes wrong. -/
structure Sound (p : Program) (base : Word) (m : Machine) : Prop where
  program : m.program = p
  memoryBase : m.memory.base = base
  alignedBase : base.toNat % 8 = 0
  alignedSize : m.memory.ram.size % 8 = 0
  calm : m.Calm
  loads : m.LoadsTracked none
  serving : Serving m.access m.memory
  targets : ∀ e ∈ m.access.inFlight, e.target.toNat < 64
  zero : m.registers.read 0 = 0

variable {p : Program} {base : Word} {m : Machine} {w : Signals}

namespace Awaits

variable {a : Option (RegIndex × Word)}

theorem of_isOpen (h : m.Awaits a) (hp : m.execute.state.phase.IsOpen) :
    a = none ∧ ∀ k, Delivers k (m.execute.state.slots.get k) (m.units.get k) none := by
  cases h with
  | nothing _ hs => exact ⟨rfl, hs⟩
  | result hp' | unit _ _ hp' =>
    rw [hp'] at hp
    rcases hp with hp | hp | hp <;> cases hp

theorem of_single (h : m.Awaits a) (hp : m.execute.state.phase = .single) :
    a = some (m.execute.state.current.target, m.execute.state.current.result) ∧
      ∀ k, Delivers k (m.execute.state.slots.get k) (m.units.get k) none := by
  cases h with
  | nothing hp' =>
    rw [hp] at hp'
    rcases hp' with hp' | hp' | hp' <;> cases hp'
  | result _ hs => exact ⟨rfl, hs⟩
  | unit _ _ hp' => cases hp.symm.trans hp'

theorem of_multi (h : m.Awaits a) (hp : m.execute.state.phase = .multi) :
    ∃ j v, a = some (m.execute.state.current.target, v) ∧
      Delivers j (m.execute.state.slots.get j) (m.units.get j) (some v) ∧
      ∀ k, k ≠ j → Delivers k (m.execute.state.slots.get k) (m.units.get k) none := by
  cases h with
  | nothing hp' =>
    rw [hp] at hp'
    rcases hp' with hp' | hp' | hp' <;> cases hp'
  | result hp' => cases hp.symm.trans hp'
  | unit j v _ hj hs => exact ⟨j, v, rfl, hj, hs⟩

end Awaits

/-! ## One cycle of the parts -/

/-- A slot and its unit after a cycle that does not start an operation. -/
theorem deliver_next (hr : m.reset = false) (hw : m.Settled w) {k : Slot} {v : Option Word}
    (h : Delivers k (m.execute.state.slots.get k) (m.units.get k) v) :
    let i := m.executeInput w
    let left := (m.execute.slotsLeft i).get k
    let unit := (m.advance w).units.get k
    Cycle.finishes m.execute.state i k = false ∧ Delivers k left unit v ∨
      Cycle.finishes m.execute.state i k = true ∧
        (m.execute.state.slots.get k).suppress = false ∧ v = some (i.units.get k).result ∧
        Delivers k left unit none := by
  intro i left unit
  have hq : w.execute.units.get k = (m.execute.state.slots.get k).request := by
    rw [hw.execute]
    exact step_wired.units k
  have hunit : unit = (m.units.get k).next false (m.execute.state.slots.get k).request := by
    have : unit = (m.units.get k).next m.reset (w.execute.units.get k) := PerSlot.get_ofFn ..
    rw [this, hr, hq]
  have hresponse : i.units.get k = (m.units.get k).response (w.execute.units.get k) := hw.units k
  have hfin : Cycle.finishes m.execute.state i k =
      ((m.execute.state.slots.get k).busy && (i.units.get k).valid) := rfl
  have hleft : left = if Cycle.finishes m.execute.state i k then
      { m.execute.state.slots.get k with enable := false, busy := false, suppress := false }
      else { m.execute.state.slots.get k with enable := false } := PerSlot.get_ofFn ..
  rcases h.next (q := w.execute.units.get k) with ⟨hv, hd⟩ | ⟨hv, hs, he, hd⟩
  · rw [← hresponse, ← hfin] at hv
    rw [hunit, hleft, hv]
    exact .inl ⟨rfl, hd⟩
  · rw [← hresponse, ← hfin] at hv
    rw [← hresponse] at he
    rw [hunit, hleft, hv]
    exact .inr ⟨rfl, hs, he, hd⟩

/-- A free slot stays free. -/
theorem deliver_none (hr : m.reset = false) (hw : m.Settled w) {k : Slot}
    (h : Delivers k (m.execute.state.slots.get k) (m.units.get k) none) :
    Delivers k ((m.execute.slotsLeft (m.executeInput w)).get k) ((m.advance w).units.get k)
      none := by
  rcases deliver_next hr hw h with ⟨-, hd⟩ | ⟨-, -, hv, -⟩
  · exact hd
  · cases hv

namespace Sound

variable (h : m.Sound p base) (hw : m.Settled w)
include h

/-- An operation under way spares register 0. -/
theorem spares_zero : Spares m.access.inFlight 0 := by
  intro e he _
  by_cases h0 : e.target = 0
  · exact .inl h0
  · exact .inr (RegIndex.mod_ne (h.targets e he) (by decide) h0)

/-- No load under way writes a register that an accepted instruction names. -/
theorem spares {d : DecodedInstruction} (hc : m.execute.state.hazards.conflicts d.hazards = false)
    {r : RegIndex} (hr : r.toNat < 64) (hm : r ≠ 0 → some r ∈ d.hazards) :
    Spares m.access.inFlight r := by
  by_cases hr0 : r = 0
  · rw [hr0]
    exact h.spares_zero
  intro e he hst
  by_cases h0 : e.target = 0
  · exact .inl h0
  refine .inr (RegIndex.mod_ne (h.targets e he) hr ?_)
  have hlive : e.isLive = true := by
    rw [QueueEntry.isLive, h.serving.unsquashed e he, hst, bne_iff_ne.mpr h0]
    rfl
  have hpending : e.pendingWrite ∈ m.execute.state.hazards.pending := by
    rw [h.loads.pending]
    exact List.mem_map.mpr ⟨e, List.mem_filter.mpr ⟨he, hlive⟩, rfl⟩
  exact HazardTracker.ne_of_conflicts hc (hm hr0) hr0 hpending

include hw

theorem turn : m.access.Turn (accessInput w) (m.advance w).access w.access := by
  rw [advance_access h.calm.reset]
  exact hw.turn h.serving.wf

theorem registers_eq : (m.advance w).registers =
    if w.access.write.enable then m.registers.write w.access.write.target w.access.write.data
    else if w.execute.write.enable then
      m.registers.write w.execute.write.target w.execute.write.data
    else m.registers := by
  rw [advance_registers h.calm.reset, writtenRegisters, h.calm.debugOutput hw]

/-- The operation that is handed over goes behind the others. -/
theorem inFlight_eq : (m.advance w).access.inFlight =
    m.access.remaining (accessInput w) ++ m.access.admitted (accessInput w) := by
  have hf : (accessInput w).flush = false := h.calm.flush hw
  rw [(h.turn hw).inFlight, hf]
  simp

/-- Where memory operations lead is not changed by a cycle that writes no result. -/
theorem outlook_kept (hx : w.execute.write.enable = false) :
    (m.advance w).outlook = drain base (m.access.admitted (accessInput w)) m.outlook := by
  have hd := h.serving.drained hw.memory (h.turn hw) (h.calm.flush hw) m.registers
  unfold outlook
  rw [h.registers_eq hw, hx, advance_memory h.calm.reset, DataMemory.next_base, ← h.memoryBase]
  exact hd

/-- A result that is written is written there too. -/
theorem outlook_written {t : RegIndex} {v : Word}
    (hx : w.execute.write = { enable := true, target := t, data := v })
    (ha : w.access.write.enable = false) (hs : Spares (m.advance w).access.undone t) :
    (m.advance w).outlook =
      ((drain base (m.access.admitted (accessInput w)) m.outlook).1.write t v,
        (drain base (m.access.admitted (accessInput w)) m.outlook).2) := by
  have hd := h.serving.drained hw.memory (h.turn hw) (h.calm.flush hw) m.registers
  rw [ha, if_neg Bool.false_ne_true] at hd
  unfold outlook
  rw [h.registers_eq hw, ha, hx, advance_memory h.calm.reset, DataMemory.next_base, ← h.memoryBase]
  refine (drain_write (x := (m.registers, (m.memory.next w.access.bus).ram)) hs v).trans ?_
  rw [hd]

/-- Nothing goes wrong in a cycle whose instruction does no wrong. -/
theorem advance (hx : w.execute.exceptions.Harmless)
    (hc : (m.execute.step (m.executeInput w)).next.csr.phase = .idle)
    (ha : ∀ e ∈ m.access.admitted (accessInput w),
      (m.memory.ram.peekAt base e.addr).isSome = true ∧ e.target.toNat < 64) :
    (m.advance w).Sound p base := by
  have hr := h.calm.reset
  have hf := h.calm.flush hw
  have hturn := h.turn hw
  have hfaults := h.serving.faultless hw.memory hturn
  have hin := h.inFlight_eq hw
  have hun : ∀ e ∈ m.access.admitted (accessInput w), e.flushed = false := by
    rw [hw.admitted]
    intro e he
    obtain ⟨op, -, rfl⟩ := Option.map_eq_some_iff.mp (Option.mem_toList.mp he)
    rfl
  have htracker : faultTracker.cycle m w none = none := by simp [faultTracker, hfaults.1]
  exact
    { program := by rw [advance_program]; exact h.program
      memoryBase := by rw [advance_memory hr, DataMemory.next_base]; exact h.memoryBase
      alignedBase := h.alignedBase
      alignedSize := by
        rw [advance_memory hr, Serving.size_next]
        exact h.alignedSize
      calm := h.calm.advance hw hx hfaults hc
      loads := by
        rw [← htracker]
        exact h.loads.cycle hr hw
      serving := by
        rw [advance_memory hr]
        refine h.serving.step hw.memory hturn hf fun e he => ⟨hun e he, ?_⟩
        rw [h.memoryBase]
        exact (ha e he).1
      targets := by
        intro e he
        rw [hin, List.mem_append] at he
        rcases he with he | he
        · refine h.targets e ?_
          rw [m.access.inFlight_eq (accessInput w)]
          exact List.mem_append_right _ he
        · exact (ha e he).2
      zero := by
        rw [h.registers_eq hw, ← h.zero]
        split
        · exact Registers.read_write_zero _ _
        · split
          · exact Registers.read_write_zero _ _
          · rfl }

theorem spares_advance (hm : w.execute.memoryOp = none) {t : RegIndex}
    (hs : Spares m.access.inFlight t) : Spares (m.advance w).access.inFlight t := by
  intro e he
  rw [h.inFlight_eq hw, hw.admitted, hm, List.mem_append] at he
  refine hs e ?_
  rw [m.access.inFlight_eq (accessInput w)]
  exact List.mem_append_right _ (he.resolve_right List.not_mem_nil)

/-- A completed result is written, or it is awaited. -/
theorem complete {c : Cycle} {t : RegIndex} {v : Word}
    (hstep : m.execute.step (m.executeInput w) =
      c.complete (m.executeInput w).writeReady t v)
    (hc : c.out.write = {}) (hm : w.execute.memoryOp = none)
    (hs : ∀ k, Delivers k (c.next.slots.get k) ((m.advance w).units.get k) none)
    (ht : t.toNat < 64) (hsp : Spares m.access.inFlight t) :
    ∃ a, (m.advance w).Awaits a ∧
      (∀ t v, a = some (t, v) → t.toNat < 64 ∧ Spares (m.advance w).access.inFlight t) ∧
      finish a (m.advance w).outlook.1 = m.outlook.1.write t v ∧
      (m.advance w).outlook.2 = m.outlook.2 := by
  have hadm : m.access.admitted (accessInput w) = [] := by rw [hw.admitted, hm]; rfl
  have hstate : (m.advance w).execute.state =
      (c.complete (m.executeInput w).writeReady t v).next := by
    rw [advance_execute h.calm.reset, hstep]
  have hphase := (congrArg Execute.State.phase hstate).trans (c.complete_phase ..)
  have hcurrent := (congrArg Execute.State.current hstate).trans (c.complete_current ..)
  have hout : w.execute = (c.complete (m.executeInput w).writeReady t v).out := by
    rw [hw.execute, hstep]
  have hwrite := (congrArg Output.write hout).trans (c.complete_write ..)
  rw [hc] at hwrite
  have hslots : ∀ k, Delivers k ((m.advance w).execute.state.slots.get k)
      ((m.advance w).units.get k) none := by
    rw [hstate, Cycle.complete_slots]
    exact hs
  have hspares := h.spares_advance hw hm hsp
  by_cases h0 : t = 0
  · rw [if_pos (.inl h0)] at hphase hwrite
    refine ⟨none, .nothing (.inl hphase) hslots, by simp, ?_⟩
    rw [h.outlook_kept hw (by rw [hwrite]), hadm, h0]
    exact ⟨rfl, rfl⟩
  cases hb : (m.executeInput w).writeReady with
  | true =>
    rw [if_pos (.inr hb)] at hphase
    rw [if_neg (not_or.mpr ⟨h0, by simp [hb]⟩)] at hwrite
    have hfree : w.access.write.enable = false := by
      have : (m.executeInput w).writeReady = !w.access.write.enable := rfl
      rw [hb] at this
      simpa using this.symm
    refine ⟨none, .nothing (.inl hphase) hslots, by simp, ?_⟩
    rw [h.outlook_written hw hwrite hfree
      fun e he => hspares e (MemoryAccess.mem_inFlight_of_mem_undone he), hadm]
    exact ⟨rfl, rfl⟩
  | false =>
    rw [if_neg (not_or.mpr ⟨h0, by simp [hb]⟩)] at hphase hcurrent
    rw [if_pos (.inr hb)] at hwrite
    refine ⟨_, .result hphase hslots, ?_, ?_⟩
    · intro t' v' he
      obtain ⟨rfl, -⟩ := Prod.mk.inj (Option.some.inj he)
      rw [hcurrent]
      exact ⟨ht, hspares⟩
    · rw [h.outlook_kept hw (by rw [hwrite]), hadm, hcurrent]
      exact ⟨rfl, rfl⟩

/-- An instruction without a memory operation. -/
theorem advance_plain (hx : w.execute.exceptions.Harmless) (hm : w.execute.memoryOp = none)
    (hc : (m.execute.step (m.executeInput w)).next.csr =
      m.execute.transactionLeft (m.executeInput w)) : (m.advance w).Sound p base := by
  refine h.advance hw hx ?_ ?_
  · rw [hc, transactionLeft_idle h.calm.transaction]
    exact h.calm.transaction
  · rw [hw.admitted, hm]
    intro e he
    cases he

end Sound

end RiscvPipeline.Machine
