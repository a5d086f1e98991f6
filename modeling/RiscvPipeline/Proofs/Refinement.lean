import RiscvPipeline.Proofs.Refinement.Simulation

/-!
# A finished run is sequential execution

A run of the machine that nobody disturbs follows sequential execution, one instruction for each
that is counted, and when it is finished nothing is under way any more.
-/

namespace RiscvPipeline

namespace Machine

open Execute

variable {p : Program} {base : Word} {m : Machine} {w : Signals} {s s₀ : Sequential.State}

/-! ## The beginning and the end -/

theorem read_zero_advance (h : m.registers.read 0 = 0) : (m.advance w).registers.read 0 = 0 := by
  cases hr : m.reset with
  | true =>
    have : (m.advance w).registers = m.registers := by simp [advance, clock, commit, hr]
    rw [this, h]
  | false =>
    rw [advance_registers hr, writtenRegisters]
    split
    · rw [Registers.read_write_zero, h]
    · split
      · rw [Registers.read_write_zero, h]
      · split
        · rw [Registers.read_write_zero, h]
        · exact h

/-- Register 0 is zero in every state that a machine can come to. -/
theorem Reachable.read_zero (h : m.Reachable) : m.registers.read 0 = 0 := by
  obtain ⟨writable, c, p, m₀, l, hnew, rfl⟩ := h
  obtain ⟨-, rfl⟩ := eq_ofConfig_of_new hnew
  have hstart : (ofConfig c p).registers.read 0 = 0 := rfl
  clear hnew
  generalize ofConfig c p = m at hstart
  induction l generalizing m with
  | nil => exact hstart
  | cons e l ih =>
    refine ih _ ?_
    cases e with
    | tick =>
      unfold apply
      cases ht : m.tick with
      | error e => exact hstart
      | ok n =>
        obtain ⟨w, -, rfl⟩ := tick_eq_ok ht
        exact read_zero_advance hstart
    | reset level =>
      unfold apply setReset
      dsimp only
      split <;> exact hstart
    | register r v => exact (Registers.read_write_zero ..).trans hstart
    | interrupt | request | withdraw | collect | poke | bytes | unit => exact hstart

/-- The machine with other registers and memory contents. -/
def withContents (m : Machine) (r : Registers) (ram : Ram) : Machine :=
  { m with registers := r, memory.ram := ram }

/-- A machine of a valid configuration, with any registers and memory contents, leads to the state
in which sequential execution starts. -/
theorem simulates_ofConfig {c : Config} (hc : c.Valid) (hfpu : c.general.fpuEnabled = true)
    {r : Registers} {ram : Ram} (hzero : r.read 0 = 0) (hsize : ram.size = c.memory.size) :
    ((ofConfig c p).withContents r ram).Simulates p c.memory.base ⟨resetVector, r, ram⟩ := by
  obtain ⟨hmod, hbase⟩ := hc.aligned
  rw [← hsize] at hmod
  have hlock : LockStep ((ofConfig c p).withContents r ram).access
      ((ofConfig c p).withContents r ram).memory :=
    LockStep.reset.of_registers (d := (ofConfig c p).memory.reset) rfl
  have hunits (k : Slot) :
      Delivers k (((ofConfig c p).withContents r ram).execute.state.slots.get k)
        (((ofConfig c p).withContents r ram).units.get k) none := by
    cases k <;> exact .free rfl rfl rfl ⟨rfl, rfl⟩
  exact
    { program := rfl
      memoryBase := rfl
      alignedBase := hbase
      alignedSize := hmod
      calm := ⟨rfl, hfpu, rfl, rfl, rfl, rfl, rfl, rfl, rfl⟩
      loads := .of_cleared ⟨rfl, rfl, rfl, rfl⟩
      serving :=
        { hlock with
          unsquashed := by rintro e ⟨⟩
          inside := by rintro e ⟨⟩
          quiet := fun hi => absurd rfl hi
          data := fun hi => absurd rfl hi }
      targets := by rintro e ⟨⟩
      zero := hzero
      pc := rfl
      agrees := ⟨none, .nothing (.inl rfl) hunits, by simp, rfl, rfl⟩ }

theorem Simulates.of_isFinished (h : m.Simulates p base s) (hf : m.isFinished = true) :
    p.at? s.pc = none ∧ m.registers = s.registers ∧ m.memory.ram = s.ram := by
  unfold isFinished at hf
  simp only [Bool.and_eq_true, Bool.not_eq_true'] at hf
  obtain ⟨⟨⟨⟨hleft, hquiescent⟩, hdrained⟩, -⟩, -⟩ := hf
  have hp : m.execute.state.phase.IsOpen := by
    simp only [State.isQuiescent, Bool.and_eq_true, Bool.or_eq_true, beq_iff_eq] at hquiescent
    rw [or_assoc] at hquiescent
    exact hquiescent.1.1
  have hnil : m.access.undone = [] := by
    simp only [MemoryAccess.isDrained, Bool.and_eq_true, beq_iff_eq, MemoryQueue.isEmpty_eq,
      List.isEmpty_iff] at hdrained
    simp [MemoryAccess.undone, MemoryAccess.inFlight, hdrained]
  obtain ⟨-, hregisters, hram⟩ := h.of_isOpen hp
  rw [outlook, hnil] at hregisters hram
  refine ⟨?_, hregisters.symm, hram.symm⟩
  rw [h.pc, ← h.program]
  simpa [Program.contains] using hleft

/-! ## Runs -/

/-- The machine leads to the state after the instructions that it has counted. -/
def Follows (p : Program) (base : Word) (s₀ : Sequential.State) (m : Machine) : Prop :=
  ∃ s, m.Simulates p base s ∧
    Sequential.after p base s₀ m.statistics.instructions = some s

namespace Follows

variable (hplain : ∀ d ∈ p.instructions, d.unsupported = false ∧
    Sequential.isPlain d.opcode.cls = true)
  (hsafe : Sequential.Safe p base s₀)
include hplain hsafe

theorem advance (h : m.Follows p base s₀) (hw : m.Settled w) : (m.advance w).Follows p base s₀ := by
  obtain ⟨s, hs, ha⟩ := h
  have hmem : ∀ d, p.at? s.pc = some d → d ∈ p.instructions := by
    intro d hd
    unfold Program.at? at hd
    split at hd
    · exact Array.mem_of_getElem? hd
    · cases hd
  unfold Follows
  rw [advance_instructions hs.calm.reset, counted_instructions]
  rcases hs.cycle hw (fun d hd => hplain d (hmem d hd)) (fun d => hsafe _ s d ha) with
    ⟨hv, hs'⟩ | ⟨hv, d, hd, hs'⟩
  · rw [hv, if_neg Bool.false_ne_true]
    exact ⟨s, hs', ha⟩
  · rw [hv, if_pos rfl]
    refine ⟨_, hs', ?_⟩
    rw [Sequential.after, ha, Option.bind_some, hd]
    rfl

theorem run (h : m.Follows p base s₀) (n : Nat) : (m.run n).1.Follows p base s₀ := by
  induction n generalizing m with
  | zero => exact h
  | succ n ih =>
    unfold Machine.run
    split
    · exact h
    · cases ht : m.tick with
      | error e => exact h
      | ok next =>
        obtain ⟨w, hw, rfl⟩ := tick_eq_ok ht
        exact ih (h.advance hplain hsafe hw)

end Follows

theorem isFinished_of_run {n : Nat} {m' : Machine} (h : m.run n = (m', .ok .finished)) :
    m'.isFinished = true := by
  induction n generalizing m with
  | zero =>
    unfold run at h
    obtain ⟨rfl, h⟩ := Prod.mk.inj h
    by_contra hf
    rw [if_neg hf] at h
    cases h
  | succ n ih =>
    unfold run at h
    split at h
    next hf =>
      cases h
      exact hf
    next =>
      cases ht : m.tick with
      | error e =>
        rw [ht] at h
        cases h
      | ok next =>
        rw [ht] at h
        exact ih h

/-- If a run of a new machine with the floating-point unit is finished, sequential execution from
the same registers and memory leaves the program after as many instructions as were counted, with
the same next program counter, registers and memory. The instructions of the program work on
registers and memory alone, register 0 is zero (as always, `Reachable.read_zero`), and every load
and store on the way is aligned and lies in memory. -/
theorem run_refines {writable : String → Bool} {c : Config} {m₀ : Machine}
    (hnew : Machine.new writable c p = .ok m₀) (hfpu : c.general.fpuEnabled = true)
    (hplain : ∀ d ∈ p.instructions, d.unsupported = false ∧
      Sequential.isPlain d.opcode.cls = true)
    {r : Registers} {ram : Ram} (hzero : r.read 0 = 0) (hsize : ram.size = c.memory.size)
    (hsafe : Sequential.Safe p c.memory.base ⟨resetVector, r, ram⟩)
    {n : Nat} (hrun : (m₀.withContents r ram).run n = (m, .ok .finished)) :
    ∃ s, Sequential.after p c.memory.base ⟨resetVector, r, ram⟩
        m.statistics.instructions = some s ∧
      p.at? s.pc = none ∧ m.execute.state.npc = s.pc ∧ m.registers = s.registers ∧
        m.memory.ram = s.ram := by
  obtain ⟨hvalid, rfl⟩ := eq_ofConfig_of_new hnew
  have hstart : ((ofConfig c p).withContents r ram).Follows p c.memory.base
      ⟨resetVector, r, ram⟩ :=
    ⟨_, simulates_ofConfig hvalid hfpu hzero hsize, rfl⟩
  have hend := hstart.run hplain hsafe n
  rw [hrun] at hend
  obtain ⟨s, hs, ha⟩ := hend
  obtain ⟨hleft, hregisters, hram⟩ := hs.of_isFinished (isFinished_of_run hrun)
  exact ⟨s, ha, hleft, hs.pc.symm, hregisters, hram⟩

/-- A word is stored, loaded and squared. -/
def squaring : Program :=
  { instructions := #[{ pc := resetVector, word := 0x00552023, opcode := .sw },
      { pc := resetVector + 4, word := 0x00052303, opcode := .lw },
      { pc := resetVector + 8, word := 0x026303b3, opcode := .mul }] }

/-- Address and value of the word. -/
def squaringRegisters : Registers := (({} : Registers).write 10 0x10000000).write 5 7

/-- The machine with the program, its registers and an empty memory. -/
def squaringMachine : Machine :=
  (ofConfig {} squaring).withContents squaringRegisters { size := 1048576 }

theorem run_refines_squaring :
    let m := (squaringMachine.run 100).1
    m.statistics.instructions = 3 ∧ m.registers.read 7 = 49 ∧
      ∃ s, Sequential.after squaring 0x10000000
          ⟨resetVector, squaringRegisters, { size := 1048576 }⟩ 3 = some s ∧
        squaring.at? s.pc = none ∧ m.execute.state.npc = s.pc ∧ m.registers = s.registers ∧
          m.memory.ram = s.ram := by
  intro m
  have hnew : Machine.new (fun _ => true) {} squaring = .ok (ofConfig {} squaring) := rfl
  have hsafe : Sequential.Safe squaring 0x10000000
      ⟨resetVector, squaringRegisters, { size := 1048576 }⟩ :=
    Sequential.safe_of_leaves (n := 4) (by decide +kernel)
  have hrun : (squaringMachine.run 100).2 = .ok .finished := by decide +kernel
  have hcount : m.statistics.instructions = 3 := by decide +kernel
  have hs := run_refines hnew rfl (by decide) (by decide) rfl hsafe (n := 100) (Prod.ext rfl hrun)
  refine ⟨hcount, by decide +kernel, ?_⟩
  rw [← hcount]
  exact hs

end Machine

end RiscvPipeline
