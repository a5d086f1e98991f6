import RiscvPipeline.Proofs.Built
import RiscvPipeline.Proofs.Twins

/-!
# A reset leaves nothing behind

A reset restores every register of the components and every field beside them: the file of control
and status registers, the latched interrupt, the open row of the memory, the accesses of the debug
port. What remains is what was built, the registers, the contents of the memory, and the debug
access that is asked for. Machines that agree in these are twins from then on.
-/

namespace RiscvPipeline.Machine

variable {m n k : Machine} {w v : Signals}

/-- The units, at rest. -/
def restingUnits (m : Machine) : PerSlot FunctionalUnit := m.units.map .reset

/-- Machines that are built in the same way are the same after a reset, if their registers,
memories and requests are. -/
theorem Kin.twin (h : Kin m n) (hu : n.restingUnits = m.restingUnits)
    (hregisters : n.registers = m.registers) (hram : m.memory.ram.Same n.memory.ram)
    (hrequest : n.request = m.request) (hreset : n.reset = m.reset) :
    Twin m.resetComponents n.resetComponents where
  program := h.program
  registers := hregisters
  execute := congrArg (fun b => ({ fpuEnabled := b } : Execute)) h.fpuEnabled
  access := rfl
  units := hu
  arbiter := rfl
  csr := by
    show CsrFile.clocked.reset n.csr = CsrFile.clocked.reset m.csr
    simp only [CsrFile.clocked, h.latency, h.initial]
  memory := ⟨rfl, hram, h.base, h.readyPeriod, h.timing⟩
  pending := rfl
  latched := rfl
  debug := rfl
  request := hrequest
  resetMode := h.resetMode
  reset := hreset

section

variable (hr : m.reset = true)
include hr

/-- Under reset a cycle changes neither registers nor memory nor the request. -/
theorem commit_of_reset : m.commit w = m := by
  unfold commit
  rw [if_pos hr]

theorem ram_advance : (m.advance w).memory.ram = m.memory.ram := by
  simp only [advance, clock, commit_of_reset hr, hr]
  rfl

/-- A cycle with reset high resets every component. -/
theorem twin_advance (w : Signals) : Twin m.resetComponents (m.advance w) where
  program := advance_program
  registers := by simp only [advance, clock, commit_of_reset hr]; rfl
  execute := by simp only [advance, clock, commit_of_reset hr, hr]; rfl
  access := by simp only [advance, clock, commit_of_reset hr, hr]; rfl
  units := by
    simp only [advance, clock, commit_of_reset hr, hr, FunctionalUnit.next_of_reset]
    rfl
  arbiter := by simp only [advance, clock, commit_of_reset hr, hr]; rfl
  csr := (restarted_advance hr).csr
  memory := by
    simp only [advance, clock, commit_of_reset hr, hr]
    exact ⟨rfl, .refl _, rfl, rfl, rfl⟩
  pending := (cleared_advance hr).trap
  latched := by simp only [advance, clock, commit_of_reset hr, hr]; rfl
  debug := (restarted_advance hr).debug
  request := by simp only [advance, clock, commit_of_reset hr]; rfl
  resetMode := by simp only [advance, clock, commit_of_reset hr]; rfl
  reset := advance_reset

end

theorem restingUnits_advance (m : Machine) (w : Signals) :
    (m.advance w).restingUnits = m.restingUnits := by
  simp only [restingUnits, advance, clock, PerSlot.map, PerSlot.ofFn, PerSlot.get,
    FunctionalUnit.reset_next]

/-- Units that are not replaced stay what they are. -/
theorem restingUnits_after {h : List Stimulus} (hu : ∀ s u, .unit s u ∉ h) :
    (m.after h).restingUnits = m.restingUnits := by
  induction h generalizing m with
  | nil => rfl
  | cons e h ih =>
    refine (ih fun s u hs => hu s u (List.mem_cons_of_mem _ hs)).trans ?_
    cases e with
    | tick =>
      unfold apply
      cases ht : m.tick with
      | error e => rfl
      | ok n =>
        obtain ⟨w, -, rfl⟩ := tick_eq_ok ht
        exact restingUnits_advance m w
    | reset level =>
      unfold apply setReset
      dsimp only
      split
      · simp only [restingUnits, resetComponents, PerSlot.map, FunctionalUnit.reset_reset]
      · rfl
    | unit s u => exact absurd List.mem_cons_self (hu s u)
    | interrupt | request | withdraw | collect | register | poke | bytes => rfl

theorem unitsStable_of_restingUnits (hu : n.restingUnits = m.restingUnits) :
    n.unitsStable = m.unitsStable := by
  have heq (k : Machine) : k.unitsStable = !k.restingUnits.any fun u => !u.isStable := by
    simp only [unitsStable, restingUnits, PerSlot.any, PerSlot.map, FunctionalUnit.isStable_reset]
  rw [heq, heq, hu]

/-- The machine `m₀` with the units, registers, memory and request of `m`. -/
def given (m₀ m : Machine) : Machine :=
  { m₀ with
    units := m.restingUnits
    registers := m.registers
    memory.ram := m.memory.ram
    request := m.request
    reset := m.reset }

theorem given_resetComponents (m₀ m : Machine) : m₀.given m.resetComponents = m₀.given m := by
  simp only [given, restingUnits, resetComponents, PerSlot.map, FunctionalUnit.reset_reset]
  rfl

/-- A machine that is reset is like a new one. -/
theorem twin_given {c : Config} {p : Program} (h : Kin (ofConfig c p) m) :
    Twin m.resetComponents ((ofConfig c p).given m) where
  program := h.program.symm
  registers := rfl
  execute := congrArg (fun b => ({ fpuEnabled := b } : Execute)) h.fpuEnabled.symm
  access := rfl
  units := rfl
  arbiter := rfl
  csr := by
    show (ofConfig c p).csr = CsrFile.clocked.reset m.csr
    simp only [CsrFile.clocked, h.latency, h.initial]
    rfl
  memory := by
    refine ⟨rfl, .refl _, h.base.symm, h.readyPeriod.symm, ?_⟩
    show (ofConfig c p).memory.timing = m.memory.timing.reset
    rw [h.timing]
    show MemoryTiming.ofConfig c.memory = (MemoryTiming.ofConfig c.memory).reset
    unfold MemoryTiming.ofConfig
    cases c.memory.model <;> rfl
  pending := rfl
  latched := rfl
  debug := rfl
  request := rfl
  resetMode := h.resetMode.symm
  reset := rfl

/-- A reset leaves nothing behind but registers, memory and a debug access that is asked for: two
machines that are built in the same way and agree in these cannot be told apart after a cycle with
reset high, nor can either be told from a new machine with the same registers, memory and access.
With an asynchronous reset that holds as soon as the line is high. If units have been replaced, it
must have been by the same ones. -/
theorem reset_erases {writable : String → Bool} {c : Config} {p : Program} {m₀ : Machine}
    (hnew : Machine.new writable c p = .ok m₀) {h h' : List Stimulus}
    (hunits : (∀ s u, Stimulus.unit s u ∉ h ++ h') ∨ (m₀.after h).unitsStable = true ∧
      (m₀.after h').restingUnits = (m₀.after h).restingUnits)
    (hregisters : (m₀.after h').registers = (m₀.after h).registers)
    (hram : (m₀.after h).memory.ram.Same (m₀.after h').memory.ram)
    (hrequest : (m₀.after h').request = (m₀.after h).request) :
    let m := m₀.after h
    let n := m₀.after h'
    (m.reset = true → n.reset = true → ∃ m' n', m.tick = .ok m' ∧ n.tick = .ok n' ∧
      (m'.registers = m.registers ∧ m'.memory.ram = m.memory.ram) ∧
      (n'.registers = n.registers ∧ n'.memory.ram = n.memory.ram) ∧
      Indistinguishable m' n' ∧ Indistinguishable m' (m₀.given m)) ∧
    (m.resetMode = .async →
      Indistinguishable (m.setReset true) (n.setReset true) ∧
        Indistinguishable (m.setReset true) (m₀.given (m.setReset true))) := by
  intro m n
  obtain ⟨-, rfl⟩ := eq_ofConfig_of_new hnew
  have hkin : Kin m n := (kin_after _ h).symm.trans (kin_after _ h')
  obtain ⟨hm, hn⟩ : m.unitsStable = true ∧ n.restingUnits = m.restingUnits := by
    obtain hu | hu := hunits
    · have hum : m.restingUnits = (ofConfig c p).restingUnits :=
        restingUnits_after fun s u hs => hu s u (List.mem_append_left _ hs)
      have hun : n.restingUnits = (ofConfig c p).restingUnits :=
        restingUnits_after fun s u hs => hu s u (List.mem_append_right _ hs)
      exact ⟨unitsStable_of_restingUnits hum, hun.trans hum.symm⟩
    · exact hu
  refine ⟨fun hr hr' => ?_, fun ha => ?_⟩
  · have hmtwin := twin_advance hr m.settled
    have hntwin := twin_advance hr' n.settled
    have htwin := hkin.twin hn hregisters hram hrequest (hr'.trans hr.symm)
    exact ⟨_, _, tick_eq hm, tick_eq ((unitsStable_of_restingUnits hn).trans hm),
      ⟨hmtwin.registers, ram_advance hr⟩, ⟨hntwin.registers, ram_advance hr'⟩,
      (hmtwin.symm.trans (htwin.trans hntwin)).indistinguishable,
      (hmtwin.symm.trans (twin_given (kin_after _ h))).indistinguishable⟩
  · have hreset (k : Machine) (hk : k.resetMode = .async) :
        k.setReset true = ({ k with reset := true } : Machine).resetComponents :=
      if_pos ⟨rfl, hk⟩
    have hmkin : Kin (ofConfig c p) { m with reset := true } := { kin_after _ h with }
    have htwin : Twin ({ m with reset := true } : Machine).resetComponents
        ({ n with reset := true } : Machine).resetComponents :=
      Kin.twin { hkin with } hn hregisters hram hrequest rfl
    rw [hreset m ha, hreset n (hkin.resetMode.trans ha), given_resetComponents]
    exact ⟨htwin.indistinguishable, (twin_given hmkin).indistinguishable⟩

/-- A write to a control and status register and a load into register 0, with DRAM. -/
def scribbling : Machine :=
  ofConfig { memory := { size := 8, model := .dram } } { instructions := #[
    { pc := resetVector, word := 0x34029073, opcode := .csrrw },
    { pc := resetVector + 4, word := 0x00003003, opcode := .ld }] }

/-- The program is under way, with a row of the memory open and an interrupt requested. -/
def scribbled : List Stimulus := .replicate 9 .tick ++ [.interrupt 7, .reset true]

/-- After a reset nothing of it is left. -/
theorem reset_erases_scribbling :
    let m := scribbling.after scribbled
    let n := scribbling.after [.reset true]
    Machine.new (fun _ => true) { memory := { size := 8, model := .dram } } scribbling.program =
        .ok scribbling ∧
      (∀ s u, Stimulus.unit s u ∉ scribbled ++ [.reset true]) ∧ n.registers = m.registers ∧
      m.memory.ram.Same n.memory.ram ∧ n.request = m.request ∧ m.reset = true ∧ n.reset = true ∧
      m.memory.timing ≠ n.memory.timing ∧ m.csr.bank ≠ n.csr.bank ∧
      m.trap.latched ≠ n.trap.latched ∧
      ∃ m' n', m.tick = .ok m' ∧ n.tick = .ok n' ∧ Indistinguishable m' n' := by
  intro m n
  have hnew : Machine.new (fun _ => true) { memory := { size := 8, model := .dram } }
      scribbling.program = .ok scribbling := rfl
  have hunits : ∀ s u, Stimulus.unit s u ∉ scribbled ++ [.reset true] := by
    simp [scribbled]
  have hregisters : n.registers = m.registers := by decide +kernel
  have hram : m.memory.ram.Same n.memory.ram := ⟨by decide +kernel, by decide +kernel⟩
  have hrequest : n.request = m.request := by decide +kernel
  have hm : m.reset = true := by decide +kernel
  have hn : n.reset = true := by decide +kernel
  obtain ⟨m', n', htm, htn, -, -, hsame, -⟩ :=
    (reset_erases hnew (.inl hunits) hregisters hram hrequest).1 hm hn
  exact ⟨hnew, hunits, hregisters, hram, hrequest, hm, hn, by decide +kernel, by decide +kernel,
    by decide +kernel, m', n', htm, htn, hsame⟩

end RiscvPipeline.Machine
