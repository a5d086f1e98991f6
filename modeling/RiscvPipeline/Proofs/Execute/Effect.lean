import RiscvPipeline.Proofs.Execute.Control

/-!
# The effect of an instruction

An instruction that is accepted is refused where it stands, because the core does not carry it out
or because its address is not aligned, or it has the effect of its class: a load or store is handed
over to the memory-access stage, and a functional unit is triggered (`Execute.Effect`).
-/

namespace RiscvPipeline

/-- The instruction has no other effect than an exception. -/
def ExceptionPulses.refuses (e : ExceptionPulses) : Bool :=
  e.illegal || e.misalignedLoad || e.misalignedStore

/-- Nothing goes both to memory and to a functional unit. -/
theorem ExecClass.isMemory_of_slot? {c : ExecClass} {k : Slot} (h : c.slot? = some k) :
    c.isMemory = false := by
  cases c <;> first | rfl | cases h

namespace Execute

/-- Some unit is triggered in the next cycle. -/
def State.dispatches (s : State) : Bool := s.slots.any (·.enable)

variable (s : Execute) (i : Input)

/-- What a cycle does for the instruction that it accepts. -/
inductive Effect (c : Cycle) : Prop
  | none (hv : c.out.valid = false) (hm : c.out.memoryOp = .none) (hs : c.next.dispatches = false)
  | refused (d : DecodedInstruction) (ho : s.Offered i d) (hv : c.out.valid = true)
      (hpc : c.out.pc = d.pc) (hx : c.out.exceptions.refuses = true)
      (hm : c.out.memoryOp = .none) (hs : c.next.dispatches = false)
  | carried (d : DecodedInstruction) (ho : s.Offered i d) (hv : c.out.valid = true)
      (hpc : c.out.pc = d.pc) (hx : c.out.exceptions.refuses = false)
      (hm : c.out.memoryOp.map (·.store) =
        if d.opcode.cls.isMemory then some (d.opcode.cls == .store) else .none)
      (hs : c.next.dispatches = d.opcode.cls.slot?.isSome)

variable {s i}

theorem any_slotsLeft : (s.slotsLeft i).any (·.enable) = false :=
  PerSlot.any_eq_false.2 slotsLeft_enable

section

attribute [local simp] opening_eq Cycle.trap Cycle.occupied Cycle.ready Cycle.raise Cycle.accept
  Cycle.keep Cycle.complete_eq Cycle.unitDone_eq Cycle.accessCsr Cycle.command Cycle.writeCsr
  any_slotsLeft State.dispatches ExceptionPulses.refuses

theorem step_effect : s.Effect i (s.step i) := by
  have h := step_outcome (s := s) (i := i)
  generalize s.step i = c at h
  cases h with
  | trapped =>
    refine .none (by simp) (by simp) (PerSlot.any_eq_false.2 fun k => ?_)
    simp only [Cycle.trap, opening_eq, PerSlot.get_map]
    split <;> simp [slotsLeft_enable]
  | running | parked | pending | finished | passed => exact .none (by simp) (by simp) (by simp)
  | answered _ _ _ _ _ _ ha => cases ha <;> exact .none (by simp) (by simp) (by simp)
  | accepted d _ _ _ ho ha =>
    cases ha with
    | illegal => exact .refused d ho (by simp) (by simp) (by simp) (by simp) (by simp)
    | misaligned =>
      exact .refused d ho (by simp) (by simp) (by cases d.opcode.cls <;> simp) (by simp) (by simp)
    | memory _ hd =>
      have hcls : d.opcode.cls.isMemory = true ∧ d.opcode.cls.slot? = none := by
        rcases hd with hd | hd <;> rw [hd] <;> exact ⟨rfl, rfl⟩
      exact .carried d ho (by simp) (by simp) (by simp) (by simp [hcls, memoryOp])
        (by simp [hcls])
    | dispatch k _ hd =>
      have hcls := ExecClass.isMemory_of_slot? hd
      refine .carried d ho (by simp) (by simp) (by simp) (by simp [hcls]) ?_
      rw [hd, Option.isSome_some]
      by_contra hs
      have hk := PerSlot.any_eq_false.1 (Bool.not_eq_true _ ▸ hs) k
      simp [SlotState.start] at hk
    | alu _ hd =>
      rcases hd with hd | hd <;>
        exact .carried d ho (by simp) (by simp) (by simp) (by simp [hd, ExecClass.isMemory])
          (by simp [hd, ExecClass.slot?])
    | branch _ hd | jump _ hd | csr _ hd | trapReturn _ hd | wfi _ hd | ecall _ hd | ebreak _ hd
    | fence _ hd =>
      exact .carried d ho (by simp) (by simp) (by simp) (by simp [hd, ExecClass.isMemory])
        (by simp [hd, ExecClass.slot?])

end

end Execute

end RiscvPipeline
