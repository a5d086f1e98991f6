import RiscvPipeline.Execute.Issue
import RiscvPipeline.Units.Latency

/-! The operands that instructions read: what the execute stage computes for an instruction depends
on no others. -/

namespace RiscvPipeline

namespace Opcode

/-- An operation of one cycle reads the operands that its format has. -/
theorem reads_of_alu {o : Opcode} (h : o.cls = .alu ∨ o.cls = .shift) :
    o.traits.format = .i ∧ o.traits.readsRs1 = true ∨ o.traits.format = .u ∨
      o.traits.format = .r ∧ o.traits.readsRs1 = true ∧ o.traits.readsRs2 = true := by
  revert h
  cases o <;> decide

theorem reads_of_branch {o : Opcode} (h : o.cls = .branch) :
    o.traits.readsRs1 = true ∧ o.traits.readsRs2 = true := by
  revert h
  cases o <;> decide

theorem reads_of_jump {o : Opcode} (h : o.cls = .jump) : o = .jal ∨ o.traits.readsRs1 = true := by
  revert h
  cases o <;> decide

theorem reads_of_load {o : Opcode} (h : o.cls = .load) : o.traits.readsRs1 = true := by
  revert h
  cases o <;> decide

theorem reads_of_store {o : Opcode} (h : o.cls = .store) :
    o.traits.readsRs1 = true ∧ o.traits.readsRs2 = true := by
  revert h
  cases o <;> decide

/-- An operation on a functional unit reads its first operand, and the second one if its result or
flags depend on it. -/
theorem reads_of_slot {o : Opcode} {k : Slot} (h : o.cls.slot? = some k) :
    o.traits.readsRs1 = true ∧ (o.traits.readsRs2 = true ∨
      ∀ a b b', k.evaluate o a b = k.evaluate o a b') := by
  cases o <;> first
    | (cases h; done)
    | exact ⟨rfl, .inl rfl⟩
    | (cases h; exact ⟨rfl, .inr fun _ _ _ => rfl⟩)

end Opcode

namespace Execute

variable {d : DecodedInstruction} {i j : Input}

variable (d i j) in
/-- The operands that the instruction reads are the same. -/
structure SameOperands : Prop where
  first : d.opcode.traits.readsRs1 = true → operandA d j = operandA d i
  second : d.opcode.traits.readsRs2 = true → operandB d j = operandB d i

namespace SameOperands

variable (h : SameOperands d i j)
include h

theorem aluResult (hd : d.opcode.cls = .alu ∨ d.opcode.cls = .shift) :
    aluResult d j = aluResult d i := by
  unfold Execute.aluResult
  rcases Opcode.reads_of_alu hd with ⟨hf, h1⟩ | hf | ⟨hf, h1, h2⟩
  · rw [hf, h.first h1]
  · rw [hf]
  · rw [hf, h.first h1, h.second h2]

theorem branchTarget (hd : d.opcode.cls = .branch) : branchTarget d j = branchTarget d i := by
  obtain ⟨h1, h2⟩ := Opcode.reads_of_branch hd
  rw [Execute.branchTarget, h.first h1, h.second h2]
  rfl

theorem jumpTarget (hd : d.opcode.cls = .jump) : jumpTarget d j = jumpTarget d i := by
  unfold Execute.jumpTarget
  rcases Opcode.reads_of_jump hd with ho | h1
  · rw [if_pos ho, if_pos ho]
  · rw [h.first h1]

theorem memoryAddress (hd : d.opcode.cls = .load ∨ d.opcode.cls = .store) :
    memoryAddress d j = memoryAddress d i := by
  have h1 : d.opcode.traits.readsRs1 = true := by
    rcases hd with hd | hd
    · exact Opcode.reads_of_load hd
    · exact (Opcode.reads_of_store hd).1
  rw [Execute.memoryAddress, h.first h1]
  rfl

/-- Results of the functional units, with their flags. -/
theorem evaluate {k : Slot} (hd : d.opcode.cls.slot? = some k) :
    k.evaluate d.opcode (operandA d j) (operandB d j) =
      k.evaluate d.opcode (operandA d i) (operandB d i) := by
  obtain ⟨h1, h2 | h2⟩ := Opcode.reads_of_slot hd
  · rw [h.first h1, h.second h2]
  · rw [h.first h1]
    exact h2 _ _ _

/-- An access to a control and status register, which takes its operand from a field of the
instruction if it reads none. -/
theorem accessCsr (c : Cycle) : c.accessCsr d j = c.accessCsr d i := by
  unfold Cycle.accessCsr
  cases h1 : d.opcode.traits.readsRs1 with
  | false => rfl
  | true => rw [h.first h1]

end SameOperands

end Execute

end RiscvPipeline
