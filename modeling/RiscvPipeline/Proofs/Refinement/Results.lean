import RiscvPipeline.Proofs.Execute.Operands
import RiscvPipeline.Proofs.Memory.Drain

/-! What the execute stage computes for an instruction is what sequential execution computes, if the
operands that the instruction reads are the same. -/

namespace RiscvPipeline

namespace Ram

variable {m : Ram} {base addr : Word} {size : AccessSize}

/-- An aligned access in memory lies within one doubleword of memory. -/
theorem offset?_alignDown (hb : base.toNat % 8 = 0) (hm : m.size % 8 = 0)
    (ha : addr.toNat % size.bytes = 0) (hlo : base.toNat ≤ addr.toNat)
    (hhi : addr.toNat - base.toNat + size.bytes ≤ m.size) :
    ∃ n, m.offset? base addr.alignDown = some n ∧ m.covers n 8 = true ∧
      n + Word.lane addr = addr.toNat - base.toNat ∧ Word.lane addr + size.bytes ≤ 8 := by
  have hdown := Word.toNat_alignDown addr
  obtain ⟨-, hle⟩ := Lanes.lane_of_aligned ha
  have hpos : 0 < size.bytes := size.bytes_eq ▸ Nat.two_pow_pos _
  unfold Word.lane at hle ⊢
  refine ⟨addr.alignDown.toNat - base.toNat, ?_, ?_, ?_, hle⟩
  · rw [offset?, if_pos (by omega)]
  · rw [covers, decide_eq_true_eq]
    omega
  · omega

end Ram

namespace Execute

open RiscvPipeline.Sequential (loadBytes bytesOf)

variable {d : DecodedInstruction} {i : Input} {s : Sequential.State} {base : Word}

variable (d i s) in
/-- The operands that the instruction reads are those of sequential execution, and so is its
address. -/
structure Operands : Prop where
  pc : d.pc = s.pc
  first : d.opcode.traits.readsRs1 = true → operandA d i = s.read d.source1
  second : d.opcode.traits.readsRs2 = true → operandB d i = s.read d.source2

namespace Operands

variable (h : Operands d i s)
include h

theorem following_eq : following d = s.pc + d.length := by rw [following, h.pc]

theorem alu (hd : d.opcode.cls = .alu ∨ d.opcode.cls = .shift) :
    Sequential.execute base d s = s.write d (aluResult d i) := by
  have hr : Sequential.execute base d s = s.write d (s.alu d) := by
    unfold Sequential.execute
    rcases hd with hd | hd <;> rw [hd]
  rw [hr]
  unfold aluResult Sequential.State.alu
  rcases Opcode.reads_of_alu hd with ⟨hf, h1⟩ | hf | ⟨hf, h1, h2⟩
  · rw [hf, h.first h1]
  · rw [hf, h.pc]
  · rw [hf, h.first h1, h.second h2]

theorem branch (hd : d.opcode.cls = .branch) :
    Sequential.execute base d s = { s with pc := branchTarget d i } := by
  obtain ⟨h1, h2⟩ := Opcode.reads_of_branch hd
  unfold Sequential.execute branchTarget
  rw [hd, h.first h1, h.second h2, h.following_eq, h.pc]

theorem jump (hd : d.opcode.cls = .jump) :
    Sequential.execute base d s = { s.write d (following d) with pc := jumpTarget d i } := by
  unfold Sequential.execute jumpTarget
  rw [hd, h.following_eq, h.pc]
  rcases Opcode.reads_of_jump hd with ho | h1
  · simp [ho]
  · rw [h.first h1]

theorem dispatch {k : Slot} (hd : d.opcode.cls.slot? = some k) : Sequential.execute base d s =
    s.write d (k.evaluate d.opcode (operandA d i) (operandB d i)).1 := by
  obtain ⟨h1, h2⟩ := Opcode.reads_of_slot hd
  have hv : (k.evaluate d.opcode (operandA d i) (operandB d i)).1 =
      (k.evaluate d.opcode (s.read d.source1) (s.read d.source2)).1 := by
    rw [h.first h1]
    rcases h2 with h2 | h2
    · rw [h.second h2]
    · exact congrArg (·.1) (h2 _ _ _)
  rw [hv]
  unfold Sequential.execute
  cases hc : d.opcode.cls <;> rw [hc] at hd <;> cases hd <;> rfl

theorem fence (hd : d.opcode.cls = .fence) :
    Sequential.execute base d s = { s with pc := following d } := by
  unfold Sequential.execute
  rw [hd, h.following_eq]

theorem address_eq (hd : d.opcode.cls = .load ∨ d.opcode.cls = .store) :
    memoryAddress d i = s.address d := by
  have h1 : d.opcode.traits.readsRs1 = true := by
    rcases hd with hd | hd
    · exact Opcode.reads_of_load hd
    · exact (Opcode.reads_of_store hd).1
  rw [memoryAddress, h.first h1, Sequential.State.address]

section

variable {n : Nat} (hoff : s.ram.offset? base (s.address d).alignDown = some n)
  (hcov : s.ram.covers n 8 = true)
  (hn : n + Word.lane (s.address d) = (s.address d).toNat - base.toNat) (tag : Tag)
include hoff hcov hn

theorem load (hd : d.opcode.cls = .load)
    (hle : Word.lane (s.address d) + d.opcode.traits.size.bytes ≤ 8) :
    (Sequential.execute base d s).pc = following d ∧
      ((Sequential.execute base d s).registers, (Sequential.execute base d s).ram) =
        (QueueEntry.ofMemoryOp (memoryOp d i tag)).apply base (s.registers, s.ram) := by
  generalize he : QueueEntry.ofMemoryOp (memoryOp d i tag) = e
  have hst : (d.opcode.cls == .store) = false := by rw [hd]; rfl
  have hes : e.store = false := by rw [← he]; exact hst
  have htarget : e.target = d.target := by
    rw [← he]
    show (if (d.opcode.cls == .store) = true then (0 : RegIndex) else d.target) = d.target
    rw [hst]
    rfl
  have haddr : e.addr = s.address d := by rw [← he]; exact h.address_eq (.inl hd)
  have hpeek : s.ram.peekAt base e.addr = some (BitVec.ofNat 64 (s.ram.number n 8)) := by
    rw [haddr, Ram.peekAt, hoff, Option.bind_some, Ram.read?, if_pos hcov]
  have hval : e.loaded (BitVec.ofNat 64 (s.ram.number n 8)) =
      loadBytes s.ram ((s.address d).toNat - base.toNat) d.opcode.traits.size
        d.opcode.traits.signExtends := by
    rw [← hn, ← Lanes.extract_number n _ hle, ← haddr, ← he]
    rfl
  have hx : Sequential.execute base d s = s.write d (loadBytes s.ram
      ((s.address d).toNat - base.toNat) d.opcode.traits.size d.opcode.traits.signExtends) := by
    unfold Sequential.execute
    rw [hd]
  rw [hx, QueueEntry.apply, hes, hpeek, htarget, ← hval]
  exact ⟨h.following_eq.symm, rfl⟩

theorem store (hd : d.opcode.cls = .store)
    (ha : (s.address d).toNat % d.opcode.traits.size.bytes = 0) :
    (Sequential.execute base d s).pc = following d ∧
      ((Sequential.execute base d s).registers, (Sequential.execute base d s).ram) =
        (QueueEntry.ofMemoryOp (memoryOp d i tag)).apply base (s.registers, s.ram) := by
  generalize he : QueueEntry.ofMemoryOp (memoryOp d i tag) = e
  have hes : e.store = true := by
    rw [← he]
    show (d.opcode.cls == .store) = true
    rw [hd]
    rfl
  have haddr : e.addr = s.address d := by rw [← he]; exact h.address_eq (.inr hd)
  have hdata : e.data = Lanes.replicate (s.read d.source2) d.opcode.traits.size := by
    rw [← he, ← h.second (Opcode.reads_of_store hd).2]
    rfl
  have hstrobes : e.strobes = Lanes.strobes (s.address d) d.opcode.traits.size := by
    rw [← he, ← h.address_eq (.inr hd)]
    rfl
  have hx : Sequential.execute base d s = { s with
      pc := s.pc + d.length
      ram := s.ram.setBytes ((s.address d).toNat - base.toNat)
        (bytesOf (s.read d.source2) d.opcode.traits.size) } := by
    unfold Sequential.execute
    rw [hd]
  rw [hx, QueueEntry.apply, hes, if_pos rfl, hdata, hstrobes, haddr, Ram.storeAt, hoff,
    Option.bind_some, Lanes.write_lanes _ hcov ha, hn]
  exact ⟨h.following_eq.symm, rfl⟩

end

/-- A load or store in memory is handed over as an operation with the same effect. -/
theorem memory (hd : d.opcode.cls = .load ∨ d.opcode.cls = .store) (hp : Sequential.Proper base d s)
    (hb : base.toNat % 8 = 0) (hm : s.ram.size % 8 = 0) (tag : Tag) :
    let e := QueueEntry.ofMemoryOp (memoryOp d i tag)
    (s.ram.peekAt base e.addr).isSome = true ∧
      (Sequential.execute base d s).pc = following d ∧
      ((Sequential.execute base d s).registers, (Sequential.execute base d s).ram) =
        e.apply base (s.registers, s.ram) := by
  intro e
  obtain ⟨ha, hlo, hhi⟩ := hp (by rcases hd with hd | hd <;> rw [hd] <;> rfl)
  obtain ⟨n, hoff, hcov, hn, hle⟩ := Ram.offset?_alignDown hb hm ha hlo hhi
  refine ⟨?_, ?_⟩
  · have haddr : e.addr = s.address d := h.address_eq hd
    rw [haddr, Ram.peekAt, hoff, Option.bind_some, Ram.read?, if_pos hcov]
    rfl
  · rcases hd with hd | hd
    · exact h.load hoff hcov hn tag hd hle
    · exact h.store hoff hcov hn tag hd ha

end Operands

end Execute

end RiscvPipeline
