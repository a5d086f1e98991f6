import RiscvPipeline.Isa.Decoded
import RiscvPipeline.Registers

/-! Reads and writes of the register file. -/

namespace RiscvPipeline

namespace Registers

variable (x : Registers) {r t : RegIndex}

@[simp] theorem write_zero (v : Word) : x.write 0 v = x := rfl

theorem read_write_other (h : r.toNat % 64 ≠ t.toNat % 64) (v : Word) :
    (x.write t v).read r = x.read r := by
  unfold write read
  split
  · rfl
  · rw [Vector.getElem?_setIfInBounds, if_neg h.symm]

theorem read_write_self (h : t.toNat % 64 ≠ 0) (v : Word) : (x.write t v).read t = v := by
  unfold write read
  rw [if_neg h, Vector.getElem?_setIfInBounds, if_pos rfl, if_pos (Nat.mod_lt _ (by decide))]
  rfl

theorem read_write_zero (v : Word) : (x.write t v).read 0 = x.read 0 := by
  by_cases h : t.toNat % 64 = 0
  · rw [write, if_pos h]
  · exact x.read_write_other (fun h' => h h'.symm) v

/-- Writes to different registers can be exchanged. -/
theorem write_comm (h : r.toNat % 64 ≠ t.toNat % 64) (v u : Word) :
    (x.write t v).write r u = (x.write r u).write t v := by
  unfold write
  by_cases ht : t.toNat % 64 = 0
  · simp only [ht, if_true]
  by_cases hr : r.toNat % 64 = 0
  · simp only [hr, if_true]
  · simp only [ht, hr, if_false]
    rw [Vector.setIfInBound_comm _ _ h]

end Registers

namespace DecodedInstruction

variable (d : DecodedInstruction)

theorem inBank_lt (b : Bool) (r : BitVec 5) : (inBank b r).toNat < 64 := by
  have hr : (r.setWidth 8).toNat < 32 := by
    rw [BitVec.toNat_setWidth]
    exact Nat.lt_of_le_of_lt (Nat.mod_le _ _) r.isLt
  unfold inBank
  split
  · rw [BitVec.toNat_or]
    exact Nat.or_lt_two_pow (n := 6) (by decide) (Nat.lt_trans hr (by decide))
  · exact Nat.lt_trans hr (by decide)

theorem source1_lt : d.source1.toNat < 64 := inBank_lt _ _

theorem source2_lt : d.source2.toNat < 64 := inBank_lt _ _

theorem target_lt : d.target.toNat < 64 := by
  unfold target
  split
  · exact inBank_lt _ _
  · decide

end DecodedInstruction

/-- Different registers of the file. -/
theorem RegIndex.mod_ne {r t : RegIndex} (hr : r.toNat < 64) (ht : t.toNat < 64) (h : r ≠ t) :
    r.toNat % 64 ≠ t.toNat % 64 := by
  rw [Nat.mod_eq_of_lt hr, Nat.mod_eq_of_lt ht]
  exact fun h' => h (BitVec.eq_of_toNat_eq h')

namespace Registers

end Registers

end RiscvPipeline
