import RiscvPipeline.Proofs.Memory.Bytes

/-!
# Memory, doubleword by doubleword

From outside, memory is read and written in aligned doublewords. One that is written is what is read
there afterwards, and the others stay (`DataMemory.Aligned.poke?`). Before the first write all of
them are zero.
-/

namespace RiscvPipeline

namespace DataMemory

variable {d : DataMemory}

theorem Aligned.contains_congr (h : d.Aligned) {a b : Word} (hab : b.alignDown = a.alignDown) :
    d.Contains b ↔ d.Contains a := by
  have hb := h.base
  have hs := h.size
  have hdown := congrArg BitVec.toNat hab
  rw [Word.toNat_alignDown, Word.toNat_alignDown] at hdown
  unfold Contains
  omega

/-- Different doublewords of the region do not overlap. -/
theorem Aligned.apart (h : d.Aligned) {a b : Word} (ha : d.Contains a) (hb : d.Contains b)
    (hab : b.alignDown ≠ a.alignDown) :
    b.alignDown.toNat - d.base.toNat + 8 ≤ a.alignDown.toNat - d.base.toNat ∨
      a.alignDown.toNat - d.base.toNat + 8 ≤ b.alignDown.toNat - d.base.toNat := by
  have hbase := h.base
  have hne : b.alignDown.toNat ≠ a.alignDown.toNat := fun he => hab (BitVec.eq_of_toNat_eq he)
  have hda := a.toNat_alignDown
  have hdb := b.toNat_alignDown
  unfold Contains at ha hb
  omega

/-- A doubleword that is written inside the region is what is read there afterwards. The others
stay. -/
theorem Aligned.poke? (h : d.Aligned) {a : Word} (ha : d.Contains a) (v : Word) :
    ∃ r, d.poke? a v = some { d with ram := r } ∧ r.size = d.ram.size ∧
      ∀ b, peek? { d with ram := r } b =
        if b.alignDown = a.alignDown then some v else d.peek? b := by
  obtain ⟨r, hr⟩ := Ram.write?_isSome_of_covers (h.covers ha) v (BitVec.allOnes 8)
  have hsize := Ram.size_write? hr
  have hal : Aligned { d with ram := r } := ⟨h.base, hsize ▸ h.size⟩
  have hin (b : Word) : Contains { d with ram := r } b ↔ d.Contains b := by
    unfold Contains
    rw [hsize]
  have hstrobe {i : Nat} (hi : i < 8) : (BitVec.allOnes 8).getLsbD i = true := by
    rw [BitVec.getLsbD_allOnes, decide_eq_true hi]
  refine ⟨r, ?_, hsize, fun b => ?_⟩
  · rw [DataMemory.poke?, store?, h.offset?_alignDown, if_pos ha, Option.bind_some, hr]
    rfl
  by_cases hab : b.alignDown = a.alignDown
  · have hb : d.Contains b := (h.contains_congr hab).2 ha
    have hlanes : ∀ i < 8, r.byte (a.alignDown.toNat - d.base.toNat + i) = Ram.lane v i := by
      intro i hi
      rw [Ram.byte_write? hr, Nat.add_sub_cancel_left, if_pos ⟨by omega, by omega, hstrobe hi⟩]
    rw [if_pos hab, hal.peek?_eq ((hin b).2 hb), hab, Ram.number_eq_of_lanes hlanes,
      show (256 : Nat) ^ 8 = 2 ^ 64 from rfl, Nat.mod_eq_of_lt v.isLt, BitVec.ofNat_toNat,
      BitVec.setWidth_eq]
  · rw [if_neg hab]
    by_cases hb : d.Contains b
    · have hother : ∀ i < 8, r.byte (b.alignDown.toNat - d.base.toNat + i) =
          d.ram.byte (b.alignDown.toNat - d.base.toNat + i) := by
        intro i hi
        have hne := h.apart ha hb hab
        rw [Ram.byte_write? hr, if_neg (by omega)]
      rw [hal.peek?_eq ((hin b).2 hb), h.peek?_eq hb, Ram.number_congr hother]
    · rw [hal.peek?_eq_none (mt (hin b).1 hb), h.peek?_eq_none hb]

end DataMemory

/-- A doubleword of the region lies at the address. -/
def MemoryConfig.HasDoubleword (c : MemoryConfig) (a : Word) : Prop :=
  a.toNat % 8 = 0 ∧ c.base.toNat ≤ a.toNat ∧ a.toNat + 8 ≤ c.base.toNat + c.size

instance (c : MemoryConfig) (a : Word) : Decidable (c.HasDoubleword a) :=
  inferInstanceAs (Decidable (_ ∧ _ ∧ _))

end RiscvPipeline
