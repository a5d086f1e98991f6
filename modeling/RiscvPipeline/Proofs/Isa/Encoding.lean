import Mathlib.Data.List.Pairwise
import RiscvPipeline.Isa.Fields
import RiscvPipeline.Isa.Opcode
import RiscvPipeline.Proofs.Words

/-!
# Instruction words

An instruction word is the base of its instruction with each operand in its place. The bits that the
encoding fixes (`Opcode.fixedMask`) stay as they are in the base (`Opcode.encode_and_fixedMask`),
and any two instructions differ in one that both fix (`Opcode.pairwise_apart`), so a word is of one
instruction only. In the other bits the fields find the operands again (`Opcode.carries_encode`).
-/

namespace RiscvPipeline

/-! ## Fields of a word that is put together -/

namespace Fields

theorem bits_or (v w : BitVec 32) (pos n : Nat) :
    bits (v ||| w) pos n = bits v pos n ||| bits w pos n :=
  BitVec.extractLsb'_or

theorem bits_and (v w : BitVec 32) (pos n : Nat) :
    bits (v &&& w) pos n = bits v pos n &&& bits w pos n :=
  BitVec.extractLsb'_and

theorem getLsbD_place {n : Nat} (v : BitVec n) (pos : Nat) {i : Nat} (hi : i < 32) :
    (Opcode.place v pos).getLsbD i = (decide (pos ≤ i) && v.getLsbD (i - pos)) := by
  rw [Opcode.place, BitVec.getLsbD_shiftLeft, BitVec.getLsbD_setWidth]
  by_cases h : i < pos
  · simp [h, Nat.not_le.2 h]
  · simp [hi, h, Nat.not_lt.1 h, show i - pos < 32 by omega]

theorem bits_place {n pos : Nat} (v : BitVec n) (h : pos + n ≤ 32) :
    bits (Opcode.place v pos) pos n = v := by
  apply BitVec.eq_of_getLsbD_eq
  intro i hi
  rw [bits_eq, BitVec.getLsbD_extractLsb', getLsbD_place v pos (by omega)]
  simp [hi, show pos + i - pos = i by omega]

theorem bits_place_of_disjoint {n pos k p : Nat} (v : BitVec n) (hk : p + k ≤ 32)
    (h : pos + n ≤ p ∨ p + k ≤ pos) : bits (Opcode.place v pos) p k = 0 := by
  apply BitVec.eq_of_getLsbD_eq
  intro i hi
  rw [bits_eq, BitVec.getLsbD_extractLsb', getLsbD_place v pos (by omega)]
  rcases h with h | h
  · simp [BitVec.getLsbD_of_ge v (p + i - pos) (by omega)]
  · simp [show ¬ pos ≤ p + i by omega]

/-- A mask without the bits of a place. -/
theorem place_and_of_bits {n pos : Nat} {m : BitVec 32} (v : BitVec n)
    (h : bits m pos n = 0) : Opcode.place v pos &&& m = 0 := by
  apply BitVec.eq_of_getLsbD_eq
  intro i hi
  rw [BitVec.getLsbD_and, getLsbD_place v pos hi]
  by_cases hp : pos ≤ i
  · by_cases hn : i - pos < n
    · have hbit : (bits m pos n).getLsbD (i - pos) = false := by rw [h]; simp
      rw [bits_eq, BitVec.getLsbD_extractLsb', Nat.add_sub_of_le hp] at hbit
      rw [decide_eq_true hn, Bool.true_and] at hbit
      rw [hbit, Bool.and_false]
      exact BitVec.getLsbD_zero.symm
    · simp [BitVec.getLsbD_of_ge v (i - pos) (by omega)]
  · simp [hp]

/-- The low bits of an immediate are those of its field. -/
theorem setWidth_immI (w : BitVec 32) {n : Nat} (h : n ≤ 12) :
    (immI w).setWidth n = bits w 20 n := by
  apply BitVec.eq_of_getLsbD_eq
  intro i hi
  simp only [immI, bits_eq, BitVec.getLsbD_setWidth, BitVec.getLsbD_signExtend,
    BitVec.getLsbD_extractLsb', hi, decide_true, Bool.true_and]
  simp [show i < 12 by omega, show i < 64 by omega]

end Fields

namespace Opcode

open Fields

variable (o : Opcode)

theorem mem_all : o ∈ all := by cases o <;> decide

/-! ## What the encoding fixes -/

/-- The bits that the encoding fixes: the major opcode, the function fields of the format, and of
the floating-point conversions the field that tells them apart. -/
def fixedMask : BitVec 32 :=
  if o.cls.isFixed then .allOnes 32
  else
    match o.traits.format, o.cls with
    | .r, _ => if o.traits.readsRs2 then 0xfe00707f else 0xfff0707f
    | .i, .shift => if o.traits.narrow then 0xfe00707f else 0xfc00707f
    | .i, _ | .s, _ | .sb, _ => 0x0000707f
    | .u, _ | .uj, _ => 0x0000007f

theorem base_and_fixedMask : o.traits.base &&& o.fixedMask = o.traits.base := by
  cases o <;> rfl

/-- Two instructions differ in a bit that both of them fix. -/
def Apart (o o' : Opcode) : Prop :=
  o.traits.base &&& o'.fixedMask ≠ o'.traits.base &&& o.fixedMask

instance : DecidableRel Apart := fun _ _ => inferInstanceAs (Decidable (_ ≠ _))

instance : Std.Symm Apart := ⟨fun _ _ h => h.symm⟩

theorem pairwise_apart : all.Pairwise Apart := by decide +kernel

variable {o}

theorem bits_base {pos n : Nat} (h : bits o.fixedMask pos n = 0) :
    bits o.traits.base pos n = 0 := by
  rw [← o.base_and_fixedMask, bits_and, h]
  exact BitVec.and_zero

theorem eq_of_base_and {o' : Opcode}
    (h : o.traits.base &&& o'.fixedMask = o'.traits.base &&& o.fixedMask) : o = o' := by
  by_contra hne
  exact pairwise_apart.forall o.mem_all o'.mem_all hne h

/-! ## What the encoding carries -/

/-- How many bits of an immediate there is room for beside the first source. -/
def immWidth (o : Opcode) : Nat :=
  match o.cls with
  | .shift => if o.traits.narrow then 5 else 6
  | _ => 12

theorem immWidth_of_shift (h : o.cls = .shift) :
    o.immWidth = if o.traits.narrow then 5 else 6 := by
  simp [immWidth, h]

theorem immWidth_of_ne (h : o.cls ≠ .shift) : o.immWidth = 12 := by
  unfold immWidth
  split
  · contradiction
  · rfl

theorem immWidth_le : o.immWidth ≤ 12 := by
  unfold immWidth
  split
  · split <;> decide
  · exact Nat.le_refl _

/-- The operands that an instruction has room for are found in the fields of a word. -/
structure Carries (o : Opcode) (w : BitVec 32) (rd rs1 rs2 : BitVec 8) (imm : Word) : Prop where
  rd : o.traits.format ≠ .s → o.traits.format ≠ .sb → (Fields.rd w).toNat = rd.toNat % 32
  rs1 : o.traits.format ≠ .u → o.traits.format ≠ .uj → (Fields.rs1 w).toNat = rs1.toNat % 32
  rs2 : o.traits.readsRs2 = true → (Fields.rs2 w).toNat = rs2.toNat % 32
  immI : o.traits.format = .i → o.cls ≠ .shift → Fields.immI w = imm.signExtendFrom 12
  csr : o.traits.format = .i → o.cls ≠ .shift → (Fields.csr w).toNat = imm.toNat % 4096
  amount : o.traits.format = .i → o.cls = .shift →
    let width := if o.traits.narrow then 5 else 6
    (Fields.immI w).toNat % 2 ^ width = imm.toNat % 2 ^ width
  immS : o.traits.format = .s → Fields.immS w = imm.signExtendFrom 12
  immB : o.traits.format = .sb → Fields.immB w = (imm &&& ~~~ 1#64).signExtendFrom 13
  immU : o.traits.format = .u → Fields.immU w = (imm &&& ~~~ 0xfff#64).signExtendFrom 32
  immJ : o.traits.format = .uj → Fields.immJ w = (imm &&& ~~~ 1#64).signExtendFrom 21

variable (rd rs1 rs2 : BitVec 8) (imm : Word)

theorem encode_of_isFixed (h : o.cls.isFixed = true) :
    o.encode rd rs1 rs2 imm = o.traits.base := by
  have h : o.traits.cls.isFixed = true := h
  simp [encode, h]

section

variable (hx : o.cls.isFixed = false)
include hx

theorem encode_of_r (hf : o.traits.format = .r) : o.encode rd rs1 rs2 imm = o.traits.base |||
    (place (rd.setWidth 5) 7 ||| place (rs1.setWidth 5) 15 |||
      if o.traits.readsRs2 then place (rs2.setWidth 5) 20 else 0) := by
  have hx : o.traits.cls.isFixed = false := hx
  simp [encode, hx, hf]

theorem encode_of_i (hf : o.traits.format = .i) :
    o.encode rd rs1 rs2 imm = o.traits.base |||
      (place (imm.setWidth o.immWidth) 20 ||| place (rs1.setWidth 5) 15 |||
        place (rd.setWidth 5) 7) := by
  have hx : o.traits.cls.isFixed = false := hx
  simp only [encode, hx, hf]
  rfl

theorem encode_of_s (hf : o.traits.format = .s) :
    o.encode rd rs1 rs2 imm = o.traits.base |||
      (place (imm.extractLsb' 5 7) 25 ||| place (rs2.setWidth 5) 20 |||
        place (rs1.setWidth 5) 15 ||| place (imm.extractLsb' 0 5) 7) := by
  have hx : o.traits.cls.isFixed = false := hx
  simp [encode, hx, hf]

theorem encode_of_sb (hf : o.traits.format = .sb) :
    o.encode rd rs1 rs2 imm = o.traits.base |||
      (place (imm.extractLsb' 12 1) 31 ||| place (imm.extractLsb' 5 6) 25 |||
        place (rs2.setWidth 5) 20 ||| place (rs1.setWidth 5) 15 |||
        place (imm.extractLsb' 1 4) 8 ||| place (imm.extractLsb' 11 1) 7) := by
  have hx : o.traits.cls.isFixed = false := hx
  simp [encode, hx, hf]

theorem encode_of_u (hf : o.traits.format = .u) :
    o.encode rd rs1 rs2 imm = o.traits.base |||
      (place (imm.extractLsb' 12 20) 12 ||| place (rd.setWidth 5) 7) := by
  have hx : o.traits.cls.isFixed = false := hx
  simp [encode, hx, hf]

theorem encode_of_uj (hf : o.traits.format = .uj) :
    o.encode rd rs1 rs2 imm = o.traits.base |||
      (place (imm.extractLsb' 20 1) 31 ||| place (imm.extractLsb' 1 10) 21 |||
        place (imm.extractLsb' 11 1) 20 ||| place (imm.extractLsb' 12 8) 12 |||
        place (rd.setWidth 5) 7) := by
  have hx : o.traits.cls.isFixed = false := hx
  simp [encode, hx, hf]

theorem fixedMask_of_r (hf : o.traits.format = .r) :
    o.fixedMask = if o.traits.readsRs2 then 0xfe00707f else 0xfff0707f := by
  simp [fixedMask, hx, hf]

theorem fixedMask_of_i (hf : o.traits.format = .i) :
    bits o.fixedMask 20 o.immWidth = 0 ∧ bits o.fixedMask 15 5 = 0 ∧ bits o.fixedMask 7 5 = 0 := by
  by_cases hs : o.cls = .shift
  · rw [immWidth_of_shift hs]
    simp only [fixedMask, hf, hs]
    cases o.traits.narrow <;> decide
  · rw [immWidth_of_ne hs]
    simp [fixedMask, hx, hf]
    decide

theorem fixedMask_of_s (hf : o.traits.format = .s ∨ o.traits.format = .sb) :
    o.fixedMask = 0x0000707f := by
  rcases hf with hf | hf <;> simp [fixedMask, hx, hf]

theorem fixedMask_of_u (hf : o.traits.format = .u ∨ o.traits.format = .uj) :
    o.fixedMask = 0x0000007f := by
  rcases hf with hf | hf <;> simp [fixedMask, hx, hf]

/-! ### The fields of each format -/

theorem bits_encode_of_r (hf : o.traits.format = .r) :
    let w := o.encode rd rs1 rs2 imm
    bits w 7 5 = rd.setWidth 5 ∧ bits w 15 5 = rs1.setWidth 5 ∧
      (o.traits.readsRs2 = true → bits w 20 5 = rs2.setWidth 5) := by
  have hm := fixedMask_of_r hx hf
  have h7 : bits o.traits.base 7 5 = 0 := bits_base (by rw [hm]; split <;> decide)
  have h15 : bits o.traits.base 15 5 = 0 := bits_base (by rw [hm]; split <;> decide)
  rw [encode_of_r rd rs1 rs2 imm hx hf]
  cases h2 : o.traits.readsRs2 with
  | false => simp (disch := omega) [bits_or, h7, h15, bits_place, bits_place_of_disjoint]
  | true =>
    have h20 : bits o.traits.base 20 5 = 0 := bits_base (by rw [hm, if_pos h2]; decide)
    simp (disch := omega) [bits_or, h7, h15, h20, bits_place, bits_place_of_disjoint]

theorem bits_encode_of_i (hf : o.traits.format = .i) :
    let w := o.encode rd rs1 rs2 imm
    bits w 20 o.immWidth = imm.setWidth o.immWidth ∧ bits w 15 5 = rs1.setWidth 5 ∧
      bits w 7 5 = rd.setWidth 5 := by
  obtain ⟨h20, h15, h7⟩ := fixedMask_of_i hx hf
  have hw := o.immWidth_le
  rw [encode_of_i rd rs1 rs2 imm hx hf]
  simp (disch := omega) [bits_or, bits_base h20, bits_base h15, bits_base h7, bits_place,
    bits_place_of_disjoint]

theorem bits_encode_of_s (hf : o.traits.format = .s) :
    let w := o.encode rd rs1 rs2 imm
    bits w 25 7 = imm.extractLsb' 5 7 ∧ bits w 20 5 = rs2.setWidth 5 ∧
      bits w 15 5 = rs1.setWidth 5 ∧ bits w 7 5 = imm.extractLsb' 0 5 := by
  have hm := fixedMask_of_s hx (.inl hf)
  have base {pos n : Nat} (h : bits 0x0000707f pos n = 0) : bits o.traits.base pos n = 0 :=
    bits_base (hm ▸ h)
  rw [encode_of_s rd rs1 rs2 imm hx hf]
  simp (disch := first | omega | decide) [bits_or, base, bits_place, bits_place_of_disjoint]

theorem bits_encode_of_sb (hf : o.traits.format = .sb) :
    let w := o.encode rd rs1 rs2 imm
    bits w 31 1 = imm.extractLsb' 12 1 ∧ bits w 25 6 = imm.extractLsb' 5 6 ∧
      bits w 20 5 = rs2.setWidth 5 ∧ bits w 15 5 = rs1.setWidth 5 ∧
      bits w 8 4 = imm.extractLsb' 1 4 ∧ bits w 7 1 = imm.extractLsb' 11 1 := by
  have hm := fixedMask_of_s hx (.inr hf)
  have base {pos n : Nat} (h : bits 0x0000707f pos n = 0) : bits o.traits.base pos n = 0 :=
    bits_base (hm ▸ h)
  rw [encode_of_sb rd rs1 rs2 imm hx hf]
  simp (disch := first | omega | decide) [bits_or, base, bits_place, bits_place_of_disjoint]

theorem bits_encode_of_u (hf : o.traits.format = .u) :
    let w := o.encode rd rs1 rs2 imm
    bits w 12 20 = imm.extractLsb' 12 20 ∧ bits w 7 5 = rd.setWidth 5 := by
  have hm := fixedMask_of_u hx (.inl hf)
  have base {pos n : Nat} (h : bits 0x0000007f pos n = 0) : bits o.traits.base pos n = 0 :=
    bits_base (hm ▸ h)
  rw [encode_of_u rd rs1 rs2 imm hx hf]
  simp (disch := first | omega | decide) [bits_or, base, bits_place, bits_place_of_disjoint]

theorem bits_encode_of_uj (hf : o.traits.format = .uj) :
    let w := o.encode rd rs1 rs2 imm
    bits w 31 1 = imm.extractLsb' 20 1 ∧ bits w 21 10 = imm.extractLsb' 1 10 ∧
      bits w 20 1 = imm.extractLsb' 11 1 ∧ bits w 12 8 = imm.extractLsb' 12 8 ∧
      bits w 7 5 = rd.setWidth 5 := by
  have hm := fixedMask_of_u hx (.inr hf)
  have base {pos n : Nat} (h : bits 0x0000007f pos n = 0) : bits o.traits.base pos n = 0 :=
    bits_base (hm ▸ h)
  rw [encode_of_uj rd rs1 rs2 imm hx hf]
  simp (disch := first | omega | decide) [bits_or, base, bits_place, bits_place_of_disjoint]

end

/-! ### The word as a whole -/

theorem encode_and_fixedMask :
    o.encode rd rs1 rs2 imm &&& o.fixedMask = o.traits.base := by
  cases hx : o.cls.isFixed with
  | true => rw [encode_of_isFixed rd rs1 rs2 imm hx, base_and_fixedMask]
  | false =>
    cases hf : o.traits.format with
    | r =>
      rw [encode_of_r rd rs1 rs2 imm hx hf, BitVec.and_or_distrib_right, base_and_fixedMask,
        fixedMask_of_r hx hf]
      cases o.traits.readsRs2 <;>
        simp (disch := decide) [BitVec.and_or_distrib_right, place_and_of_bits]
    | i =>
      obtain ⟨h20, h15, h7⟩ := fixedMask_of_i hx hf
      rw [encode_of_i rd rs1 rs2 imm hx hf, BitVec.and_or_distrib_right, base_and_fixedMask]
      simp [BitVec.and_or_distrib_right, place_and_of_bits, h20, h15, h7]
    | s =>
      rw [encode_of_s rd rs1 rs2 imm hx hf, BitVec.and_or_distrib_right, base_and_fixedMask,
        fixedMask_of_s hx (.inl hf)]
      simp (disch := decide) [BitVec.and_or_distrib_right, place_and_of_bits]
    | sb =>
      rw [encode_of_sb rd rs1 rs2 imm hx hf, BitVec.and_or_distrib_right, base_and_fixedMask,
        fixedMask_of_s hx (.inr hf)]
      simp (disch := decide) [BitVec.and_or_distrib_right, place_and_of_bits]
    | u =>
      rw [encode_of_u rd rs1 rs2 imm hx hf, BitVec.and_or_distrib_right, base_and_fixedMask,
        fixedMask_of_u hx (.inl hf)]
      simp (disch := decide) [BitVec.and_or_distrib_right, place_and_of_bits]
    | uj =>
      rw [encode_of_uj rd rs1 rs2 imm hx hf, BitVec.and_or_distrib_right, base_and_fixedMask,
        fixedMask_of_u hx (.inr hf)]
      simp (disch := decide) [BitVec.and_or_distrib_right, place_and_of_bits]

theorem encode_inj {o' : Opcode} {rd rs1 rs2 rd' rs1' rs2' : BitVec 8} {imm imm' : Word}
    (h : o.encode rd rs1 rs2 imm = o'.encode rd' rs1' rs2' imm') : o = o' := by
  apply eq_of_base_and
  calc o.traits.base &&& o'.fixedMask
      = o.encode rd rs1 rs2 imm &&& o.fixedMask &&& o'.fixedMask := by rw [encode_and_fixedMask]
    _ = o'.encode rd' rs1' rs2' imm' &&& o'.fixedMask &&& o.fixedMask := by
      rw [h, BitVec.and_assoc, BitVec.and_comm o.fixedMask, ← BitVec.and_assoc]
    _ = o'.traits.base &&& o.fixedMask := by rw [encode_and_fixedMask]

theorem readsRs2_format (h : o.traits.readsRs2 = true) :
    o.traits.format = .r ∨ o.traits.format = .s ∨ o.traits.format = .sb := by
  cases o <;> first | exact .inl rfl | exact .inr (.inl rfl) | exact .inr (.inr rfl) | cases h

theorem carries_encode (hx : o.cls.isFixed = false) :
    o.Carries (o.encode rd rs1 rs2 imm) rd rs1 rs2 imm where
  rd hs hb := by
    rw [Fields.rd]
    cases hf : o.traits.format with
    | r => simp [(bits_encode_of_r rd rs1 rs2 imm hx hf).1]
    | i => simp [(bits_encode_of_i rd rs1 rs2 imm hx hf).2.2]
    | s => exact absurd hf hs
    | sb => exact absurd hf hb
    | u => simp [(bits_encode_of_u rd rs1 rs2 imm hx hf).2]
    | uj => simp [(bits_encode_of_uj rd rs1 rs2 imm hx hf).2.2.2.2]
  rs1 hu hj := by
    rw [Fields.rs1]
    cases hf : o.traits.format with
    | r => simp [(bits_encode_of_r rd rs1 rs2 imm hx hf).2.1]
    | i => simp [(bits_encode_of_i rd rs1 rs2 imm hx hf).2.1]
    | s => simp [(bits_encode_of_s rd rs1 rs2 imm hx hf).2.2.1]
    | sb => simp [(bits_encode_of_sb rd rs1 rs2 imm hx hf).2.2.2.1]
    | u => exact absurd hf hu
    | uj => exact absurd hf hj
  rs2 h2 := by
    rw [Fields.rs2]
    rcases readsRs2_format h2 with hf | hf | hf
    · simp [(bits_encode_of_r rd rs1 rs2 imm hx hf).2.2 h2]
    · simp [(bits_encode_of_s rd rs1 rs2 imm hx hf).2.1]
    · simp [(bits_encode_of_sb rd rs1 rs2 imm hx hf).2.2.1]
  immI hf hs := by
    have h := (bits_encode_of_i rd rs1 rs2 imm hx hf).1
    rw [immWidth_of_ne hs] at h
    rw [Fields.immI, h, imm.signExtendFrom_eq (by decide) (by decide)]
  csr hf hs := by
    have h := (bits_encode_of_i rd rs1 rs2 imm hx hf).1
    rw [immWidth_of_ne hs] at h
    simp [Fields.csr, h]
  amount hf hs := by
    have h := (bits_encode_of_i rd rs1 rs2 imm hx hf).1
    have hw := o.immWidth_le
    rw [← setWidth_immI _ hw, immWidth_of_shift hs] at h
    simpa using congrArg BitVec.toNat h
  immS hf := by
    obtain ⟨h25, -, -, h7⟩ := bits_encode_of_s rd rs1 rs2 imm hx hf
    rw [Fields.immS, h25, h7, imm.signExtendFrom_eq (by decide) (by decide),
      Word.extractLsb'_append_self imm 0 5 7, BitVec.setWidth_eq_extractLsb' (by decide)]
  immB hf := by
    obtain ⟨h31, h25, -, -, h8, h7⟩ := bits_encode_of_sb rd rs1 rs2 imm hx hf
    rw [Fields.immB, h31, h25, h8, h7, Word.signExtendFrom_eq _ (by decide) (by decide),
      Word.extractLsb'_append_self imm 11 1 1, Word.extractLsb'_append_self imm 5 6 2,
      Word.extractLsb'_append_self imm 1 4 8,
      Word.extractLsb'_append_zero imm 1 12 (by decide)]
    rfl
  immU hf := by
    obtain ⟨h12, -⟩ := bits_encode_of_u rd rs1 rs2 imm hx hf
    rw [Fields.immU, h12, Word.signExtendFrom_eq _ (by decide) (by decide),
      Word.extractLsb'_append_zero imm 12 20 (by decide)]
    rfl
  immJ hf := by
    obtain ⟨h31, h21, h20, h12, -⟩ := bits_encode_of_uj rd rs1 rs2 imm hx hf
    rw [Fields.immJ, h31, h21, h20, h12, Word.signExtendFrom_eq _ (by decide) (by decide),
      Word.extractLsb'_append_self imm 12 8 1, Word.extractLsb'_append_self imm 11 1 9,
      Word.extractLsb'_append_self imm 1 10 10,
      Word.extractLsb'_append_zero imm 1 20 (by decide)]
    rfl

/-- The word keeps what the encoding fixes, carries every operand that there is room for, and is of
no other instruction. -/
theorem encode_faithful :
    o.encode rd rs1 rs2 imm &&& o.fixedMask = o.traits.base ∧
    (o.cls.isFixed = false → o.Carries (o.encode rd rs1 rs2 imm) rd rs1 rs2 imm) ∧
    ∀ (o' : Opcode) (rd' rs1' rs2' : BitVec 8) (imm' : Word),
      o.encode rd rs1 rs2 imm = o'.encode rd' rs1' rs2' imm' → o = o' :=
  ⟨encode_and_fixedMask rd rs1 rs2 imm, carries_encode rd rs1 rs2 imm,
    fun _ _ _ _ _ h => encode_inj h⟩

/-- A branch back by four. Of the number of the first source the upper bits are lost. -/
theorem encode_faithful_beq :
    let w := beq.encode 9 33 2 (-4)
    w = 0xfe208ee3 ∧ w &&& 0x707f = 0x63 ∧ Fields.rs1 w = 1 ∧ Fields.rs2 w = 2 ∧
      Fields.immB w = -4 ∧ ∀ rd rs1 rs2 imm, w ≠ bne.encode rd rs1 rs2 imm := by
  obtain ⟨fixed, carries, only⟩ := encode_faithful (o := beq) 9 33 2 (-4)
  have c := carries rfl
  refine ⟨rfl, fixed, BitVec.eq_of_toNat_eq (c.rs1 nofun nofun), BitVec.eq_of_toNat_eq (c.rs2 rfl),
    (c.immB rfl).trans (by decide), fun rd rs1 rs2 imm h => ?_⟩
  exact absurd (only bne rd rs1 rs2 imm h) nofun

end Opcode

end RiscvPipeline
