import RiscvPipeline.Datapath.Fpu
import RiscvPipeline.Proofs.Double.Value

/-!
# Conversion to an integer

A number goes to its integer part, taken into the range of the instruction.
-/

namespace RiscvPipeline

/-- The integer part of a rational number, toward zero. -/
def truncate (q : ℚ) : ℤ := if 0 ≤ q then ⌊q⌋ else ⌈q⌉

namespace Double

variable {x : Double}

theorem trunc_eq (x : Double) : x.trunc = truncate x.value := by
  have hfloor (n : ℕ) : ⌊(n : ℚ) / one⌋ = (n : ℤ).tdiv one := by
    rw [Int.tdiv_eq_ediv_of_nonneg (Int.natCast_nonneg n)]
    exact Rat.floor_natCast_div_natCast n one
  rw [trunc, truncate, value_eq]
  rcases Int.eq_nat_or_neg x.units with ⟨n, hn | hn⟩
  · have h0 : (0 : ℚ) ≤ n / one := by positivity
    rw [hn, Int.cast_natCast, if_pos h0, hfloor]
  · rw [hn, Int.cast_neg, Int.cast_natCast, neg_div, Int.neg_tdiv, ← hfloor]
    split
    next h0 =>
      have hz : (n : ℚ) / one = 0 := le_antisymm (by linarith) (by positivity)
      rw [hz]
      simp
    next => rw [Int.ceil_neg]

theorem isIntegral_iff (x : Double) : x.isIntegral = true ↔ (truncate x.value : ℚ) = x.value := by
  have hdiv : x.isIntegral = true ↔ (one : ℤ) ∣ x.units := by
    rw [isIntegral, beq_iff_eq, ← natAbs_units, Int.natCast_dvd, Nat.dvd_iff_mod_eq_zero]
  have hmul : (truncate x.value : ℚ) = x.value ↔ x.units.tdiv one * one = x.units := by
    rw [← trunc_eq, trunc, value_eq, eq_div_iff cast_one_pos.ne']
    norm_cast
  rw [hdiv, hmul]
  exact ⟨Int.tdiv_mul_cancel, fun h => h ▸ Int.dvd_mul_left _ _⟩

/-- From 2^52 on only one pattern has a given power of two as its integer part. -/
theorem eq_ofBits_of_trunc {k : ℕ} (hk : 52 ≤ k) (hle : k ≤ 1023) (h : x.trunc = 2 ^ k) :
    x = ofBits false ((1023 + k) * 2 ^ 52) := by
  obtain ⟨j, hj, hone⟩ := exists_one_eq
  have hpow : (0 : ℤ) < 2 ^ k := by positivity
  have hneg : x.negative = false := by
    rw [← Bool.not_eq_true]
    intro hn
    rw [trunc, units, if_pos hn, Int.neg_tdiv,
      Int.tdiv_eq_ediv_of_nonneg (Int.natCast_nonneg _)] at h
    have := Int.ediv_nonneg (Int.natCast_nonneg x.magnitude) (Int.natCast_nonneg one)
    omega
  have hdiv : x.magnitude / 2 ^ j = 2 ^ k := by
    rw [trunc, units, hneg, if_neg Bool.false_ne_true,
      Int.tdiv_eq_ediv_of_nonneg (Int.natCast_nonneg _), hone] at h
    exact_mod_cast h
  -- numbers lie `2 ^ e` units apart here, no less than the unit of the integer part
  obtain ⟨e, he⟩ : ∃ e, k + j = 52 + e := ⟨k + j - 52, by omega⟩
  have hlow : 2 ^ (52 + e) ≤ x.magnitude := by
    rw [← he, Nat.pow_add, ← hdiv]
    exact Nat.div_mul_le_self _ _
  have hhigh : x.magnitude < 2 ^ (52 + e) + 2 ^ e := by
    have hlt := Nat.lt_mul_div_succ x.magnitude (Nat.two_pow_pos j)
    rw [hdiv, Nat.mul_succ, ← Nat.pow_add, Nat.add_comm j, he] at hlt
    exact hlt.trans_le (Nat.add_le_add_left (Nat.pow_le_pow_right two_pos (by omega)) _)
  obtain ⟨hexp, hfrac⟩ := fields_of_magnitude hlow hhigh
  obtain ⟨hs, he', hf'⟩ := fields_ofBits (n := (1023 + k) * 2 ^ 52) (by omega) false
  refine eq_of_fields (hneg.trans hs.symm) ?_ ?_
  · rw [he', hexp, Nat.mul_div_cancel _ (Nat.two_pow_pos 52)]
    omega
  · rw [hf', hfrac, Nat.mul_mod_left]

end Double

/-- The integers that a conversion can give, and the width of its result. -/
structure IntegerRange where
  width : ℕ
  least : ℤ
  greatest : ℤ

namespace IntegerRange

/-- The range of two's complement. -/
def signed (n : ℕ) : IntegerRange := ⟨n, -2 ^ (n - 1), 2 ^ (n - 1) - 1⟩

/-- The range without a sign. -/
def unsigned (n : ℕ) : IntegerRange := ⟨n, 0, 2 ^ n - 1⟩

variable (g : IntegerRange) {x : Double}

def Holds (n : ℤ) : Prop := g.least ≤ n ∧ n ≤ g.greatest

/-- The integer of the range that is nearest to `n`. -/
def clamp (n : ℤ) : ℤ := max g.least (min n g.greatest)

/-- The integer that a pattern goes to. -/
def convert (x : Double) : ℤ :=
  if x.isNaN then g.greatest
  else if x.isInfinite then if x.negative then g.least else g.greatest
  else g.clamp (truncate x.value)

/-- The pattern is a number whose integer part the range holds. -/
def Fits (x : Double) : Prop := x.isFinite = true ∧ g.Holds (truncate x.value)

/-- The upper end as the unit compares with it, rounded to a double. -/
def roundedGreatest : ℤ := (Double.ofInt g.greatest).trunc

theorem trunc_ofInt_greatest : (Double.ofInt g.greatest).trunc = g.roundedGreatest := rfl

/-- The integer part is above the range, but not above its rounded upper end. -/
def Slips (x : Double) : Prop := g.greatest < x.trunc ∧ x.trunc ≤ g.roundedGreatest

variable {g}

theorem toInteger_fst (hle : g.least ≤ g.greatest) (hr : g.greatest ≤ g.roundedGreatest) :
    (Fpu.toInteger g.least g.greatest x).1 = g.convert x := by
  rw [Fpu.toInteger, convert, clamp, ← Double.trunc_eq, g.trunc_ofInt_greatest]
  split
  · rfl
  split
  · rfl
  split
  next => omega
  next => split <;> omega

/-- The tests of the unit let the pattern through. -/
def Passes (g : IntegerRange) (x : Double) : Prop :=
  x.isFinite = true ∧ g.least ≤ x.trunc ∧ x.trunc ≤ g.roundedGreatest

theorem passes_iff (hle : g.least ≤ g.greatest) (hr : g.greatest ≤ g.roundedGreatest) :
    g.Passes x ↔ g.Fits x ∨ x.isFinite = true ∧ g.Slips x := by
  rw [Passes, Fits, Holds, Slips, ← Double.trunc_eq, ← and_or_left]
  refine and_congr_right fun _ => ?_
  omega

theorem toInteger_snd_of_passes (h : g.Passes x) :
    (Fpu.toInteger g.least g.greatest x).2 = .when (!x.isIntegral) .nx := by
  obtain ⟨hf, hlo, hhi⟩ := h
  rw [Fpu.toInteger, g.trunc_ofInt_greatest, Double.isNaN_of_isFinite hf,
    Double.isInfinite_of_isFinite hf, if_neg Bool.false_ne_true, if_neg Bool.false_ne_true,
    if_neg (by omega), if_neg (by omega)]

theorem toInteger_snd_of_not_passes (h : ¬ g.Passes x) :
    (Fpu.toInteger g.least g.greatest x).2 = .nv := by
  rw [Fpu.toInteger, g.trunc_ofInt_greatest]
  split
  · rfl
  split
  · rfl
  split
  · rfl
  split
  · rfl
  next hn hi hlo hhi =>
    rw [Bool.not_eq_true] at hn hi
    exact absurd ⟨Double.isFinite_of_not hn hi, by omega, by omega⟩ h

theorem not_slips (hr : g.roundedGreatest ≤ g.greatest) : ¬ g.Slips x := by
  rintro ⟨hlt, hle⟩
  omega

/-- If the upper end is rounded to the power of two after it, one pattern slips through. -/
theorem eq_ofBits_of_slips {k : ℕ} (hk : 52 ≤ k) (hk' : k ≤ 1023) (hg : g.greatest = 2 ^ k - 1)
    (hr : g.roundedGreatest ≤ 2 ^ k) (h : g.Slips x) :
    x = Double.ofBits false ((1023 + k) * 2 ^ 52) := by
  obtain ⟨hlt, hle⟩ := h
  exact Double.eq_ofBits_of_trunc hk hk' (by omega)

end IntegerRange

/-- The range of the integers that an instruction converts to. -/
def Opcode.integerRange? : Opcode → Option IntegerRange
  | .fcvtWD => some (.signed 32)
  | .fcvtWuD => some (.unsigned 32)
  | .fcvtLD => some (.signed 64)
  | .fcvtLuD => some (.unsigned 64)
  | _ => none

namespace Fpu

variable {o : Opcode} {g : IntegerRange} {a b : Word}

/-- The first power of two above the range, where the range is one of 64 bits. It saturates, but
the upper end of the range is no double and is rounded to it. -/
def Unreported (o : Opcode) (a : Word) : Prop :=
  (o = .fcvtLD ∧ a = 0x43e0000000000000) ∨ (o = .fcvtLuD ∧ a = 0x43f0000000000000)

theorem bounds_of_integerRange (ho : o.integerRange? = some g) :
    g.least ≤ g.greatest ∧ g.greatest ≤ g.roundedGreatest := by
  cases o <;> cases ho <;> decide +kernel

theorem unreported_of_slips (ho : o.integerRange? = some g) (h : g.Slips ⟨a⟩) :
    Unreported o a := by
  cases o <;> cases ho
  case fcvtWD | fcvtWuD =>
    refine absurd h (IntegerRange.not_slips ?_)
    decide +kernel
  case fcvtLD =>
    have hx : (Double.mk a) = .ofBits false ((1023 + 63) * 2 ^ 52) :=
      IntegerRange.eq_ofBits_of_slips (by decide) (by decide) rfl (by decide +kernel) h
    exact .inl ⟨rfl, congrArg Double.bits hx⟩
  case fcvtLuD =>
    have hx : (Double.mk a) = .ofBits false ((1023 + 64) * 2 ^ 52) :=
      IntegerRange.eq_ofBits_of_slips (by decide) (by decide) rfl (by decide +kernel) h
    exact .inr ⟨rfl, congrArg Double.bits hx⟩

theorem slips_of_unreported (ho : o.integerRange? = some g) (h : Unreported o a) :
    (Double.mk a).isFinite = true ∧ (Double.mk a).isIntegral = true ∧ g.Slips ⟨a⟩ := by
  rcases h with ⟨rfl, rfl⟩ | ⟨rfl, rfl⟩ <;> cases ho
  all_goals exact ⟨by decide +kernel, by decide +kernel, by decide +kernel, by decide +kernel⟩

theorem compute_of_integerRange (ho : o.integerRange? = some g) (a b : Word) :
    compute o a b = ((BitVec.ofInt g.width (toInteger g.least g.greatest ⟨a⟩).1).signExtend 64,
      (toInteger g.least g.greatest ⟨a⟩).2) := by
  cases o <;> cases ho
  case fcvtWD | fcvtWuD => rfl
  case fcvtLD | fcvtLuD =>
    exact Prod.ext (BitVec.signExtend_eq _).symm rfl

theorem isNaN_of_signals (ho : o.integerRange? = some g) (h : signals o a b = true) :
    (Double.mk a).isNaN = true := by
  have hs : signals o a b = (Double.mk a).isSignaling := by
    cases o <;> cases ho <;> exact Bool.or_false _
  rw [hs, Double.isSignaling, Bool.and_eq_true] at h
  exact h.1

theorem execute_snd_of_passes (ho : o.integerRange? = some g) (h : g.Passes ⟨a⟩) :
    (execute o a b).2 = .when (!(Double.mk a).isIntegral) .nx := by
  have hs : signals o a b = false := by
    rw [← Bool.not_eq_true]
    intro hs
    exact Bool.false_ne_true ((Double.isNaN_of_isFinite h.1).symm.trans (isNaN_of_signals ho hs))
  rw [← IntegerRange.toInteger_snd_of_passes h, execute, compute_of_integerRange ho, hs]
  exact FpFlags.none_or _

theorem execute_snd_of_not_passes (ho : o.integerRange? = some g) (h : ¬ g.Passes ⟨a⟩) :
    (execute o a b).2 = .nv := by
  rw [execute, compute_of_integerRange ho]
  dsimp only
  rw [IntegerRange.toInteger_snd_of_not_passes h]
  cases signals o a b <;> rfl

/-- A conversion saturates into its range, and is invalid where it saturates and inexact where it
drops a fraction, except that one power of two saturates unreported. -/
theorem conversion_saturates (ho : o.integerRange? = some g) (a b : Word) :
    let x : Double := ⟨a⟩
    let r := execute o a b
    r.1 = (BitVec.ofInt g.width (g.convert x)).signExtend 64 ∧
      (r.2.contains .nv = true ↔ ¬ g.Fits x ∧ ¬ Unreported o a) ∧
      (r.2.contains .nx = true ↔ g.Fits x ∧ (truncate x.value : ℚ) ≠ x.value) ∧
      r.2.contains .dz = false ∧ r.2.contains .of = false ∧ r.2.contains .uf = false := by
  intro x r
  obtain ⟨hle, hr⟩ := bounds_of_integerRange ho
  have hp := IntegerRange.passes_iff (x := x) hle hr
  constructor
  · change (execute o a b).1 = _
    rw [execute, compute_of_integerRange ho, IntegerRange.toInteger_fst hle hr]
  by_cases h : g.Passes x
  · have hr2 : r.2 = .when (!x.isIntegral) .nx := execute_snd_of_passes ho h
    have hslip (hn : ¬ g.Fits x) : Unreported o a :=
      unreported_of_slips ho ((hp.1 h).resolve_left hn).2
    rcases hi : x.isIntegral with _ | _
    · have hfit : g.Fits x := by
        by_contra hn
        obtain ⟨-, hint, -⟩ := slips_of_unreported ho (hslip hn)
        exact Bool.false_ne_true (hi.symm.trans hint)
      have hfrac : (truncate x.value : ℚ) ≠ x.value := by
        rw [ne_eq, ← Double.isIntegral_iff, hi]
        exact Bool.false_ne_true
      rw [hi] at hr2
      rw [hr2]
      exact ⟨iff_of_false (by decide) fun hn => hn.1 hfit, iff_of_true rfl ⟨hfit, hfrac⟩,
        rfl, rfl, rfl⟩
    · rw [hi] at hr2
      rw [hr2]
      exact ⟨iff_of_false (by decide) fun hn => hn.2 (hslip hn.1),
        iff_of_false (by decide) fun hn => hn.2 ((Double.isIntegral_iff x).1 hi), rfl, rfl, rfl⟩
  · have hr2 : r.2 = .nv := execute_snd_of_not_passes ho h
    rw [hr2]
    rw [hp, not_or] at h
    refine ⟨iff_of_true rfl ⟨h.1, fun hu => h.2 ?_⟩, iff_of_false (by decide) fun hf => h.1 hf.1,
      rfl, rfl, rfl⟩
    obtain ⟨hf, -, hs⟩ := slips_of_unreported ho hu
    exact ⟨hf, hs⟩

theorem conversion_saturates_fraction :
    let x : Double := ⟨0xc004000000000000⟩
    let r := execute .fcvtWD x.bits 0
    Opcode.integerRange? .fcvtWD = some (.signed 32) ∧
      r.1 = (BitVec.ofInt 32 ((IntegerRange.signed 32).convert x)).signExtend 64 ∧
      (r.2.contains .nx = true ↔
        (IntegerRange.signed 32).Fits x ∧ (truncate x.value : ℚ) ≠ x.value) := by
  obtain ⟨h1, -, h2, -⟩ := conversion_saturates (o := .fcvtWD) rfl 0xc004000000000000 0
  exact ⟨rfl, h1, h2⟩

/-- 2^63 does not fit and saturates, without a flag. -/
theorem conversion_saturates_unreported :
    let x : Double := ⟨0x43e0000000000000⟩
    x.isFinite = true ∧ truncate x.value = 2 ^ 63 ∧ ¬ (IntegerRange.signed 64).Fits x ∧
      execute .fcvtLD x.bits 0 = (0x7fffffffffffffff, .none) := by
  intro x
  have ht : truncate x.value = 2 ^ 63 := by
    rw [← Double.trunc_eq]
    decide +kernel
  refine ⟨by decide, ht, ?_, by decide +kernel⟩
  rintro ⟨-, -, hle⟩
  rw [ht] at hle
  exact absurd hle (by decide)

end Fpu

end RiscvPipeline
