import RiscvPipeline.Proofs.Double.Nearest
import RiscvPipeline.Proofs.Double.Value

/-!
# Rounding

A quotient is rounded to 53 significant bits and packed into a pattern, where a carry out of the
significand moves to the exponent. A whole number goes to a nearest representable one, and so does
a sum of two numbers unless it overflows. A product or a sum of products rounds to zero just if it
is at most half a unit.
-/

namespace RiscvPipeline.Double

variable {x y z : Double} {num den n d q : ℕ}

/-! ## The nearest whole number -/

theorem nearestEven_near (num : ℕ) (hden : 0 < den) :
    2 * num ≤ 2 * (nearestEven num den * den) + den ∧
      2 * (nearestEven num den * den) ≤ 2 * num + den := by
  have hnum := Nat.div_add_mod num den
  have hr := Nat.mod_lt num hden
  rw [Nat.mul_comm] at hnum
  dsimp only [nearestEven]
  split
  · omega
  split
  · rw [Nat.add_one_mul (num / den)]
    omega
  · rcases Nat.mod_two_eq_zero_or_one (num / den) with h | h
    · rw [h, Nat.add_zero]
      omega
    · rw [h, Nat.add_one_mul (num / den)]
      omega

theorem nearestEven_bounds (num den : ℕ) :
    num / den ≤ nearestEven num den ∧ nearestEven num den ≤ num / den + 1 := by
  dsimp only [nearestEven]
  split
  · omega
  split <;> omega

theorem nearestEven_eq_zero (hden : 0 < den) : nearestEven num den = 0 ↔ 2 * num ≤ den := by
  constructor
  · intro h
    have hnear := (nearestEven_near num hden).1
    rwa [h, Nat.zero_mul, Nat.mul_zero, Nat.zero_add] at hnear
  · intro h
    have hlt : num < den := by omega
    dsimp only [nearestEven]
    rw [Nat.div_eq_of_lt hlt, Nat.mod_eq_of_lt hlt]
    split
    · rfl
    · rw [if_neg (by omega)]

/-! ## Packing -/

/-- The low bits of a whole number that do not fit into the significand. -/
def dropped (n : ℕ) : ℕ := n.log2 - 52

theorem div_dropped (n : ℕ) :
    n / 2 ^ dropped n < 2 ^ 53 ∧ (dropped n = 0 ∨ 2 ^ 52 ≤ n / 2 ^ dropped n) := by
  have hlt : n < 2 ^ (n.log2 + 1) := Nat.lt_log2_self
  constructor
  · rw [Nat.div_lt_iff_lt_mul (Nat.two_pow_pos _), ← Nat.pow_add]
    exact hlt.trans_le (Nat.pow_le_pow_right two_pos (by rw [dropped]; omega))
  · rcases Nat.eq_zero_or_pos (dropped n) with h | h
    · exact .inl h
    · right
      rw [dropped] at h
      have hn : n ≠ 0 := by
        rintro rfl
        simp at h
      rw [Nat.le_div_iff_mul_le (Nat.two_pow_pos _), ← Nat.pow_add]
      exact (Nat.pow_le_pow_right two_pos (by rw [dropped]; omega)).trans (Nat.log2_self_le hn)

/-- A significand and an exponent, packed. A carry out of the significand needs no care. -/
theorem magnitude_ofBits (hq : q ≤ 2 ^ 53) (hd : d = 0 ∨ 2 ^ 52 ≤ q) (hn : d * 2 ^ 52 + q < 2 ^ 63)
    (s : Bool) : (ofBits s (d * 2 ^ 52 + q)).magnitude = q * 2 ^ d := by
  obtain ⟨-, he, hf⟩ := fields_ofBits hn s
  rw [magnitude_eq, he, hf]
  rcases Nat.lt_or_ge q (2 ^ 52) with hlt | hge
  · obtain rfl : d = 0 := by omega
    rw [if_pos (by omega)]
    omega
  rcases Nat.lt_or_ge q (2 ^ 53) with hlt | hge'
  · have h1 : (d * 2 ^ 52 + q) / 2 ^ 52 = d + 1 := by omega
    have h2 : 2 ^ 52 + (d * 2 ^ 52 + q) % 2 ^ 52 = q := by omega
    rw [h1, h2, if_neg (Nat.succ_ne_zero d), Nat.add_sub_cancel]
  · obtain rfl : q = 2 ^ 53 := by omega
    have h1 : (d * 2 ^ 52 + 2 ^ 53) / 2 ^ 52 = d + 2 := by omega
    have h2 : (d * 2 ^ 52 + 2 ^ 53) % 2 ^ 52 = 0 := by omega
    rw [h1, h2, if_neg (Nat.succ_ne_zero _), Nat.add_zero, Nat.add_succ_sub_one, ← Nat.pow_add,
      ← Nat.pow_add]
    exact congrArg (2 ^ ·) (by omega)

/-- The pattern of a quotient, if the greatest number is not below it. -/
def packed (num den : ℕ) : ℕ :=
  dropped (num / den) * 2 ^ 52 + nearestEven num (den * 2 ^ dropped (num / den))

theorem infinityBits_eq : infinityBits = 2047 * 2 ^ 52 := Nat.shiftLeft_eq 2047 52

theorem ofRatio_of_lt (h : packed num den < 2047 * 2 ^ 52) (s : Bool) :
    ofRatio s num den = ofBits s (packed num den) := by
  dsimp only [ofRatio]
  rw [Nat.shiftLeft_eq, Nat.shiftLeft_eq, infinityBits_eq, ← dropped, ← packed,
    Nat.min_eq_left h.le]

theorem ofRatio_of_le (h : 2047 * 2 ^ 52 ≤ packed num den) (s : Bool) :
    ofRatio s num den = infinity s := by
  dsimp only [ofRatio]
  rw [Nat.shiftLeft_eq, Nat.shiftLeft_eq, infinityBits_eq, ← dropped, ← packed,
    Nat.min_eq_right h, infinity, infinityBits_eq]

theorem negative_ofRatio (s : Bool) (num den : ℕ) : (ofRatio s num den).negative = s := by
  rcases Nat.lt_or_ge (packed num den) (2047 * 2 ^ 52) with h | h
  · rw [ofRatio_of_lt h]
    exact (fields_ofBits (by omega) s).1
  · rw [ofRatio_of_le h]
    exact (fields_ofBits (by decide) s).1

theorem isFinite_ofRatio_iff {s : Bool} :
    (ofRatio s num den).isFinite = true ↔ packed num den < 2047 * 2 ^ 52 := by
  rw [isFinite_iff]
  rcases Nat.lt_or_ge (packed num den) (2047 * 2 ^ 52) with h | h
  · obtain ⟨-, he, -⟩ := fields_ofBits (n := packed num den) (by omega) s
    rw [ofRatio_of_lt h]
    exact iff_of_true (by omega) h
  · obtain ⟨-, he, -⟩ := fields_ofBits (n := infinityBits) (by decide) s
    rw [ofRatio_of_le h, infinity, he]
    exact iff_of_false (by decide) (by omega)

/-- A whole number, rounded to 53 bits. -/
def rounded (n : ℕ) : ℕ := nearestEven n (2 ^ dropped n) * 2 ^ dropped n

theorem magnitude_ofRatio {s : Bool} (h : (ofRatio s n 1).isFinite = true) :
    (ofRatio s n 1).magnitude = rounded n := by
  rw [isFinite_ofRatio_iff] at h
  obtain ⟨hlt, hge⟩ := div_dropped n
  obtain ⟨hle, hle'⟩ := nearestEven_bounds n (2 ^ dropped n)
  have hpacked : packed n 1 = dropped n * 2 ^ 52 + nearestEven n (2 ^ dropped n) := by
    rw [packed, Nat.div_one, Nat.one_mul]
  rw [ofRatio_of_lt h, hpacked]
  rw [hpacked] at h
  exact magnitude_ofBits (by omega) (hge.imp_right (·.trans hle)) (by omega) s

theorem nearest_rounded (n : ℕ) : Nearest (rounded n) n := by
  obtain ⟨hlt, hge⟩ := div_dropped n
  obtain ⟨hq, hq'⟩ := nearestEven_bounds n (2 ^ dropped n)
  obtain ⟨hn, hn'⟩ := nearestEven_near n (Nat.two_pow_pos (dropped n))
  rw [← rounded] at hn hn'
  have hdvd : 2 ^ dropped n ∣ (rounded n : ℤ) :=
    ⟨nearestEven n (2 ^ dropped n), by rw [rounded, mul_comm]; push_cast; rfl⟩
  have hmul (m : ℤ) (hm : 2 ^ dropped n ∣ m) :
      ((rounded n : ℤ) - n).natAbs ≤ (m - n).natAbs := by
    rcases eq_or_ne m (rounded n) with rfl | hne
    · exact le_rfl
    · have hle := Int.natAbs_le_of_dvd_ne_zero (Int.dvd_sub hm hdvd) (sub_ne_zero.2 hne)
      rw [natAbs_two_pow] at hle
      omega
  refine ⟨⟨dropped n, hdvd, ?_⟩, fun {m} ⟨e, hm, hm'⟩ => ?_⟩
  · rw [Int.natAbs_natCast]
    exact Nat.mul_le_mul_right _ (by omega)
  rcases Nat.lt_or_ge e (dropped n) with he | he
  -- finer integers end where the significand of `n` begins
  · have hlow : 2 ^ 52 * 2 ^ dropped n ≤ n :=
      (Nat.le_div_iff_mul_le (Nat.two_pow_pos _)).1 (hge.resolve_left (by omega))
    have hpow : 2 ^ (e + 1) ≤ 2 ^ dropped n := Nat.pow_le_pow_right two_pos he
    have hbound := hmul (2 ^ 52 * 2 ^ dropped n) (dvd_mul_left _ _)
    have habs : ((2 : ℤ) ^ 52 * 2 ^ dropped n).natAbs = 2 ^ 52 * 2 ^ dropped n := by
      rw [Int.natAbs_mul, natAbs_two_pow, natAbs_two_pow]
    omega
  · exact hmul m ((pow_dvd_pow 2 he).trans hm)

/-! ## Finite numbers -/

theorem magnitude_lt (x : Double) : x.magnitude < 2 ^ 53 * 2 ^ (x.exponentField - 1) := by
  have hf := fraction_lt x
  rw [magnitude_eq]
  split
  next he =>
    rw [he]
    omega
  next => exact Nat.mul_lt_mul_of_pos_right (by omega) (Nat.two_pow_pos _)

theorem dvd_magnitude (x : Double) : 2 ^ (x.exponentField - 1) ∣ x.magnitude := by
  rw [magnitude_eq]
  split
  next he =>
    rw [he]
    exact one_dvd _
  next => exact Nat.dvd_mul_left _ _

theorem fitsAt_magnitude (x : Double) : FitsAt (x.exponentField - 1) x.magnitude := by
  refine ⟨?_, (magnitude_lt x).le⟩
  rw [← Int.natAbs_dvd_natAbs, natAbs_two_pow]
  exact dvd_magnitude x

theorem fitsAt_units (x : Double) : FitsAt (x.exponentField - 1) x.units := by
  refine (fitsAt_magnitude x).of_le ?_ (natAbs_units x).le
  rw [← Int.natAbs_dvd_natAbs, natAbs_two_pow, natAbs_units]
  exact dvd_magnitude x

theorem representable_units (x : Double) : Representable x.units := ⟨_, fitsAt_units x⟩

theorem rounded_magnitude (x : Double) : rounded x.magnitude = x.magnitude :=
  Int.natCast_inj.1 ((nearest_rounded x.magnitude).eq_of_representable ⟨_, fitsAt_magnitude x⟩)

theorem isFinite_ofRatio (h : x.isFinite = true) (s : Bool) :
    (ofRatio s x.magnitude 1).isFinite = true := by
  have he := exponentField_lt x
  have he' := isFinite_iff.1 h
  have hlt := magnitude_lt x
  obtain ⟨hdiv, hge⟩ := div_dropped x.magnitude
  obtain ⟨hq, hq'⟩ := nearestEven_bounds x.magnitude (2 ^ dropped x.magnitude)
  have hr := rounded_magnitude x
  rw [rounded] at hr
  rw [isFinite_ofRatio_iff, packed, Nat.div_one, Nat.one_mul]
  rcases hge with hzero | hlow
  · omega
  have hle : dropped x.magnitude ≤ x.exponentField - 1 := by
    rw [Nat.le_div_iff_mul_le (Nat.two_pow_pos _), ← Nat.pow_add] at hlow
    rw [← Nat.pow_add] at hlt
    have := (Nat.pow_lt_pow_iff_right (by decide)).1 (hlow.trans_lt hlt)
    omega
  rcases Nat.lt_or_eq_of_le hle with hless | heq
  · omega
  · rw [← hr, ← heq] at hlt
    have := Nat.lt_of_mul_lt_mul_right hlt
    omega

/-! ## Sums -/

theorem units_zero (s : Bool) : (zero s).units = 0 := by
  cases s <;> decide

theorem isFinite_zero (s : Bool) : (zero s).isFinite = true :=
  isFinite_of_isZero (isZero_iff.2 (units_zero s))

/-- A whole number is rounded to a nearest one, unless it overflows. -/
theorem nearest_round {s : Bool} {m : ℤ} (h : (round s m 1).isFinite = true) :
    Nearest (round s m 1).units m := by
  rw [round] at h ⊢
  split at h
  next hm =>
    rw [if_pos hm, units_zero, hm]
    exact ⟨.zero, by omega⟩
  next hm =>
    have hn := nearest_rounded m.natAbs
    rw [if_neg hm, units, negative_ofRatio, magnitude_ofRatio h]
    split
    next hneg =>
      have habs : m = -(m.natAbs : ℤ) := by
        have := of_decide_eq_true hneg
        omega
      have := hn.neg
      rwa [← habs] at this
    next hneg =>
      have habs : (m.natAbs : ℤ) = m := by
        have := of_decide_eq_false (Bool.not_eq_true _ ▸ hneg)
        omega
      rwa [habs] at hn

theorem round_units {s : Bool} (h : x.isFinite = true) :
    (round s x.units 1).isFinite = true ∧ (round s x.units 1).units = x.units := by
  have hf : (round s x.units 1).isFinite = true := by
    rw [round]
    split
    · exact isFinite_zero s
    · rw [natAbs_units]
      exact isFinite_ofRatio h _
  exact ⟨hf, (nearest_round hf).eq_of_representable (representable_units x)⟩

theorem add_of_isFinite (hx : x.isFinite = true) (hy : y.isFinite = true) :
    x.add y = round (x.negative && y.negative) (x.units + y.units) 1 := by
  rw [add, isNaN_of_isFinite hx, isNaN_of_isFinite hy, isInfinite_of_isFinite hx,
    isInfinite_of_isFinite hy]
  rfl

theorem not_isFinite_of_isInfinite (h : x.isInfinite = true) : ¬ x.isFinite = true :=
  fun hf => Bool.false_ne_true ((isInfinite_of_isFinite hf).symm.trans h)

theorem isFinite_of_add (h : (x.add y).isFinite = true) :
    x.isFinite = true ∧ y.isFinite = true := by
  have hnan : canonicalNaN.isFinite = false := by decide
  rw [add] at h
  split at h
  next => exact absurd h (by rw [hnan]; decide)
  next hn =>
    rw [Bool.or_eq_true, not_or, Bool.not_eq_true, Bool.not_eq_true] at hn
    split at h
    next hx =>
      split at h
      next => exact absurd h (by rw [hnan]; decide)
      next => exact absurd h (not_isFinite_of_isInfinite hx)
    next hx =>
      split at h
      next hy => exact absurd h (not_isFinite_of_isInfinite hy)
      next hy =>
        rw [Bool.not_eq_true] at hx hy
        exact ⟨isFinite_of_not hn.1 hx, isFinite_of_not hn.2 hy⟩

theorem nearest_add (h : (x.add y).isFinite = true) :
    Nearest (x.add y).units (x.units + y.units) := by
  obtain ⟨hx, hy⟩ := isFinite_of_add h
  rw [add_of_isFinite hx hy] at h ⊢
  exact nearest_round h

/-- A sum that is a number is found. -/
theorem add_eq (hx : x.isFinite = true) (hy : y.isFinite = true) (hz : z.isFinite = true)
    (h : x.units + y.units = z.units) : (x.add y).isFinite = true ∧ (x.add y).units = z.units := by
  rw [add_of_isFinite hx hy, h]
  exact round_units hz

theorem isFinite_of_sub (h : (x.sub y).isFinite = true) :
    x.isFinite = true ∧ y.isFinite = true := by
  have := isFinite_of_add h
  rwa [isFinite_neg] at this

theorem nearest_sub (h : (x.sub y).isFinite = true) :
    Nearest (x.sub y).units (x.units - y.units) := by
  have := nearest_add h
  rwa [units_neg, ← sub_eq_add_neg] at this

theorem sub_eq (hx : x.isFinite = true) (hy : y.isFinite = true) (hz : z.isFinite = true)
    (h : x.units - y.units = z.units) : (x.sub y).isFinite = true ∧ (x.sub y).units = z.units :=
  add_eq hx (by rwa [isFinite_neg]) hz (by rwa [units_neg, ← sub_eq_add_neg])

/-! ## Products -/

theorem packed_eq_zero (hden : 0 < den) : packed num den = 0 ↔ 2 * num ≤ den := by
  rw [packed, Nat.add_eq_zero_iff]
  constructor
  · rintro ⟨hd, hq⟩
    have hd' : dropped (num / den) = 0 := by omega
    rw [hd', Nat.pow_zero, Nat.mul_one] at hq
    exact (nearestEven_eq_zero hden).1 hq
  · intro h
    have hd : dropped (num / den) = 0 := by rw [Nat.div_eq_of_lt (by omega)]; decide
    rw [hd, Nat.pow_zero, Nat.mul_one]
    exact ⟨Nat.zero_mul _, (nearestEven_eq_zero hden).2 h⟩

theorem isZero_ofRatio (hden : 0 < den) (s : Bool) :
    (ofRatio s num den).isZero = true ↔ 2 * num ≤ den := by
  rw [← packed_eq_zero hden]
  constructor
  · intro h
    have hlt := isFinite_ofRatio_iff.1 (isFinite_of_isZero h)
    obtain ⟨-, he, hf⟩ := fields_ofBits (n := packed num den) (by omega) s
    rw [ofRatio_of_lt hlt] at h
    obtain ⟨he', hf'⟩ := magnitude_eq_zero.1 (beq_iff_eq.1 h)
    omega
  · intro h
    rw [ofRatio_of_lt (by omega), h, isZero_iff]
    exact units_zero s

theorem isZero_round (hden : 0 < den) (s : Bool) (m : ℤ) :
    (round s m den).isZero = true ↔ 2 * m.natAbs ≤ den := by
  rw [round]
  split
  next h =>
    rw [isZero_iff, units_zero, h]
    exact iff_of_true rfl (Nat.zero_le _)
  next => exact isZero_ofRatio hden _

/-- A sum of products vanishes if it is half a unit at most. -/
theorem isZero_mulAdd (hx : x.isFinite = true) (hy : y.isFinite = true) (hz : z.isFinite = true) :
    (x.mulAdd y z).isZero = true ↔ 2 * (x.units * y.units + z.units * one).natAbs ≤ one := by
  rw [mulAdd, isNaN_of_isFinite hx, isNaN_of_isFinite hy, isNaN_of_isFinite hz,
    isInfinite_of_isFinite hx, isInfinite_of_isFinite hy, isInfinite_of_isFinite hz]
  exact isZero_round one_pos _ _

end RiscvPipeline.Double
