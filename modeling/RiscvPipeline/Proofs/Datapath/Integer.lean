import Mathlib.Tactic.Linarith
import RiscvPipeline.Datapath.MulDiv

/-!
# The integers of the datapath

The operations of the integer datapath, on the numbers that their operands stand for
(`IntegerOp.value`). The 32-bit forms of an instruction and its 64-bit form are one operation at two
widths. `arithmetic_exact` says that every instruction gives what its operation says, and with that
come the laws of its products, quotients, shifts and comparisons.
-/

namespace RiscvPipeline

/-- The operations on integers of some width. -/
inductive IntegerOp
  | add
  | sub
  | and
  | or
  | xor
  /-- The second operand. -/
  | second
  | less
  | lessUnsigned
  | shiftLeft
  | shiftRight
  | shiftRightSigned
  | mul
  | mulUpper
  | mulUpperMixed
  | mulUpperUnsigned
  | div
  | divUnsigned
  | rem
  | remUnsigned

namespace IntegerOp

/-- The result as a number, of which the low bits are kept. Shifts look at as many bits of `b` as
the width takes, and those to the right round down. Divisions round toward zero; the quotient by
zero has all bits set. -/
def value {n : Nat} (f : IntegerOp) (a b : BitVec n) : Int :=
  match f with
  | add => a.toInt + b.toInt
  | sub => a.toInt - b.toInt
  | and => (a.toNat &&& b.toNat : Nat)
  | or => (a.toNat ||| b.toNat : Nat)
  | xor => (a.toNat ^^^ b.toNat : Nat)
  | second => b.toInt
  | less => if a.toInt < b.toInt then 1 else 0
  | lessUnsigned => if a.toNat < b.toNat then 1 else 0
  | shiftLeft => a.toInt * 2 ^ (b.toNat % n)
  | shiftRight => a.toNat / 2 ^ (b.toNat % n)
  | shiftRightSigned => a.toInt / 2 ^ (b.toNat % n)
  | mul => a.toInt * b.toInt
  | mulUpper => a.toInt * b.toInt / 2 ^ n
  | mulUpperMixed => a.toInt * b.toNat / 2 ^ n
  | mulUpperUnsigned => a.toNat * b.toNat / 2 ^ n
  | div => if b = 0 then -1 else a.toInt.tdiv b.toInt
  | divUnsigned => if b = 0 then -1 else a.toNat / b.toNat
  | rem => if b = 0 then a.toInt else a.toInt.tmod b.toInt
  | remUnsigned => if b = 0 then a.toNat else a.toNat % b.toNat

def result {n : Nat} (f : IntegerOp) (a b : BitVec n) : BitVec n := .ofInt n (f.value a b)

/-- The same on bits. -/
def bits {n : Nat} (f : IntegerOp) (a b : BitVec n) : BitVec n :=
  match f with
  | add => a + b
  | sub => a - b
  | and => a &&& b
  | or => a ||| b
  | xor => a ^^^ b
  | second => b
  | less => if a.slt b then 1 else 0
  | lessUnsigned => if a.ult b then 1 else 0
  | shiftLeft => ShiftOp.left.apply a (b.toNat % n)
  | shiftRight => ShiftOp.logicalRight.apply a (b.toNat % n)
  | shiftRightSigned => ShiftOp.arithmeticRight.apply a (b.toNat % n)
  | mul => a * b
  | mulUpper => .ofInt n ((a.toInt * b.toInt) >>> n)
  | mulUpperMixed => .ofInt n ((a.toInt * b.toNat) >>> n)
  | mulUpperUnsigned => .ofInt n ((a.toNat * b.toNat : Int) >>> n)
  | div => MulDiv.quotient true a b
  | divUnsigned => MulDiv.quotient false a b
  | rem => MulDiv.remainder true a b
  | remUnsigned => MulDiv.remainder false a b

end IntegerOp

namespace Opcode

/-- The operation of an instruction that computes on integers. -/
def integerOp? : Opcode → Option IntegerOp
  | add | addi | addw | addiw | auipc => some .add
  | sub | subw => some .sub
  | and | andi => some .and
  | or | ori => some .or
  | xor | xori => some .xor
  | lui => some .second
  | slt | slti => some .less
  | sltu | sltiu => some .lessUnsigned
  | sll | slli | sllw | slliw => some .shiftLeft
  | srl | srli | srlw | srliw => some .shiftRight
  | sra | srai | sraw | sraiw => some .shiftRightSigned
  | mul | mulw => some .mul
  | mulh => some .mulUpper
  | mulhsu => some .mulUpperMixed
  | mulhu => some .mulUpperUnsigned
  | div | divw => some .div
  | divu | divuw => some .divUnsigned
  | rem | remw => some .rem
  | remu | remuw => some .remUnsigned
  | _ => none

/-- The classes of the instructions that compute on integers. -/
def isInteger (o : Opcode) : Bool :=
  match o.cls with
  | .alu | .shift | .mul | .div => true
  | _ => false

/-- The result of an instruction that computes on integers, from where it is computed. -/
def integerResult (o : Opcode) (a b : Word) : Word :=
  match o.cls with
  | .mul | .div => MulDiv.execute o a b
  | _ => Alu.execute o a b

theorem exists_integerOp {o : Opcode} (h : o.isInteger = true) : ∃ f, o.integerOp? = some f := by
  cases o <;> first | exact ⟨_, rfl⟩ | cases h

end Opcode

theorem Word.toNat_low_mod (b : Word) : b.low.toNat % 32 = b.toNat % 32 := by
  rw [low, BitVec.toNat_setWidth]
  exact Nat.mod_mod_of_dvd _ (by decide)

/-- Narrow instructions compute with the low halves. -/
theorem Opcode.integerResult_eq {o : Opcode} {f : IntegerOp} (h : o.integerOp? = some f)
    (a b : Word) :
    o.integerResult a b =
      if o.traits.narrow then Word.signExtendLow (f.bits a.low b.low) else f.bits a b := by
  cases o <;> cases h <;> simp only [IntegerOp.bits, Word.toNat_low_mod] <;> rfl

/-! ## Bits and numbers -/

section

variable {n : Nat} (a b : BitVec n) (k : Nat)

theorem ofInt_toNat : BitVec.ofInt n a.toNat = a := by
  rw [BitVec.ofInt_natCast, BitVec.ofNat_toNat, BitVec.setWidth_eq]

theorem shiftLeft_eq_ofInt : a <<< k = .ofInt n (a.toInt * 2 ^ k) := by
  have h : BitVec.ofInt n (2 ^ k) = BitVec.twoPow n k := by
    apply BitVec.eq_of_toNat_eq
    rw [BitVec.toNat_twoPow, ← Nat.cast_ofNat, ← Nat.cast_pow, BitVec.ofInt_natCast,
      BitVec.toNat_ofNat]
  rw [BitVec.shiftLeft_eq_mul_twoPow, BitVec.ofInt_mul, BitVec.ofInt_toInt, h]

theorem ushiftRight_eq_ofInt : a >>> k = .ofInt n (a.toNat / 2 ^ k) := by
  rw [← ofInt_toNat (a >>> k), BitVec.toNat_ushiftRight, Nat.shiftRight_eq_div_pow]
  norm_cast

theorem sshiftRight_eq_ofInt : a.sshiftRight k = .ofInt n (a.toInt / 2 ^ k) := by
  rw [← BitVec.ofInt_toInt (x := a.sshiftRight k), BitVec.toInt_sshiftRight,
    Int.shiftRight_eq_div_pow]
  norm_cast

theorem allOnes_eq_ofInt : BitVec.allOnes n = .ofInt n (-1) := by
  rw [BitVec.ofInt_neg, ← BitVec.neg_one_eq_allOnes]
  rfl

theorem sdiv_eq_ofInt : a.sdiv b = .ofInt n (a.toInt.tdiv b.toInt) := by
  apply BitVec.eq_of_toInt_eq
  rw [BitVec.toInt_sdiv, BitVec.toInt_ofInt]

theorem srem_eq_ofInt : a.srem b = .ofInt n (a.toInt.tmod b.toInt) := by
  rw [← BitVec.toInt_srem, BitVec.ofInt_toInt]

theorem udiv_eq_ofInt : a.udiv b = .ofInt n (a.toNat / b.toNat) := by
  rw [← ofInt_toNat (a.udiv b)]
  rfl

theorem umod_eq_ofInt : a.umod b = .ofInt n (a.toNat % b.toNat) := by
  rw [← ofInt_toNat (a.umod b)]
  rfl

theorem ofInt_ite_one (p : Prop) [Decidable p] :
    BitVec.ofInt n (if p then 1 else 0) = if p then 1 else 0 := by
  split <;> rfl

end

/-- What the datapath does with bits is what the operation says of numbers. -/
theorem IntegerOp.bits_eq_result {n : Nat} (f : IntegerOp) (a b : BitVec n) :
    f.bits a b = f.result a b := by
  unfold bits result value
  cases f with
  | add => simp [BitVec.ofInt_add]
  | sub => simp [Int.sub_eq_add_neg, BitVec.ofInt_add, BitVec.ofInt_neg, BitVec.sub_eq_add_neg]
  | and => rw [← BitVec.toNat_and, ofInt_toNat]
  | or => rw [← BitVec.toNat_or, ofInt_toNat]
  | xor => rw [← BitVec.toNat_xor, ofInt_toNat]
  | second => exact BitVec.ofInt_toInt.symm
  | less => simp only [ofInt_ite_one, BitVec.slt_iff_toInt_lt]
  | lessUnsigned => simp only [ofInt_ite_one, BitVec.ult_iff_lt, BitVec.lt_def]
  | shiftLeft => exact shiftLeft_eq_ofInt a _
  | shiftRight => exact ushiftRight_eq_ofInt a _
  | shiftRightSigned => exact sshiftRight_eq_ofInt a _
  | mul => simp [BitVec.ofInt_mul]
  | mulUpper | mulUpperMixed | mulUpperUnsigned =>
    simp only [Int.shiftRight_eq_div_pow]
    norm_cast
  | div =>
    by_cases hb : b = 0
    · simp only [MulDiv.quotient, hb, if_true, allOnes_eq_ofInt]
    · simp only [MulDiv.quotient, hb, if_false, if_true, sdiv_eq_ofInt]
  | divUnsigned =>
    by_cases hb : b = 0
    · simp only [MulDiv.quotient, hb, if_true, allOnes_eq_ofInt]
    · simp only [MulDiv.quotient, hb, if_false, Bool.false_eq_true, udiv_eq_ofInt]
  | rem =>
    by_cases hb : b = 0
    · simp only [MulDiv.remainder, hb, if_true, BitVec.ofInt_toInt]
    · simp only [MulDiv.remainder, hb, if_false, if_true, srem_eq_ofInt]
  | remUnsigned =>
    by_cases hb : b = 0
    · simp only [MulDiv.remainder, hb, if_true, ofInt_toNat]
    · simp only [MulDiv.remainder, hb, if_false, Bool.false_eq_true, umod_eq_ofInt]

/-! ## Products -/

section

/-- A number that fits into two words, put together from its halves. -/
theorem toInt_upper_append {p : Int} (h : -2 ^ 127 ≤ p) (h' : p < 2 ^ 127) :
    (MulDiv.upper p ++ BitVec.ofInt 64 p).toInt = p := by
  have hu : (MulDiv.upper p).toInt = p / 2 ^ 64 := by
    rw [MulDiv.upper, Int.shiftRight_eq_div_pow]
    refine BitVec.toInt_ofInt_eq_self (by decide) ?_ ?_ <;> omega
  rw [BitVec.toInt_append, if_neg (by decide), hu, BitVec.toNat_ofInt]
  omega

theorem toNat_upper_append {p : Nat} (h : p < 2 ^ 64 * 2 ^ 64) :
    (MulDiv.upper p ++ BitVec.ofInt 64 p).toNat = p := by
  have hu : (MulDiv.upper p).toNat = p / 2 ^ 64 := by
    rw [MulDiv.upper, Int.shiftRight_eq_div_pow, BitVec.toNat_ofInt]
    omega
  rw [BitVec.toNat_append, hu, BitVec.ofInt_natCast, BitVec.toNat_ofNat,
    ← Nat.shiftLeft_add_eq_or_of_lt (Nat.mod_lt _ (by decide)), Nat.shiftLeft_eq]
  omega

/-- A signed word times a word of either kind fits into two words. -/
theorem mul_bounds {x y : Int} (hx : -2 ^ 63 ≤ x) (hx' : x < 2 ^ 63) (hy : -2 ^ 63 ≤ y)
    (hy' : y < 2 ^ 64) : -2 ^ 127 ≤ x * y ∧ x * y < 2 ^ 127 := by
  rcases Int.le_total 0 y with h | h
  · have hlow : -2 ^ 63 * y ≤ x * y := Int.mul_le_mul_of_nonneg_right hx h
    have hhigh : x * y ≤ (2 ^ 63 - 1) * y := Int.mul_le_mul_of_nonneg_right (by omega) h
    omega
  · have hlow : (2 ^ 63 - 1) * y ≤ x * y := Int.mul_le_mul_of_nonpos_right (by omega) h
    have hhigh : x * y ≤ -2 ^ 63 * y := Int.mul_le_mul_of_nonpos_right hx h
    omega

variable (a b : Word)

/-- The products of two words, of which the upper and the lower half come from different
instructions. -/
structure Products : Prop where
  signed :
    (MulDiv.execute .mulh a b ++ MulDiv.execute .mul a b).toInt = a.toInt * b.toInt
  mixed :
    (MulDiv.execute .mulhsu a b ++ MulDiv.execute .mul a b).toInt = a.toInt * b.toNat
  unsigned :
    (MulDiv.execute .mulhu a b ++ MulDiv.execute .mul a b).toNat = a.toNat * b.toNat

theorem products : Products a b := by
  have ha : -2 ^ 63 ≤ a.toInt := BitVec.le_toInt a
  have ha' : a.toInt < 2 ^ 63 := BitVec.toInt_lt
  constructor
  case signed =>
    have hmul : a * b = BitVec.ofInt 64 (a.toInt * b.toInt) := by
      rw [BitVec.ofInt_mul, BitVec.ofInt_toInt, BitVec.ofInt_toInt]
    have hb : b.toInt < 2 ^ 63 := BitVec.toInt_lt
    obtain ⟨hlow, hhigh⟩ := mul_bounds ha ha' (BitVec.le_toInt b) (by omega)
    show (MulDiv.upper (a.toInt * b.toInt) ++ a * b).toInt = _
    rw [hmul]
    exact toInt_upper_append hlow hhigh
  case mixed =>
    have hmul : a * b = BitVec.ofInt 64 (a.toInt * b.toNat) := by
      rw [BitVec.ofInt_mul, BitVec.ofInt_toInt, ofInt_toNat]
    have hb := b.isLt
    obtain ⟨hlow, hhigh⟩ := mul_bounds ha ha' (y := b.toNat) (by omega) (by omega)
    show (MulDiv.upper (a.toInt * b.toNat) ++ a * b).toInt = _
    rw [hmul]
    exact toInt_upper_append hlow hhigh
  case unsigned =>
    have hmul : a * b = BitVec.ofInt 64 (a.toNat * b.toNat : Nat) := by
      rw [Nat.cast_mul, BitVec.ofInt_mul, ofInt_toNat, ofInt_toNat]
    show (MulDiv.upper (a.toNat * b.toNat : Nat) ++ a * b).toNat = _
    rw [hmul]
    exact toNat_upper_append (Nat.mul_lt_mul'' a.isLt b.isLt)

end

/-! ## Quotients -/

/-- The quotient and the remainder of a division that rounds toward zero. -/
structure Divides (a b q r : Int) : Prop where
  sum : a = q * b + r
  small : r.natAbs < b.natAbs
  sign : r = 0 ∨ r.sign = a.sign

theorem divides_tdiv {a b : Int} (hb : b ≠ 0) : Divides a b (a.tdiv b) (a.tmod b) where
  sum := (Int.tdiv_mul_add_tmod a b).symm
  small := by
    rw [Int.natAbs_tmod]
    exact Nat.mod_lt _ (Int.natAbs_pos.2 hb)
  sign := by
    rw [Int.sign_tmod]
    split
    next h => exact .inl (Int.tmod_eq_zero_of_dvd h)
    next => exact .inr rfl

section

variable (a b : Word)

/-- The quotients and remainders of two words. -/
structure Quotients : Prop where
  signed : b ≠ 0 → ¬ (a = BitVec.intMin 64 ∧ b = -1) →
    Divides a.toInt b.toInt (MulDiv.execute .div a b).toInt (MulDiv.execute .rem a b).toInt
  unsigned : b ≠ 0 →
    Divides a.toNat b.toNat (MulDiv.execute .divu a b).toNat (MulDiv.execute .remu a b).toNat
  byZero : b = 0 →
    MulDiv.execute .div a b = BitVec.allOnes 64 ∧ MulDiv.execute .rem a b = a ∧
      MulDiv.execute .divu a b = BitVec.allOnes 64 ∧ MulDiv.execute .remu a b = a
  overflow : a = BitVec.intMin 64 → b = -1 →
    MulDiv.execute .div a b = BitVec.intMin 64 ∧ MulDiv.execute .rem a b = 0

theorem quotients : Quotients a b where
  signed := by
    intro hb hover
    have hor : a ≠ BitVec.intMin 64 ∨ b ≠ -1 := not_and_or.1 hover
    have hq : MulDiv.execute .div a b = a.sdiv b := if_neg hb
    have hr : MulDiv.execute .rem a b = a.srem b := if_neg hb
    rw [hq, hr, BitVec.toInt_sdiv_of_ne_or_ne a b hor, BitVec.toInt_srem]
    exact divides_tdiv fun h => hb (BitVec.eq_of_toInt_eq h)
  unsigned := by
    intro hb
    have hq : MulDiv.execute .divu a b = a.udiv b := if_neg hb
    have hr : MulDiv.execute .remu a b = a.umod b := if_neg hb
    have h : (b.toNat : Int) ≠ 0 := fun h => hb (BitVec.eq_of_toNat_eq (Int.natCast_eq_zero.1 h))
    rw [hq, hr]
    exact divides_tdiv h
  byZero := by
    rintro rfl
    exact ⟨rfl, rfl, rfl, rfl⟩
  overflow := by
    rintro rfl rfl
    decide

end

/-! ## Shifts and comparisons -/

section

variable (a b : Word)

/-- The shifts of a word, by as many places as the low bits of another one say. -/
structure Shifts : Prop where
  left : ∀ o ∈ [Opcode.sll, .slli],
    (Alu.execute o a b).toNat = a.toNat * 2 ^ (b.toNat % 64) % 2 ^ 64
  right : ∀ o ∈ [Opcode.srl, .srli], (Alu.execute o a b).toNat = a.toNat / 2 ^ (b.toNat % 64)
  rightSigned : ∀ o ∈ [Opcode.sra, .srai],
    (Alu.execute o a b).toInt = a.toInt / 2 ^ (b.toNat % 64)
  leftLow : ∀ o ∈ [Opcode.sllw, .slliw], Alu.execute o a b =
    (BitVec.ofNat 32 (a.low.toNat * 2 ^ (b.toNat % 32))).signExtend 64
  rightLow : ∀ o ∈ [Opcode.srlw, .srliw], Alu.execute o a b =
    (BitVec.ofNat 32 (a.low.toNat / 2 ^ (b.toNat % 32))).signExtend 64
  rightSignedLow : ∀ o ∈ [Opcode.sraw, .sraiw],
    (Alu.execute o a b).toInt = a.low.toInt / 2 ^ (b.toNat % 32)

theorem forall_mem_pair {α : Type} {p : α → Prop} {x y : α} (hx : p x) (hy : p y) :
    ∀ z ∈ [x, y], p z := by
  simp [hx, hy]

theorem shifts : Shifts a b := by
  constructor
  case left =>
    have h : (a <<< (b.toNat % 64)).toNat = a.toNat * 2 ^ (b.toNat % 64) % 2 ^ 64 := by
      rw [BitVec.toNat_shiftLeft, Nat.shiftLeft_eq]
    exact forall_mem_pair h h
  case right =>
    have h : (a >>> (b.toNat % 64)).toNat = a.toNat / 2 ^ (b.toNat % 64) := by
      rw [BitVec.toNat_ushiftRight, Nat.shiftRight_eq_div_pow]
    exact forall_mem_pair h h
  case rightSigned =>
    have h : (a.sshiftRight (b.toNat % 64)).toInt = a.toInt / 2 ^ (b.toNat % 64) := by
      rw [BitVec.toInt_sshiftRight, Int.shiftRight_eq_div_pow]
      norm_cast
    exact forall_mem_pair h h
  case leftLow =>
    have h : a.low <<< (b.toNat % 32) = .ofNat 32 (a.low.toNat * 2 ^ (b.toNat % 32)) := by
      rw [← Nat.shiftLeft_eq]
      rfl
    have h := congrArg (BitVec.signExtend 64) h
    exact forall_mem_pair h h
  case rightLow =>
    have h : a.low >>> (b.toNat % 32) = .ofNat 32 (a.low.toNat / 2 ^ (b.toNat % 32)) := by
      rw [← Nat.shiftRight_eq_div_pow, ← BitVec.toNat_ushiftRight, BitVec.ofNat_toNat,
        BitVec.setWidth_eq]
    have h := congrArg (BitVec.signExtend 64) h
    exact forall_mem_pair h h
  case rightSignedLow =>
    have h : ((a.low.sshiftRight (b.toNat % 32)).signExtend 64).toInt =
        a.low.toInt / 2 ^ (b.toNat % 32) := by
      rw [BitVec.toInt_signExtend_of_le (by decide), BitVec.toInt_sshiftRight,
        Int.shiftRight_eq_div_pow]
      norm_cast
    exact forall_mem_pair h h

/-- The comparisons of two words, by the numbers that they stand for. -/
structure Comparisons : Prop where
  less : ∀ o ∈ [Opcode.slt, .slti],
    Alu.execute o a b = if a.toInt < b.toInt then 1 else 0
  lessUnsigned : ∀ o ∈ [Opcode.sltu, .sltiu],
    Alu.execute o a b = if a.toNat < b.toNat then 1 else 0
  beq : Alu.branchTaken .beq a b = true ↔ a.toInt = b.toInt
  blt : Alu.branchTaken .blt a b = true ↔ a.toInt < b.toInt
  bltu : Alu.branchTaken .bltu a b = true ↔ a.toNat < b.toNat
  bne : Alu.branchTaken .bne a b = true ↔ a.toInt ≠ b.toInt
  bge : Alu.branchTaken .bge a b = true ↔ b.toInt ≤ a.toInt
  bgeu : Alu.branchTaken .bgeu a b = true ↔ b.toNat ≤ a.toNat
  complement : Alu.branchTaken .bne a b = !Alu.branchTaken .beq a b ∧
    Alu.branchTaken .bge a b = !Alu.branchTaken .blt a b ∧
      Alu.branchTaken .bgeu a b = !Alu.branchTaken .bltu a b

theorem comparisons : Comparisons a b where
  less := by
    have h : Word.ofBool (a.slt b) = if a.toInt < b.toInt then 1 else 0 := by
      simp only [Word.ofBool, BitVec.slt_iff_toInt_lt]
    exact forall_mem_pair h h
  lessUnsigned := by
    have h : Word.ofBool (a.ult b) = if a.toNat < b.toNat then 1 else 0 := by
      simp only [Word.ofBool, BitVec.ult_iff_lt, BitVec.lt_def]
    exact forall_mem_pair h h
  beq := by
    rw [BitVec.toInt_inj]
    exact beq_iff_eq
  blt := BitVec.slt_iff_toInt_lt
  bltu := BitVec.ult_iff_lt.trans BitVec.lt_def
  bne := by
    rw [Ne, BitVec.toInt_inj]
    exact bne_iff_ne
  bge := by
    rw [← Int.not_lt, ← BitVec.slt_iff_toInt_lt]
    simp [Alu.branchTaken]
  bgeu := by
    rw [← Nat.not_lt, ← BitVec.lt_def, ← BitVec.ult_iff_lt]
    simp [Alu.branchTaken]
  complement := ⟨rfl, rfl, rfl⟩

/-! ## Any instruction -/

/-- What the instructions that compute on integers make of two words. -/
structure ExactArithmetic : Prop where
  /-- The result is the one of the operation, on the whole words or on their low halves. -/
  operation : ∀ o : Opcode, o.isInteger = true → ∃ f, o.integerOp? = some f ∧
    o.integerResult a b =
      if o.traits.narrow then (f.result a.low b.low).signExtend 64 else f.result a b
  low : ∀ o : Opcode, o.isInteger = true → o.traits.narrow = true →
    ∀ a' b' : Word, a'.low = a.low → b'.low = b.low →
      o.integerResult a' b' = o.integerResult a b
  products : Products a b
  quotients : Quotients a b
  shifts : Shifts a b
  comparisons : Comparisons a b

theorem arithmetic_exact : ExactArithmetic a b where
  operation := by
    intro o ho
    obtain ⟨f, hf⟩ := Opcode.exists_integerOp ho
    refine ⟨f, hf, ?_⟩
    rw [Opcode.integerResult_eq hf, f.bits_eq_result, f.bits_eq_result]
    rfl
  low := by
    intro o ho hn a' b' ha hb
    obtain ⟨f, hf⟩ := Opcode.exists_integerOp ho
    rw [Opcode.integerResult_eq hf, Opcode.integerResult_eq hf, if_pos hn, if_pos hn, ha, hb]
  products := products a b
  quotients := quotients a b
  shifts := shifts a b
  comparisons := comparisons a b

end

end RiscvPipeline
