import Mathlib.Data.List.Basic
import Mathlib.Tactic.Ring
import RiscvPipeline.Memory.Data
import RiscvPipeline.Memory.Queue
import RiscvPipeline.Proofs.Sequential
import RiscvPipeline.Proofs.Words

/-! Accesses by lanes of the doubleword around an address are accesses by bytes. -/

namespace RiscvPipeline

theorem AccessSize.bytes_eq (s : AccessSize) : s.bytes = 2 ^ s.code := Nat.one_shiftLeft _

theorem AccessSize.aligned_iff (s : AccessSize) (addr : Word) :
    s.aligned addr = true ↔ addr.toNat % s.bytes = 0 := by
  have h : ∀ k, addr.toNat % 2 ^ k = addr.toNat &&& (2 ^ k - 1) := fun k =>
    (Nat.and_two_pow_sub_one_eq_mod _ _).symm
  unfold aligned
  rw [bytes_eq, h, beq_iff_eq, ← BitVec.toNat_inj, BitVec.toNat_and]
  cases s <;> rfl

namespace Ram

variable (m : Ram)

theorem number_lt (offset count : Nat) : m.number offset count < 256 ^ count := by
  induction count generalizing offset with
  | zero => exact Nat.one_pos
  | succ count ih =>
    have hb := (m.byte offset).isLt
    have := ih (offset + 1)
    rw [number, Nat.pow_succ]
    omega

/-- The same bytes make the same number. -/
theorem number_congr {m m' : Ram} {n k : Nat} (h : ∀ i < k, m'.byte (n + i) = m.byte (n + i)) :
    m'.number n k = m.number n k := by
  induction k generalizing n with
  | zero => rfl
  | succ k ih =>
    have htail : m'.number (n + 1) k = m.number (n + 1) k := by
      refine ih fun i hi => ?_
      rw [Nat.add_assoc, Nat.add_comm 1 i]
      exact h (i + 1) (Nat.succ_lt_succ hi)
    rw [number, number, htail, show m'.byte n = m.byte n from h 0 (Nat.succ_pos k)]

/-- The bytes from an offset on are some low bytes and the others behind them. -/
theorem number_add (offset a b : Nat) :
    m.number offset (a + b) = m.number offset a + 256 ^ a * m.number (offset + a) b := by
  induction a generalizing offset with
  | zero => simp [number]
  | succ a ih =>
    rw [Nat.add_right_comm, number, number, ih, Nat.pow_succ, Nat.add_right_comm offset 1 a,
      ← Nat.add_assoc offset a 1]
    ring

/-- Some bytes in the middle of others. -/
theorem number_slice (offset a b c : Nat) :
    m.number offset (a + b + c) / 256 ^ a % 256 ^ b = m.number (offset + a) b := by
  rw [number_add, number_add m offset a b, Nat.add_assoc, Nat.pow_add, Nat.mul_assoc, ← Nat.mul_add,
    Nat.add_mul_div_left _ _ (Nat.pow_pos (by decide)), Nat.div_eq_of_lt (m.number_lt offset a),
    Nat.zero_add, Nat.add_mul_mod_self_left, Nat.mod_eq_of_lt (m.number_lt _ b)]

end Ram

namespace Lanes

variable {m : Ram} {addr : Word} {size : AccessSize}

theorem setWidth_shift (offset lane : Nat) (h : lane + size.bytes ≤ 8) :
    (BitVec.ofNat 64 (m.number offset 8) >>> (8 * lane)).setWidth size.bits =
      BitVec.ofNat size.bits (m.number (offset + lane) size.bytes) := by
  obtain ⟨c, hc⟩ : ∃ c, 8 = lane + size.bytes + c := ⟨8 - (lane + size.bytes), by omega⟩
  have hN : m.number offset 8 < 2 ^ 64 := m.number_lt offset 8
  have hp : ∀ k, 2 ^ (8 * k) = 256 ^ k := fun k => by rw [Nat.pow_mul]
  apply BitVec.eq_of_toNat_eq
  rw [BitVec.toNat_setWidth, BitVec.toNat_ushiftRight, BitVec.toNat_ofNat, BitVec.toNat_ofNat,
    Nat.mod_eq_of_lt hN, Nat.shiftRight_eq_div_pow, AccessSize.bits, hp, hp,
    Nat.mod_eq_of_lt (m.number_lt _ _), ← Ram.number_slice m offset lane size.bytes c, ← hc]

/-- What a load takes out of the doubleword is the value of its bytes. -/
theorem extract_number (offset : Nat) (signed : Bool) (h : Word.lane addr + size.bytes ≤ 8) :
    extract (BitVec.ofNat 64 (m.number offset 8)) addr size signed =
      Sequential.loadBytes m (offset + Word.lane addr) size signed := by
  have hbits : 0 < size.bits ∧ size.bits ≤ 64 := by cases size <;> decide
  unfold extract Sequential.loadBytes
  cases signed with
  | true =>
    rw [if_pos rfl, if_pos rfl, Word.signExtendFrom_eq _ hbits.1 hbits.2, setWidth_shift _ _ h]
  | false =>
    rw [if_neg Bool.false_ne_true, if_neg Bool.false_ne_true, Word.and_mask_eq _ hbits.2,
      setWidth_shift _ _ h]
    have hlt : m.number (offset + Word.lane addr) size.bytes < 2 ^ size.bits := by
      rw [AccessSize.bits, Nat.pow_mul]
      exact m.number_lt _ _
    apply BitVec.eq_of_toNat_eq
    rw [BitVec.toNat_setWidth, BitVec.toNat_ofNat, BitVec.toNat_ofNat, Nat.mod_eq_of_lt hlt]

theorem getLsbD_replicate (data : Word) (size : AccessSize) {j : Nat} (hj : j < 64) :
    (replicate data size).getLsbD j = data.getLsbD (j % size.bits) := by
  have hlow {n k : Nat} (hn : k < n) (hk : k = j % n) :
      (data.setWidth n).getLsbD k = data.getLsbD (j % n) := by
    rw [BitVec.getLsbD_setWidth, decide_eq_true hn, Bool.true_and, hk]
  cases size with
  | byte =>
    simp only [replicate, BitVec.getLsbD_append]
    show _ = data.getLsbD (j % 8)
    repeat' split
    all_goals exact hlow (by omega) (by omega)
  | half =>
    simp only [replicate, BitVec.getLsbD_append]
    show _ = data.getLsbD (j % 16)
    repeat' split
    all_goals exact hlow (by omega) (by omega)
  | word =>
    simp only [replicate, BitVec.getLsbD_append]
    show _ = data.getLsbD (j % 32)
    repeat' split
    all_goals exact hlow (by omega) (by omega)
  | double =>
    show _ = data.getLsbD (j % 64)
    rw [Nat.mod_eq_of_lt hj]
    rfl

/-- The lanes of a repeated value are its low bytes, over and over. -/
theorem lane_replicate (data : Word) (size : AccessSize) {i : Nat} (hi : i < 8) :
    Ram.lane (replicate data size) i = Ram.lane data (i % size.bytes) := by
  unfold Ram.lane
  apply BitVec.eq_of_getLsbD_eq
  intro j hj
  rw [BitVec.getLsbD_extractLsb', BitVec.getLsbD_extractLsb', getLsbD_replicate _ _ (by omega),
    AccessSize.bits]
  congr 2
  cases size <;> simp only [AccessSize.bytes_eq, AccessSize.code] <;> omega

theorem getLsbD_strobes (addr : Word) (size : AccessSize) {i : Nat} (hi : i < 8) :
    (strobes addr size).getLsbD i =
      decide (Word.lane addr ≤ i ∧ i < Word.lane addr + size.bytes) := by
  have hb : size.bytes ≤ 8 := by cases size <;> decide
  unfold strobes
  rw [BitVec.getLsbD_shiftLeft, BitVec.getLsbD_ushiftRight, BitVec.getLsbD_allOnes]
  simp only [hi, decide_true, Bool.true_and]
  by_cases h : i < Word.lane addr
  · simp [h, show ¬ Word.lane addr ≤ i by omega]
  · simp only [h, decide_false, Bool.not_false, Bool.true_and, decide_eq_decide]
    omega

/-- Writing only where it is asked for is writing the range that is asked for. -/
theorem foldl_range (f : Ram → Nat → Ram) {a b : Nat} (h : a + b ≤ 8) (m : Ram) :
    (List.range 8).foldl (fun r i => if a ≤ i ∧ i < a + b then f r i else r) m =
      (List.range' a b).foldl f m := by
  have outside (l : List Nat) (hl : ∀ i ∈ l, ¬ (a ≤ i ∧ i < a + b)) (r : Ram) :
      l.foldl (fun r i => if a ≤ i ∧ i < a + b then f r i else r) r = r := by
    induction l generalizing r with
    | nil => rfl
    | cons i l ih =>
      rw [List.foldl_cons, if_neg (hl i List.mem_cons_self)]
      exact ih (fun j hj => hl j (List.mem_cons_of_mem _ hj)) r
  have inside (l : List Nat) (hl : ∀ i ∈ l, a ≤ i ∧ i < a + b) (r : Ram) :
      l.foldl (fun r i => if a ≤ i ∧ i < a + b then f r i else r) r = l.foldl f r := by
    induction l generalizing r with
    | nil => rfl
    | cons i l ih =>
      rw [List.foldl_cons, if_pos (hl i List.mem_cons_self), List.foldl_cons]
      exact ih (fun j hj => hl j (List.mem_cons_of_mem _ hj)) _
  have hsplit : List.range 8 = List.range' 0 a ++ List.range' a b ++
      List.range' (a + b) (8 - (a + b)) := by
    have h1 := List.range'_append_1 (s := 0) (m := a) (n := b)
    have h2 := List.range'_append_1 (s := 0) (m := a + b) (n := 8 - (a + b))
    rw [Nat.zero_add] at h1 h2
    rw [h1, h2, List.range_eq_range']
    congr 1
    omega
  have hlow := outside (List.range' 0 a) (fun i hi => by rw [List.mem_range'_1] at hi; omega) m
  have hmid := inside (List.range' a b) (fun i hi => by rw [List.mem_range'_1] at hi; omega) m
  have hhigh := outside (List.range' (a + b) (8 - (a + b)))
    (fun i hi => by rw [List.mem_range'_1] at hi; omega) ((List.range' a b).foldl f m)
  rw [hsplit, List.foldl_append, List.foldl_append, hlow, hmid, hhigh]

theorem setBytes_range' (f : Nat → BitVec 8) (offset k n : Nat) (m : Ram) :
    Ram.setBytes (offset + k) ((List.range' k n).map f) m =
      (List.range' k n).foldl (fun r j => r.setByte (offset + j) (f j)) m := by
  induction n generalizing k m with
  | zero => rfl
  | succ n ih => exact ih (k + 1) _

/-- The lanes of an aligned access do not leave the doubleword. -/
theorem lane_of_aligned (ha : addr.toNat % size.bytes = 0) :
    Word.lane addr % size.bytes = 0 ∧ Word.lane addr + size.bytes ≤ 8 := by
  unfold Word.lane
  cases size <;> simp only [AccessSize.bytes_eq, AccessSize.code] at ha ⊢ <;> omega

/-- Writing a repeated value under the strobes of an aligned access writes its bytes. -/
theorem write_lanes {offset : Nat} (data : Word) (hc : m.covers offset 8 = true)
    (ha : addr.toNat % size.bytes = 0) :
    m.write? offset (replicate data size) (strobes addr size) =
      some (Ram.setBytes (offset + Word.lane addr) (Sequential.bytesOf data size) m) := by
  obtain ⟨hmod, hle⟩ := lane_of_aligned ha
  have hfold : (List.range 8).foldl (fun r i => if (strobes addr size).getLsbD i then
        r.setByte (offset + i) (Ram.lane (replicate data size) i) else r) m =
      (List.range 8).foldl (fun r i => if Word.lane addr ≤ i ∧ i < Word.lane addr + size.bytes then
        r.setByte (offset + i) (Ram.lane data (i % size.bytes)) else r) m := by
    refine List.foldl_ext _ _ _ fun r i hi => ?_
    have hi := List.mem_range.mp hi
    rw [getLsbD_strobes _ _ hi, lane_replicate _ _ hi]
    simp only [decide_eq_true_eq]
  have hbytes : Sequential.bytesOf data size =
      (List.range' 0 size.bytes).map fun j => Ram.lane data j := by
    rw [Sequential.bytesOf, List.range_eq_range']
  have hset := setBytes_range' (Ram.lane data) (offset + Word.lane addr) 0 size.bytes m
  rw [Nat.add_zero] at hset
  unfold Ram.write?
  rw [if_pos hc, hfold, foldl_range _ hle, hbytes, hset]
  congr 1
  have hshift : List.range' (Word.lane addr) size.bytes =
      (List.range' 0 size.bytes).map (Word.lane addr + ·) := by
    rw [List.map_add_range', Nat.add_zero]
  rw [hshift, List.foldl_map]
  refine List.foldl_ext _ _ _ fun r j hj => ?_
  rw [List.mem_range'_1] at hj
  have hj : (Word.lane addr + j) % size.bytes = j := by
    rw [Nat.add_mod, hmod, Nat.zero_add, Nat.mod_mod, Nat.mod_eq_of_lt (by omega)]
  rw [hj, Nat.add_assoc]

end Lanes

end RiscvPipeline
