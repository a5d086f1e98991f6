import RiscvPipeline.Proofs.Memory.Lanes

/-!
# Memory, byte by byte

Requests name lanes of the doubleword around an address. `Ram.byte_write?` says what a write of some
lanes makes of every byte, and `DataMemory.offset?_alignDown` where the doubleword lies. From these,
a store sets the bytes of its access and no others, and a load shows the number in them
(`DataMemory.accesses_bytes`).
-/

namespace RiscvPipeline

/-! ## Regions -/

theorem MemoryConfig.aligned_of_fault? {c : MemoryConfig} (h : c.fault? = none) :
    c.size % 8 = 0 ∧ c.base.toNat % 8 = 0 := by
  by_contra hne
  have hor : c.size % 8 ≠ 0 ∨ c.base.toNat % 8 ≠ 0 := by rwa [← not_and_or]
  unfold fault? at h
  rw [if_pos hor] at h
  split at h <;> cases h

theorem Config.Valid.memory {c : Config} (h : c.Valid) : c.memory.fault? = none := by
  unfold Valid fault? at h
  split at h
  · cases h
  · split at h
    · cases h
    next hm => exact hm

theorem Config.Valid.aligned {c : Config} (h : c.Valid) :
    c.memory.size % 8 = 0 ∧ c.memory.base.toNat % 8 = 0 :=
  MemoryConfig.aligned_of_fault? h.memory

namespace DataMemory

variable (d : DataMemory)

/-- The address lies in the region of the memory. -/
def Contains (addr : Word) : Prop :=
  d.base.toNat ≤ addr.toNat ∧ addr.toNat < d.base.toNat + d.ram.size

instance (addr : Word) : Decidable (d.Contains addr) := inferInstanceAs (Decidable (_ ∧ _))

/-- The memory has the region of a configuration. Its contents are any. -/
structure Maps (c : MemoryConfig) : Prop where
  base : d.base = c.base
  size : d.ram.size = c.size

/-- The region consists of whole doublewords. -/
structure Aligned : Prop where
  base : d.base.toNat % 8 = 0
  size : d.ram.size % 8 = 0

variable {d}

theorem Maps.aligned {c : Config} (hc : c.Valid) (h : d.Maps c.memory) : d.Aligned := by
  obtain ⟨hs, hb⟩ := hc.aligned
  exact ⟨h.base ▸ hb, h.size ▸ hs⟩

/-- The doubleword around an address lies in the region if the address does. -/
theorem Aligned.offset?_alignDown (h : d.Aligned) (addr : Word) : d.offset? addr.alignDown =
    if d.Contains addr then some (addr.alignDown.toNat - d.base.toNat) else none := by
  have hb := h.base
  have hs := h.size
  have hdown := addr.toNat_alignDown
  unfold offset?
  by_cases hi : d.Contains addr
  · have hin := hi
    unfold Contains at hin
    rw [if_pos (by omega), if_pos hi]
  · have hout := hi
    unfold Contains at hout
    rw [if_neg (by omega), if_neg hi]

theorem Aligned.covers (h : d.Aligned) {addr : Word} (hi : d.Contains addr) :
    d.ram.covers (addr.alignDown.toNat - d.base.toNat) 8 = true := by
  have hb := h.base
  have hs := h.size
  have hdown := addr.toNat_alignDown
  unfold Contains at hi
  rw [Ram.covers, decide_eq_true_eq]
  omega

/-- The bytes of an aligned access are some of the doubleword around its address. -/
theorem Aligned.place (h : d.Aligned) {addr : Word} (hi : d.Contains addr) :
    addr.alignDown.toNat - d.base.toNat + Word.lane addr = addr.toNat - d.base.toNat := by
  have hb := h.base
  have hdown := addr.toNat_alignDown
  unfold Contains at hi
  unfold Word.lane
  omega

theorem Aligned.peek?_eq (h : d.Aligned) {addr : Word} (hi : d.Contains addr) : d.peek? addr =
    some (BitVec.ofNat 64 (d.ram.number (addr.alignDown.toNat - d.base.toNat) 8)) := by
  rw [peek?, h.offset?_alignDown, if_pos hi, Option.bind_some, Ram.read?, if_pos (h.covers hi)]

theorem Aligned.peek?_eq_none (h : d.Aligned) {addr : Word} (hi : ¬ d.Contains addr) :
    d.peek? addr = none := by
  rw [peek?, h.offset?_alignDown, if_neg hi, Option.bind_none]

end DataMemory

/-! ## Writes -/

namespace Ram

variable {m m' : Ram} {v : Word}

theorem write?_isSome_of_covers {offset : Nat} (h : m.covers offset 8 = true) (v : Word)
    (strobes : BitVec 8) : ∃ m', m.write? offset v strobes = some m' :=
  ⟨_, if_pos h⟩

/-- A write sets the bytes of the lanes that it names. -/
theorem byte_write? {offset : Nat} {strobes : BitVec 8}
    (h : m.write? offset v strobes = some m') (k : Nat) : m'.byte k =
      if offset ≤ k ∧ k < offset + 8 ∧ strobes.getLsbD (k - offset) = true then
        lane v (k - offset)
      else m.byte k := by
  have hfold (n : Nat) : ((List.range n).foldl (fun r i =>
      if strobes.getLsbD i then r.setByte (offset + i) (lane v i) else r) m).byte k =
        if offset ≤ k ∧ k < offset + n ∧ strobes.getLsbD (k - offset) = true then
          lane v (k - offset)
        else m.byte k := by
    induction n with
    | zero => rw [if_neg (by omega)]; rfl
    | succ n ih =>
      rw [List.range_succ, List.foldl_append, List.foldl_cons, List.foldl_nil]
      by_cases hk : offset + n = k
      · subst hk
        rw [Nat.add_sub_cancel_left] at ih ⊢
        cases hs : strobes.getLsbD n <;> simp [hs, ih]
      · have hlt : k < offset + (n + 1) ↔ k < offset + n := by omega
        simp only [hlt]
        rw [← ih]
        split
        · rw [byte_setByte, if_neg hk]
        · rfl
  unfold write? at h
  split at h
  · cases h
    exact hfold 8
  · cases h

theorem size_write? {offset : Nat} {strobes : BitVec 8}
    (h : m.write? offset v strobes = some m') : m'.size = m.size := by
  have hfold (l : List Nat) (r : Ram) : (l.foldl (fun r i =>
      if strobes.getLsbD i then r.setByte (offset + i) (lane v i) else r) r).size = r.size := by
    induction l generalizing r with
    | nil => rfl
    | cons i l ih =>
      rw [List.foldl_cons, ih]
      split <;> rfl
  unfold write? at h
  split at h
  · cases h
    exact hfold _ m
  · cases h

theorem size_written (o : Option Nat) (strobes : BitVec 8) :
    ((o.bind fun n => m.write? n v strobes).getD m).size = m.size := by
  cases o with
  | none => rfl
  | some n =>
    rw [Option.bind_some]
    cases hw : m.write? n v strobes with
    | none => rfl
    | some r => exact size_write? hw

theorem byte_setBytes (n : Nat) (l : List (BitVec 8)) (m : Ram) (k : Nat) :
    (setBytes n l m).byte k = if n ≤ k then l[k - n]?.getD (m.byte k) else m.byte k := by
  induction l generalizing n m with
  | nil =>
    rw [List.getElem?_nil, Option.getD_none, ite_self]
    rfl
  | cons b l ih =>
    rw [setBytes, ih, byte_setByte]
    rcases Nat.lt_trichotomy k n with hlt | rfl | hgt
    · rw [if_neg (by omega), if_neg (by omega), if_neg (by omega)]
    · rw [if_neg (by omega), if_pos rfl, if_pos (Nat.le_refl k), Nat.sub_self]
      rfl
    · obtain ⟨i, rfl⟩ : ∃ i, k = n + 1 + i := ⟨k - (n + 1), by omega⟩
      rw [if_pos (by omega), if_neg (by omega), if_pos (by omega), Nat.add_sub_cancel_left,
        show n + 1 + i - n = i + 1 by omega, List.getElem?_cons_succ]

theorem toNat_lane (v : Word) (i : Nat) : (lane v i).toNat = v.toNat / 256 ^ i % 256 := by
  rw [lane, BitVec.extractLsb'_toNat, Nat.shiftRight_eq_div_pow, Nat.pow_mul]

/-- The number in bytes that hold the low bytes of a value. -/
theorem number_eq_of_lanes {n k : Nat} (h : ∀ i < k, m.byte (n + i) = lane v i) :
    m.number n k = v.toNat % 256 ^ k := by
  induction k with
  | zero => rw [Nat.pow_zero, Nat.mod_one]; rfl
  | succ k ih =>
    have hlow := ih fun i hi => h i (Nat.lt_succ_of_lt hi)
    have hhigh : m.number (n + k) 1 = v.toNat / 256 ^ k % 256 := by
      rw [number, number, h k (Nat.lt_succ_self k), toNat_lane, Nat.mul_zero, Nat.add_zero]
    rw [number_add, hlow, hhigh, Nat.mod_pow_succ]

end Ram

/-! ## Loads and stores -/

/-- The low bytes of a value, as a load of that size shows them. -/
def Word.extend (signed : Bool) (size : AccessSize) (v : Word) : Word :=
  if signed then (v.setWidth size.bits).signExtend 64 else (v.setWidth size.bits).setWidth 64

theorem Sequential.loadBytes_eq_extend {m : Ram} {n : Nat} {size : AccessSize} {v : Word}
    (h : ∀ i < size.bytes, m.byte (n + i) = Ram.lane v i) (signed : Bool) :
    loadBytes m n size signed = v.extend signed size := by
  have hnum := Ram.number_eq_of_lanes h
  have hbits : 256 ^ size.bytes = 2 ^ size.bits := by rw [AccessSize.bits, Nat.pow_mul]
  have hlow : BitVec.ofNat size.bits (v.toNat % 2 ^ size.bits) = v.setWidth size.bits := by
    apply BitVec.eq_of_toNat_eq
    rw [BitVec.toNat_ofNat, BitVec.toNat_setWidth, Nat.mod_mod]
  unfold loadBytes Word.extend
  rw [hnum, hbits]
  cases signed with
  | true => rw [if_pos rfl, if_pos rfl, hlow]
  | false =>
    rw [if_neg Bool.false_ne_true, if_neg Bool.false_ne_true]
    apply BitVec.eq_of_toNat_eq
    rw [BitVec.toNat_ofNat, BitVec.toNat_setWidth, BitVec.toNat_setWidth]

namespace DataMemory

variable {d : DataMemory} {p : MemoryOp}

/-- A load shows the number in the bytes of its access. -/
theorem Aligned.load (h : d.Aligned) (ha : p.size.aligned p.addr = true) (hi : d.Contains p.addr) :
    ∃ w, d.peek? p.addr = some w ∧ (QueueEntry.ofMemoryOp p).loaded w =
      Sequential.loadBytes d.ram (p.addr.toNat - d.base.toNat) p.size p.signExtends := by
  obtain ⟨-, hle⟩ := Lanes.lane_of_aligned ((p.size.aligned_iff p.addr).1 ha)
  refine ⟨_, h.peek?_eq hi, ?_⟩
  rw [← h.place hi]
  exact Lanes.extract_number _ p.signExtends hle

/-- A store sets the bytes of its access to those of the value. -/
theorem Aligned.store (h : d.Aligned) (ha : p.size.aligned p.addr = true)
    (hi : d.Contains p.addr) :
    let e := QueueEntry.ofMemoryOp p
    let n := p.addr.toNat - d.base.toNat
    ∃ r, d.store? p.addr e.data e.strobes = some { d with ram := r } ∧ r.size = d.ram.size ∧
      ∀ k, r.byte k =
        if n ≤ k ∧ k < n + p.size.bytes then Ram.lane p.data (k - n) else d.ram.byte k := by
  intro e n
  have hw := Lanes.write_lanes p.data (h.covers hi) ((p.size.aligned_iff p.addr).1 ha)
  refine ⟨_, ?_, Ram.size_write? hw, fun k => ?_⟩
  · rw [store?, h.offset?_alignDown, if_pos hi, Option.bind_some]
    exact congrArg (Option.map _) hw
  rw [h.place hi, Ram.byte_setBytes, Sequential.bytesOf]
  by_cases hk : n ≤ k ∧ k < n + p.size.bytes
  · rw [if_pos hk.1, if_pos hk, List.getElem?_map, List.getElem?_range (by omega), Option.map_some,
      Option.getD_some]
  · rw [if_neg hk]
    split
    · rw [List.getElem?_eq_none (by rw [List.length_map, List.length_range]; omega), Option.getD_none]
    · rfl

/-- Every aligned access of the region is one of its bytes, lowest first: a load shows the number in
them, sign-extended or not, and a store sets them to the low bytes of its value and leaves all
others, so that the same access then loads the value. -/
theorem accesses_bytes {c : Config} (hc : c.Valid) (hd : d.Maps c.memory)
    (ha : p.size.aligned p.addr = true) (hi : d.Contains p.addr) :
    let e := QueueEntry.ofMemoryOp p
    let n := p.addr.toNat - d.base.toNat
    (∃ w, d.peek? p.addr = some w ∧
      e.loaded w = Sequential.loadBytes d.ram n p.size p.signExtends) ∧
    ∃ r, d.store? p.addr e.data e.strobes = some { d with ram := r } ∧ r.size = d.ram.size ∧
      (∀ k, r.byte k =
        if n ≤ k ∧ k < n + p.size.bytes then Ram.lane p.data (k - n) else d.ram.byte k) ∧
      ∃ w, peek? { d with ram := r } p.addr = some w ∧
        ∀ q : MemoryOp, q.addr = p.addr → q.size = p.size →
          (QueueEntry.ofMemoryOp q).loaded w = p.data.extend q.signExtends q.size := by
  intro e n
  have hal := hd.aligned hc
  obtain ⟨r, hr, hsize, hbytes⟩ := hal.store ha hi
  refine ⟨hal.load ha hi, r, hr, hsize, hbytes, ?_⟩
  have hal' : Aligned { d with ram := r } := ⟨hal.base, hsize ▸ hal.size⟩
  have hi' : Contains { d with ram := r } p.addr := by
    unfold Contains at hi ⊢
    rwa [hsize]
  refine ⟨_, hal'.peek?_eq hi', fun q haddr hqs => ?_⟩
  rw [← haddr, ← hqs] at ha
  rw [← haddr] at hi'
  obtain ⟨w, hw, hload⟩ := hal'.load ha hi'
  rw [hal'.peek?_eq hi', haddr] at hw
  rw [Option.some.inj hw, hload]
  refine Sequential.loadBytes_eq_extend (fun i hb => ?_) _
  show r.byte (q.addr.toNat - d.base.toNat + i) = _
  rw [hbytes, haddr]
  rw [hqs] at hb
  show (if n ≤ n + i ∧ n + i < n + p.size.bytes then _ else _) = _
  rw [if_pos ⟨Nat.le_add_right n i, Nat.add_lt_add_left hb n⟩, Nat.add_sub_cancel_left]

/-- A negative halfword in the upper half of the first doubleword of the default region. -/
theorem accesses_bytes_half :
    let c : Config := {}
    let d := ofConfig c.memory
    let p : MemoryOp :=
      { addr := c.memory.base + 6, size := .half, data := 0x778899, signExtends := true }
    let e := QueueEntry.ofMemoryOp p
    c.Valid ∧ d.Maps c.memory ∧ p.size.aligned p.addr = true ∧ d.Contains p.addr ∧
      ∃ r, d.store? p.addr e.data e.strobes = some { d with ram := r } ∧
        r.byte 5 = 0 ∧ r.byte 6 = 0x99 ∧ r.byte 7 = 0x88 ∧ r.byte 8 = 0 ∧
        ∃ w, peek? { d with ram := r } p.addr = some w ∧ e.loaded w = 0xffffffffffff8899 := by
  intro c d p e
  have hc : c.Valid := by decide
  have hd : d.Maps c.memory := ⟨rfl, rfl⟩
  have ha : p.size.aligned p.addr = true := by decide
  have hi : d.Contains p.addr := by decide
  obtain ⟨-, r, hr, -, hbytes, w, hw, hload⟩ := accesses_bytes hc hd ha hi
  refine ⟨hc, hd, ha, hi, r, hr, ?_, ?_, ?_, ?_, w, hw, ?_⟩
  · exact (hbytes 5).trans (by decide)
  · exact (hbytes 6).trans (by decide)
  · exact (hbytes 7).trans (by decide)
  · exact (hbytes 8).trans (by decide)
  · exact (hload p rfl rfl).trans (by decide)

end DataMemory

end RiscvPipeline
