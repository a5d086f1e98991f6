import Mathlib.Data.List.Basic
import RiscvPipeline.Proofs.Words
import RiscvPipeline.Vcd.Dump

/-!
# Reading a value change dump

What a viewer makes of the lines of a dump, from their text alone: the codes that the header
declares (`declaredCodes`), the marks of time (`isStamp`), and the value that every code has after
the lines so far (`replay`). A line of a dump reads as what was meant by it, and the lines are those
of the text that is written out (`lines_text`).
-/

namespace RiscvPipeline.Vcd

/-! ## Codes -/

/-- A code as a numeral in bijective base 94, the least significant digit first. -/
def numeral : List Char → Nat
  | [] => 0
  | c :: cs => c.toNat - '!'.toNat + 1 + radix * numeral cs

theorem toNat_digit (n : Nat) : (digit n).toNat = '!'.toNat + n % radix := by
  have h : n % radix < 94 := Nat.mod_lt n (by decide)
  have hv : ('!'.toNat + n % radix).isValidChar := .inl (show 33 + n % radix < 0xd800 by omega)
  rw [digit, Char.ofNat, dif_pos hv]
  rfl

theorem numeral_identifier (n : Nat) : numeral (identifier n) = n + 1 := by
  induction n using identifier.induct with
  | case1 n h =>
    rw [identifier, if_pos h]
    simp only [numeral, toNat_digit, Nat.mod_eq_of_lt h]
    omega
  | case2 n h ih =>
    rw [identifier, if_neg h]
    simp only [numeral, toNat_digit, ih]
    have hq : 1 ≤ n / radix := Nat.div_pos (Nat.not_lt.1 h) (by decide)
    have := Nat.div_add_mod n radix
    rw [Nat.sub_add_cancel hq]
    omega

theorem identifier_injective : Function.Injective identifier := by
  intro n m h
  have := congrArg numeral h
  rw [numeral_identifier, numeral_identifier] at this
  exact Nat.succ.inj this

theorem digit_printable (n : Nat) : '!' ≤ digit n ∧ digit n ≤ '~' := by
  have h : n % radix < 94 := Nat.mod_lt n (by decide)
  have hd : (digit n).toNat = 33 + n % radix := toNat_digit n
  constructor
  · change 33 ≤ (digit n).toNat
    omega
  · change (digit n).toNat ≤ 126
    omega

theorem identifier_printable (n : Nat) : ∀ c ∈ identifier n, '!' ≤ c ∧ c ≤ '~' := by
  induction n using identifier.induct with
  | case1 n h =>
    rw [identifier, if_pos h]
    simpa using digit_printable n
  | case2 n h ih =>
    rw [identifier, if_neg h]
    simpa using ⟨digit_printable n, ih⟩

theorem ne_blank_of_mem_identifier {n : Nat} {c : Char} (h : c ∈ identifier n) : c ≠ ' ' := by
  rintro rfl
  exact absurd (identifier_printable n _ h).1 (by decide)

theorem ne_blank_of_isDigit {c : Char} (h : c.isDigit = true) : c ≠ ' ' := by
  rintro rfl
  exact absurd h (by decide)

/-! ## Lines -/

/-- The characters before the first blank. -/
def field (cs : List Char) : List Char := cs.takeWhile (· ≠ ' ')

/-- The characters after the first blank. -/
def afterField (cs : List Char) : List Char := (cs.dropWhile (· ≠ ' ')).drop 1

section

variable {word : List Char} (h : ∀ c ∈ word, c ≠ ' ') (rest : List Char)

include h

theorem field_append : field (word ++ ' ' :: rest) = word := by
  unfold field
  rw [List.takeWhile_append_of_pos (by simpa using h)]
  simp

theorem afterField_append : afterField (word ++ ' ' :: rest) = rest := by
  unfold afterField
  rw [List.dropWhile_append_of_pos (by simpa using h)]
  simp

end

/-- The code in a line that declares a port. -/
def declaredCode? : List Char → Option (List Char)
  | '$' :: 'v' :: 'a' :: 'r' :: ' ' :: 'w' :: 'i' :: 'r' :: 'e' :: ' ' :: cs =>
    some (field (afterField cs))
  | _ => none

/-- The code and the new value in a line that reports a change. -/
def change? : List Char → Option (List Char × Nat)
  | '0' :: code => some (code, 0)
  | '1' :: code => some (code, 1)
  | 'b' :: cs => some (afterField cs, Nat.ofDigitChars 2 (field cs) 0)
  | _ => none

/-- Whether a line tells the time. -/
def isStamp (line : String) : Bool := line.toList.head? = some '#'

theorem declaredCode?_declaration (p : Port) (n : Nat) :
    declaredCode? (declaration p n).toList = some (identifier n) := by
  have hbits : ∀ c ∈ Nat.toDigits 10 p.bits, c ≠ ' ' := fun c hc =>
    ne_blank_of_isDigit (Nat.isDigit_of_mem_toDigits (by decide) (by decide) hc)
  have : (declaration p n).toList = '$' :: 'v' :: 'a' :: 'r' :: ' ' :: 'w' :: 'i' :: 'r' :: 'e' ::
      ' ' :: (Nat.toDigits 10 p.bits ++ ' ' :: (identifier n ++ ' ' :: (p.name.toList ++
        " $end".toList))) := by
    simp [declaration]
  rw [this, declaredCode?, afterField_append hbits,
    field_append fun c => ne_blank_of_mem_identifier]

/-! ## Values -/

/-- What a port shows of a value, as a number. -/
def Port.reading (p : Port) (raw : Word) : Nat := raw.toNat % 2 ^ p.bits

theorem Port.bits_le (p : Port) : p.bits ≤ 64 := Nat.min_le_right _ _

theorem Port.toNat_shown (p : Port) (raw : Word) : (p.shown raw).toNat = p.reading raw := by
  have h : raw.toNat % 2 ^ p.bits < 2 ^ 64 :=
    (Nat.mod_lt _ (Nat.two_pow_pos _)).trans_le (Nat.pow_le_pow_right (by decide) p.bits_le)
  rw [shown, Word.and_mask_eq raw p.bits_le, BitVec.toNat_setWidth, BitVec.toNat_setWidth,
    Nat.mod_eq_of_lt h, reading]

theorem change?_scalar {n : Nat} {v : Word} (h : v.toNat < 2) :
    change? (Line.scalar n v).render.toList = some (identifier n, v.toNat) := by
  rcases Nat.lt_succ_iff_lt_or_eq.1 h with h0 | h1
  · have h0 : v.toNat = 0 := by omega
    simp only [Line.render, h0, String.toList_append, String.toList_ofList]
    rfl
  · simp only [Line.render, h1, String.toList_append, String.toList_ofList]
    rfl

theorem change?_vector (n : Nat) (v : Word) :
    change? (Line.vector n v).render.toList = some (identifier n, v.toNat) := by
  have hdigits : ∀ c ∈ Nat.toDigits 2 v.toNat, c ≠ ' ' := fun c hc =>
    ne_blank_of_isDigit (Nat.isDigit_of_mem_toDigits (by decide) (by decide) hc)
  have : (Line.vector n v).render.toList =
      'b' :: (Nat.toDigits 2 v.toNat ++ ' ' :: identifier n) := by
    simp [Line.render, Text.binaryDigits]
  rw [this, change?, afterField_append hdigits, field_append hdigits,
    Nat.ofDigitChars_toDigits (by decide) (by decide)]

/-- The line that reports a value reads as the code of the port and what the port shows of it. -/
theorem change?_change (c : Channel) (raw : Word) :
    change? (c.change (c.port.shown raw)).render.toList =
      some (identifier c.position, c.port.reading raw) := by
  rw [← c.port.toNat_shown]
  unfold Channel.change
  split
  next h =>
    refine change?_scalar ?_
    rw [c.port.toNat_shown, Port.reading, h]
    exact Nat.mod_lt _ (by decide)
  next => exact change?_vector _ _

/-- How the lines of the body begin. -/
theorem head_render (line : Line) : ∃ c, line.render.toList.head? = some c ∧ c ≠ '$' ∧
    (c = '#' ↔ ∃ t, line = .time t) := by
  cases line with
  | time t => exact ⟨'#', by simp [Line.render], by decide, by simp⟩
  | vector n v => exact ⟨'b', by simp [Line.render], by decide, by simp⟩
  | scalar n v =>
    obtain ⟨c, cs, hcs⟩ := List.exists_cons_of_ne_nil (Nat.toDigits_ne_nil (n := v.toNat) (b := 10))
    have hc : c.isDigit = true :=
      Nat.isDigit_of_mem_toDigits (by decide) (by decide) (hcs ▸ List.mem_cons_self)
    refine ⟨c, by simp [Line.render, hcs], ?_, ?_⟩
    · rintro rfl
      exact absurd hc (by decide)
    · refine iff_of_false ?_ (by simp)
      rintro rfl
      exact absurd hc (by decide)

theorem isStamp_render (line : Line) : isStamp line.render = true ↔ ∃ t, line = .time t := by
  obtain ⟨c, hc, -, hiff⟩ := head_render line
  rw [← hiff]
  simp [isStamp, hc]

theorem declaredCode?_render (line : Line) : declaredCode? line.render.toList = none := by
  obtain ⟨c, hc, hne, -⟩ := head_render line
  obtain ⟨cs, hcs⟩ := List.head?_eq_some_iff.1 hc
  rw [hcs]
  unfold declaredCode?
  split
  next h => exact absurd (List.cons.inj h).1 hne
  next => rfl

theorem change?_time (t : Nat) : change? (Line.time t).render.toList = none := by
  simp [Line.render, change?]

/-! ## Replay -/

/-- The values of the codes, as far as they are known. -/
abbrev Values := List Char → Option Nat

/-- What is known after a line. -/
def Values.read (v : Values) (line : String) : Values :=
  match change? line.toList with
  | some (code, x) => fun c => if c = code then some x else v c
  | none => v

def Values.readAll (v : Values) (lines : List String) : Values := lines.foldl read v

/-- What is known after lines to someone who knows nothing before. -/
def replay (lines : List String) : Values := Values.readAll (fun _ => none) lines

/-- The codes that lines declare. -/
def declaredCodes (lines : List String) : List (List Char) :=
  lines.filterMap fun l => declaredCode? l.toList

theorem Values.readAll_append (v : Values) (ls ms : List String) :
    v.readAll (ls ++ ms) = (v.readAll ls).readAll ms := List.foldl_append

theorem Values.read_of_none (v : Values) {line : String} (h : change? line.toList = none) :
    v.read line = v := by
  simp [read, h]

theorem Values.readAll_of_none (v : Values) {lines : List String}
    (h : ∀ l ∈ lines, change? l.toList = none) : v.readAll lines = v := by
  induction lines generalizing v with
  | nil => rfl
  | cons l ls ih =>
    rw [List.forall_mem_cons] at h
    show (v.read l).readAll ls = v
    rw [v.read_of_none h.1, ih v h.2]

/-! ## The header -/

/-- All lines of a header begin alike, so that none of them is taken for a line of the body. -/
theorem head_header {scope : String} {ports : List Port} {line : String}
    (h : line ∈ header scope ports) : line.toList.head? = some '$' := by
  simp only [header, List.mem_append, List.mem_cons, List.mem_map, List.not_mem_nil, or_false] at h
  rcases h with ((rfl | rfl) | ⟨⟨p, n⟩, -, rfl⟩) | rfl | rfl <;> simp [declaration]

theorem change?_header {scope : String} {ports : List Port} :
    ∀ l ∈ header scope ports, change? l.toList = none := by
  intro l hl
  obtain ⟨cs, hcs⟩ := List.head?_eq_some_iff.1 (head_header hl)
  rw [hcs]
  rfl

theorem isStamp_header {scope : String} {ports : List Port} :
    ∀ l ∈ header scope ports, isStamp l = false := by
  intro l hl
  simp [isStamp, head_header hl]

theorem declaredCodes_declarations (ports : List (Port × Nat)) :
    declaredCodes (ports.map fun (p, n) => declaration p n) =
      (ports.map Prod.snd).map identifier := by
  induction ports with
  | nil => rfl
  | cons x xs ih =>
    unfold declaredCodes at ih ⊢
    rw [List.map_cons, List.filterMap_cons, declaredCode?_declaration, ih]
    rfl

theorem declaredCodes_header (scope : String) (ports : List Port) :
    declaredCodes (header scope ports) = (List.range ports.length).map identifier := by
  have h := declaredCodes_declarations ports.zipIdx
  rw [List.zipIdx_map_snd, ← List.range_eq_range'] at h
  rw [← h]
  simp [header, declaredCodes, declaredCode?]

/-! ## The text -/

theorem blank_le_of_isDigit {c : Char} (h : c.isDigit = true) : ' ' ≤ c := by
  rw [Char.isDigit, Bool.and_eq_true, decide_eq_true_eq] at h
  exact Char.le_trans (show ' ' ≤ '0' by decide) (Char.le_def.2 h.1)

theorem blank_le_of_mem_digits {b n : Nat} (hb : 0 < b) (hb' : b ≤ 10) :
    ∀ c ∈ Nat.toDigits b n, ' ' ≤ c :=
  fun _ hc => blank_le_of_isDigit (Nat.isDigit_of_mem_toDigits hb hb' hc)

theorem blank_le_of_mem_identifier {n : Nat} : ∀ c ∈ identifier n, ' ' ≤ c :=
  fun c hc => Char.le_trans (show ' ' ≤ '!' by decide) (identifier_printable n c hc).1

/-- There is no control character in the body. -/
theorem blank_le_of_mem_render (line : Line) : ∀ c ∈ line.render.toList, ' ' ≤ c := by
  cases line with
  | time t =>
    have : (Line.time t).render.toList = '#' :: Nat.toDigits 10 t := by simp [Line.render]
    rw [this, List.forall_mem_cons]
    exact ⟨by decide, blank_le_of_mem_digits (by decide) (by decide)⟩
  | scalar n v =>
    have : (Line.scalar n v).render.toList = Nat.toDigits 10 v.toNat ++ identifier n := by
      simp [Line.render]
    rw [this, List.forall_mem_append]
    exact ⟨blank_le_of_mem_digits (by decide) (by decide), blank_le_of_mem_identifier⟩
  | vector n v =>
    have : (Line.vector n v).render.toList =
        'b' :: (Nat.toDigits 2 v.toNat ++ ' ' :: identifier n) := by
      simp [Line.render, Text.binaryDigits]
    rw [this, List.forall_mem_cons, List.forall_mem_append, List.forall_mem_cons]
    exact ⟨by decide, blank_le_of_mem_digits (by decide) (by decide), Char.le_refl _,
      blank_le_of_mem_identifier⟩

theorem unbroken_render (line : Line) : Text.Unbroken line.render where
  newline h := absurd (blank_le_of_mem_render line _ h) (by decide)
  ending h := absurd (blank_le_of_mem_render line _ (List.mem_of_getLast? h)) (by decide)

/-- Every line of a header ends with the same word. -/
theorem unbroken_end (start : String) (h : '\n' ∉ start.toList) :
    Text.Unbroken (start ++ " $end") where
  newline := by simpa using h
  ending := by simp [List.getLast?_append]

theorem unbroken_declaration {p : Port} (h : '\n' ∉ p.name.toList) (n : Nat) :
    Text.Unbroken (declaration p n) := by
  refine unbroken_end _ ?_
  have hbits : '\n' ∉ Nat.toDigits 10 p.bits := fun hm =>
    absurd (blank_le_of_mem_digits (by decide) (by decide) _ hm) (by decide)
  have hcode : '\n' ∉ identifier n := fun hm => absurd (blank_le_of_mem_identifier _ hm) (by decide)
  simp [h, hbits, hcode]

theorem unbroken_header {scope : String} {ports : List Port} (hs : '\n' ∉ scope.toList)
    (hp : ∀ p ∈ ports, '\n' ∉ p.name.toList) : ∀ l ∈ header scope ports, Text.Unbroken l := by
  intro l hl
  simp only [header, List.mem_append, List.mem_cons, List.mem_map, List.not_mem_nil, or_false] at hl
  rcases hl with ((rfl | rfl) | ⟨⟨p, n⟩, hpn, rfl⟩) | rfl | rfl
  · exact unbroken_end "$timescale 1ns" (by decide)
  · exact unbroken_end _ (by simpa using hs)
  · exact unbroken_declaration (hp p (List.fst_mem_of_mem_zipIdx hpn)) n
  · exact unbroken_end "$upscope" (by decide)
  · exact unbroken_end "$enddefinitions" (by decide)

/-- The lines of the text are the lines of the dump, unless a name runs over its line. -/
theorem lines_text (d : Vcd) (hs : '\n' ∉ d.scope.toList)
    (hp : ∀ p ∈ d.ports, '\n' ∉ p.name.toList) : Text.lines d.text = d.lines := by
  refine Text.lines_unlines fun l hl => ?_
  rcases List.mem_append.1 hl with hl | hl
  · exact unbroken_header hs hp l hl
  · obtain ⟨line, -, rfl⟩ := List.mem_map.1 hl
    exact unbroken_render line

end RiscvPipeline.Vcd
