import RiscvPipeline.Text.Hex

/-! JSON documents and their reader. The reader keeps what a document's users tell apart: whether a
number is written as an integer, and whether a string spells text at all, since escapes can spell
lone surrogates. -/

namespace RiscvPipeline

/-- A string of a document. -/
structure Quoted where
  /-- The text, unless an escape spells half of a surrogate pair. -/
  text? : Option String
  /-- It is written without escapes. -/
  plain : Bool

/-- A JSON value. -/
inductive Json
  | null
  | bool (b : Bool)
  /-- A number written as digits, with a sign if it is negative. -/
  | integer (n : Int)
  /-- Any other number. Negative zero is one, as no integer is written so. -/
  | decimal (lexeme : String)
  | string (s : Quoted)
  | array (items : List Json)
  | object (entries : List (Quoted × Json))

namespace Json

instance : Inhabited Json := ⟨null⟩

/-- Drops the blanks that may stand between tokens. -/
def skipBlank : List Char → List Char
  | c :: r => if c = ' ' ∨ c = '\t' ∨ c = '\n' ∨ c = '\r' then skipBlank r else c :: r
  | [] => []

/-- A piece of a string: a character, or half of a surrogate pair. -/
inductive Piece
  | char (c : Char)
  | surrogate (unit : Nat)

namespace Piece

/-- The piece that a four-digit escape spells. -/
def ofUnit (n : Nat) : Piece :=
  if 0xD800 ≤ n ∧ n ≤ 0xDFFF then surrogate n else char (Char.ofNat n)

/-- Joins surrogate pairs; a half without its other half is refused. -/
def join : List Piece → Option (List Char)
  | [] => some []
  | char c :: r => (join r).map (c :: ·)
  | surrogate h :: surrogate l :: r =>
    if h < 0xDC00 ∧ 0xDC00 ≤ l then
      (join r).map (Char.ofNat (0x10000 + (h - 0xD800) * 0x400 + (l - 0xDC00)) :: ·)
    else none
  | [surrogate _] | surrogate _ :: char _ :: _ => none

end Piece

/-- What a one-letter escape stands for. -/
def escapeChar? : Char → Option Char
  | '"' => some '"'
  | '\\' => some '\\'
  | '/' => some '/'
  | 'b' => some '\x08'
  | 'f' => some '\x0c'
  | 'n' => some '\n'
  | 'r' => some '\r'
  | 't' => some '\t'
  | _ => none

/-- Reads the rest of a string, up to its closing mark. Control characters must be escaped. -/
def stringRest (pieces : List Piece) (plain : Bool) : List Char → Option (Quoted × List Char)
  | [] => none
  | '"' :: r => some (⟨(Piece.join pieces.reverse).map String.ofList, plain⟩, r)
  | '\\' :: 'u' :: a :: b :: c :: d :: r =>
    match Text.hexValue? a, Text.hexValue? b, Text.hexValue? c, Text.hexValue? d with
    | some a, some b, some c, some d =>
      stringRest (Piece.ofUnit (((a * 16 + b) * 16 + c) * 16 + d) :: pieces) false r
    | _, _, _, _ => none
  | '\\' :: e :: r =>
    match escapeChar? e with
    | some c => stringRest (.char c :: pieces) false r
    | none => none
  | '\\' :: [] => none
  | c :: r => if c < ' ' then none else stringRest (.char c :: pieces) plain r

/-- Splits off the leading digits. -/
def digits (cs : List Char) : List Char × List Char := cs.span Char.isDigit

/-- The integer part of a number: zero alone, or digits that do not start with zero. -/
def integerPart : List Char → Option (List Char × List Char)
  | '0' :: r => some (['0'], r)
  | cs =>
    match digits cs with
    | ([], _) => none
    | (ds, r) => some (ds, r)

/-- The fractional part, if there is one; a point needs a digit behind it. -/
def fractionPart : List Char → Option (List Char × List Char)
  | '.' :: r =>
    match digits r with
    | ([], _) => none
    | (ds, r) => some ('.' :: ds, r)
  | r => some ([], r)

/-- The digits of an exponent, behind its mark and sign. -/
def exponentDigits (mark : List Char) (cs : List Char) : Option (List Char × List Char) :=
  match digits cs with
  | ([], _) => none
  | (ds, r) => some (mark ++ ds, r)

/-- The exponent, if there is one. -/
def exponentPart : List Char → Option (List Char × List Char)
  | e :: s :: r =>
    if e = 'e' ∨ e = 'E' then
      if s = '+' ∨ s = '-' then exponentDigits [e, s] r else exponentDigits [e] (s :: r)
    else some ([], e :: s :: r)
  | [e] => if e = 'e' ∨ e = 'E' then none else some ([], [e])
  | [] => some ([], [])

/-- Splits off a minus sign. -/
def sign : List Char → Bool × List Char
  | '-' :: r => (true, r)
  | r => (false, r)

/-- The number that decimal digits spell. -/
def ofDigits (ds : List Char) : Nat := ds.foldl (fun n d => n * 10 + (d.toNat - '0'.toNat)) 0

/-- Reads a number. -/
def number (cs : List Char) : Option (Json × List Char) := do
  let (negative, r) := sign cs
  let (whole, r) ← integerPart r
  let (fraction, r) ← fractionPart r
  let (exponent, r) ← exponentPart r
  if fraction.isEmpty && exponent.isEmpty && !(negative && whole == ['0']) then
    let n := ofDigits whole
    return (integer (if negative then -n else n), r)
  else
    let mark := if negative then ['-'] else []
    return (decimal (String.ofList (mark ++ whole ++ fraction ++ exponent)), r)

mutual

/-- Reads a value. The fuel bounds the number of nested steps. -/
def value (fuel : Nat) (cs : List Char) : Option (Json × List Char) :=
  match fuel with
  | 0 => none
  | fuel + 1 =>
    match skipBlank cs with
    | 'n' :: 'u' :: 'l' :: 'l' :: r => some (null, r)
    | 't' :: 'r' :: 'u' :: 'e' :: r => some (bool true, r)
    | 'f' :: 'a' :: 'l' :: 's' :: 'e' :: r => some (bool false, r)
    | '"' :: r => (stringRest [] true r).map fun (s, r) => (string s, r)
    | '[' :: r =>
      match skipBlank r with
      | ']' :: r => some (array [], r)
      | r => elements fuel [] r
    | '\x7b' :: r =>
      match skipBlank r with
      | '\x7d' :: r => some (object [], r)
      | r => members fuel [] r
    | r => number r

/-- Reads the elements of an array up to its end. -/
def elements (fuel : Nat) (items : List Json) (cs : List Char) : Option (Json × List Char) :=
  match fuel with
  | 0 => none
  | fuel + 1 =>
    match value fuel cs with
    | none => none
    | some (v, r) =>
      match skipBlank r with
      | ',' :: r => elements fuel (v :: items) r
      | ']' :: r => some (array (v :: items).reverse, r)
      | _ => none

/-- Reads the members of an object up to its end. -/
def members (fuel : Nat) (entries : List (Quoted × Json)) (cs : List Char) :
    Option (Json × List Char) :=
  match fuel with
  | 0 => none
  | fuel + 1 =>
    match skipBlank cs with
    | '"' :: r =>
      match stringRest [] true r with
      | none => none
      | some (key, r) =>
        match skipBlank r with
        | ':' :: r =>
          match value fuel r with
          | none => none
          | some (v, r) =>
            match skipBlank r with
            | ',' :: r => members fuel ((key, v) :: entries) r
            | '\x7d' :: r => some (object ((key, v) :: entries).reverse, r)
            | _ => none
        | _ => none
    | _ => none

end

/-- Reads a document: one value with nothing but blanks around it. A value of `n` characters takes
at most `2 * n` nested steps. -/
def parse (s : String) : Option Json :=
  match value (2 * s.length + 2) s.toList with
  | some (v, r) => if (skipBlank r).isEmpty then some v else none
  | none => none

end Json

end RiscvPipeline
