/-! Numbers in hexadecimal and binary notation. -/

namespace RiscvPipeline.Text

/-- The lower-case hexadecimal digits of a number, without leading zeros. -/
def hexDigits (n : Nat) : String := String.ofList (Nat.toDigits 16 n)

/-- The hexadecimal form with its `0x` mark. -/
def hex (n : Nat) : String := "0x" ++ hexDigits n

/-- Fills with `fill` on the left up to `width` characters. -/
def padLeft (fill : Char) (width : Nat) (s : String) : String :=
  String.ofList (List.replicate (width - s.length) fill) ++ s

/-- Fills with blanks on the right up to `width` characters. -/
def padRight (width : Nat) (s : String) : String :=
  s ++ String.ofList (List.replicate (width - s.length) ' ')

/-- All sixteen hexadecimal digits of a word, with the mark. -/
def hexWord (n : Nat) : String := "0x" ++ padLeft '0' 16 (hexDigits n)

/-- The binary digits of a number, without leading zeros. -/
def binaryDigits (n : Nat) : String := String.ofList (Nat.toDigits 2 n)

/-- The value of a hexadecimal digit of either case. -/
def hexValue? (c : Char) : Option Nat :=
  if '0' ≤ c ∧ c ≤ '9' then some (c.toNat - '0'.toNat)
  else if 'a' ≤ c ∧ c ≤ 'f' then some (c.toNat - 'a'.toNat + 10)
  else if 'A' ≤ c ∧ c ≤ 'F' then some (c.toNat - 'A'.toNat + 10)
  else none

end RiscvPipeline.Text
