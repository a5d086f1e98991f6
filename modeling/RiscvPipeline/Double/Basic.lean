import RiscvPipeline.Word

/-! Binary floating-point numbers of 64 bits, with arithmetic that rounds to the nearest number
and to the even one of two neighbours equally near. Every finite number is a whole multiple of
the least positive one, 2^-1074, so exact values are integers counted in that unit. -/

namespace RiscvPipeline

/-- A double-precision number, as its bit pattern. -/
structure Double where
  bits : Word
  deriving DecidableEq, Inhabited

namespace Double

/-- Numbers from here on are normal: the least of them is 2^52 units. -/
def normalBound : Nat := 1 <<< 52

/-- The number one, counted in units. -/
def one : Nat := 1 <<< 1074

/-- The bit pattern of positive infinity. -/
def infinityBits : Nat := 2047 <<< 52

def negative (x : Double) : Bool := x.bits.msb

def exponentField (x : Double) : Nat := (x.bits.extractLsb' 52 11).toNat

def fraction (x : Double) : Nat := (x.bits.extractLsb' 0 52).toNat

def isFinite (x : Double) : Bool := x.exponentField != 2047

def isInfinite (x : Double) : Bool := x.exponentField == 2047 && x.fraction == 0

def isNaN (x : Double) : Bool := x.exponentField == 2047 && x.fraction != 0

/-- A NaN whose quiet bit is clear. -/
def isSignaling (x : Double) : Bool := x.isNaN && x.fraction < 1 <<< 51

/-- The absolute value of a finite number, in units. Infinity lies above all of them. -/
def magnitude (x : Double) : Nat :=
  if x.exponentField = 0 then x.fraction
  else (normalBound + x.fraction) <<< (x.exponentField - 1)

/-- The value of a finite number, in units. -/
def units (x : Double) : Int := if x.negative then -(x.magnitude : Int) else x.magnitude

/-- The number with the given sign whose other bits spell `n`. -/
def ofBits (negative : Bool) (n : Nat) : Double :=
  ⟨BitVec.ofBool negative ++ BitVec.ofNat 63 n⟩

def canonicalNaN : Double := ⟨0x7ff8000000000000⟩

def zero (negative : Bool) : Double := ofBits negative 0

def infinity (negative : Bool) : Double := ofBits negative infinityBits

/-- The nearest whole number to a quotient, the even one of two. -/
def nearestEven (num den : Nat) : Nat :=
  let q := num / den
  let r := num % den
  if 2 * r < den then q else if den < 2 * r then q + 1 else q + q % 2

/-- The nearest number to `num / den` units. The quotient keeps 53 significant bits; as the bit
patterns of positive numbers are ordered like the numbers, a carry out of the significand needs no
care, and everything past the greatest finite number is infinity. -/
def ofRatio (negative : Bool) (num den : Nat) : Double :=
  let drop := (num / den).log2 - 52
  ofBits negative (min (drop <<< 52 + nearestEven num (den <<< drop)) infinityBits)

/-- The nearest number to an integer. -/
def ofInt (n : Int) : Double := ofRatio (n < 0) (n.natAbs * one) 1

def neg (x : Double) : Double := ⟨x.bits ^^^ 0x8000000000000000⟩

/-- The nearest number to an exact result of `num / den` units, where a zero takes the given
sign. -/
def round (zeroSign : Bool) (num : Int) (den : Nat) : Double :=
  if num = 0 then zero zeroSign else ofRatio (num < 0) num.natAbs den

def add (a b : Double) : Double :=
  if a.isNaN || b.isNaN then canonicalNaN
  else if a.isInfinite then
    if b.isInfinite && a.negative != b.negative then canonicalNaN else a
  else if b.isInfinite then b
  else round (a.negative && b.negative) (a.units + b.units) 1

def sub (a b : Double) : Double := add a b.neg

def mul (a b : Double) : Double :=
  let sign := a.negative != b.negative
  if a.isNaN || b.isNaN then canonicalNaN
  else if a.isInfinite || b.isInfinite then
    if a.magnitude = 0 || b.magnitude = 0 then canonicalNaN else infinity sign
  else round sign (a.units * b.units) one

def div (a b : Double) : Double :=
  let sign := a.negative != b.negative
  if a.isNaN || b.isNaN then canonicalNaN
  else if a.isInfinite then if b.isInfinite then canonicalNaN else infinity sign
  else if b.isInfinite then zero sign
  else if b.magnitude = 0 then if a.magnitude = 0 then canonicalNaN else infinity sign
  else if a.magnitude = 0 then zero sign
  else ofRatio sign (a.magnitude * one) b.magnitude

/-- `a * b + c` with a single rounding. -/
def mulAdd (a b c : Double) : Double :=
  let sign := a.negative != b.negative
  if a.isNaN || b.isNaN || c.isNaN then canonicalNaN
  else if a.isInfinite || b.isInfinite then
    if a.magnitude = 0 || b.magnitude = 0 || (c.isInfinite && c.negative != sign) then canonicalNaN
    else infinity sign
  else if c.isInfinite then c
  else round (sign && c.negative) (a.units * b.units + c.units * one) one

/-- Equality of values: zeros are equal whatever their sign, and a NaN equals nothing. -/
def eq (a b : Double) : Bool := !a.isNaN && !b.isNaN && a.units == b.units

def lt (a b : Double) : Bool := !a.isNaN && !b.isNaN && a.units < b.units

def le (a b : Double) : Bool := !a.isNaN && !b.isNaN && a.units ≤ b.units

/-- The value is zero. -/
def isZero (x : Double) : Bool := x.magnitude == 0

/-- Every NaN is replaced by one and the same. -/
def canonical (x : Double) : Double := if x.isNaN then canonicalNaN else x

/-- The lesser number; of two zeros the negative one, and a number rather than a NaN. -/
def min (a b : Double) : Double :=
  if a.isNaN then b.canonical
  else if b.isNaN then a
  else if b.units < a.units || (b.units == a.units && b.negative) then b else a

/-- The greater number; of two zeros the positive one, and a number rather than a NaN. -/
def max (a b : Double) : Double :=
  if a.isNaN then b.canonical
  else if b.isNaN then a
  else if a.units < b.units || (b.units == a.units && a.negative) then b else a

/-- The integer part of a finite number. -/
def trunc (x : Double) : Int := x.units.tdiv one

/-- A finite number without a fractional part. -/
def isIntegral (x : Double) : Bool := x.magnitude % one == 0

end Double

end RiscvPipeline
