import RiscvPipeline.Double.Basic

/-! The shortest decimal text that reads back as the same number, written without an exponent. -/

namespace RiscvPipeline.Decimal

/-- The decimals that read back as a positive number, as multiples of `1 / den`: they lie between
`lo` and `hi`, ends included if the significand is even. -/
structure Interval where
  lo : Nat
  value : Nat
  hi : Nat
  den : Nat
  ends : Bool

namespace Interval

/-- The interval of a positive finite number. The gap below a power of two is half the one
above it. -/
def ofDouble (x : Double) : Interval :=
  let ulp := 1 <<< (x.exponentField - 1)
  let below := if x.fraction = 0 ∧ 1 < x.exponentField then ulp else 2 * ulp
  ⟨4 * x.magnitude - below, 4 * x.magnitude, 4 * x.magnitude + 2 * ulp, 4 * Double.one,
    x.fraction % 2 = 0⟩

/-- The decimal `n / 10 ^ k` reads back. -/
def holds (i : Interval) (n k : Nat) : Bool :=
  let m := n * i.den
  let scale := Nat.pow 10 k
  if i.ends then i.lo * scale ≤ m && m ≤ i.hi * scale
  else i.lo * scale < m && m < i.hi * scale

/-- The neighbour of the value among the multiples of `step / 10 ^ k` that reads back, the nearer
one if both do, the upper one if both are equally near. -/
def onGrid? (i : Interval) (step k : Nat) : Option Nat :=
  let d := i.value * Nat.pow 10 k / (i.den * step)
  let lower := d * step
  let upper := (d + 1) * step
  match i.holds lower k, i.holds upper k with
  | true, true =>
    if 2 * i.value * Nat.pow 10 k < (lower + upper) * i.den then some lower else some upper
  | true, false => some lower
  | false, true => some upper
  | false, false => none

/-- The first hit on ever finer grids: multiples of `10 ^ zeros`, then ever more places. The result
is a count of units and the number of their places. -/
def search (i : Interval) : (zeros maxPlaces : Nat) → Nat × Nat
  | zeros + 1, places =>
    match i.onGrid? (Nat.pow 10 (zeros + 1)) 0 with
    | some n => (n, 0)
    | none => search i zeros places
  | 0, places =>
    let ks := List.range (places + 1)
    match ks.findSome? fun k => (i.onGrid? 1 k).map (·, k) with
    | some r => r
    | none => (0, 0)

end Interval

/-- A count of units of `10 ^ -k`, written with a point if there are places. -/
def positional (n k : Nat) : String :=
  let ds := toString n
  if k = 0 then ds
  else if k < ds.length then
    String.ofList (ds.toList.take (ds.length - k)) ++ "." ++
      String.ofList (ds.toList.drop (ds.length - k))
  else "0." ++ String.ofList (List.replicate (k - ds.length) '0') ++ ds

/-- The text of a number: the fewest digits that read back, nearest to the value. -/
def shortest (x : Double) : String :=
  if x.isNaN then "NaN"
  else
    (if x.negative then "-" else "") ++
      if x.isInfinite then "inf"
      else if x.isZero then "0"
      else
        let (n, k) := (Interval.ofDouble x).search 308 1074
        positional n k

end RiscvPipeline.Decimal
