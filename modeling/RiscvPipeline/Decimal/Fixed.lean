import RiscvPipeline.Double.Basic
import RiscvPipeline.Text.Hex

/-! Decimal text with a fixed number of places. -/

namespace RiscvPipeline.Decimal

/-- A count of units of `10 ^ -places`, written with a point. -/
def placed (places n : Nat) : String :=
  if places = 0 then toString n
  else
    let scale := Nat.pow 10 places
    toString (n / scale) ++ "." ++ Text.padLeft '0' places (toString (n % scale))

/-- The exact value of a finite number, rounded to `places` decimals, a half to the even
neighbour. -/
def fixed (places : Nat) (x : Double) : String :=
  (if x.negative then "-" else "") ++
    placed places (Double.nearestEven (x.magnitude * Nat.pow 10 places) Double.one)

end RiscvPipeline.Decimal
