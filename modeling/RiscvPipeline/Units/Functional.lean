import RiscvPipeline.Units.Latency

/-! The units that can serve a slot. -/

namespace RiscvPipeline

inductive FunctionalUnit
  /-- A unit that answers after a fixed number of cycles. -/
  | latency (unit : LatencyUnit)
  /-- A unit that never answers. -/
  | stuck
  /-- A unit that answers differently every time it is evaluated, so that nothing settles. -/
  | unstable
  deriving DecidableEq

namespace FunctionalUnit

/-- The answer depends on the registers of the unit alone. -/
def isStable : FunctionalUnit → Bool
  | unstable => false
  | _ => true

/-- The answer of this cycle. Units without a latency have none. -/
def response : FunctionalUnit → UnitRequest → UnitResponse
  | latency u, q => LatencyUnit.clocked.output u q
  | _, _ => {}

/-- The unit after the clock edge. -/
def next (reset : Bool) (q : UnitRequest) : FunctionalUnit → FunctionalUnit
  | latency u => latency (LatencyUnit.clocked.next reset u q)
  | u => u

/-- The unit after an immediate reset. -/
def reset : FunctionalUnit → FunctionalUnit
  | latency u => latency (LatencyUnit.clocked.reset u)
  | u => u

end FunctionalUnit

end RiscvPipeline
