import RiscvPipeline.Clocked
import RiscvPipeline.Datapath.Fpu
import RiscvPipeline.Datapath.MulDiv
import RiscvPipeline.Signals

/-! Functional units that answer after a fixed number of cycles. -/

namespace RiscvPipeline

/-- The result and flags of an operation on a functional unit. -/
def Slot.evaluate (s : Slot) (o : Opcode) (a b : Word) : Word × FpFlags :=
  match s with
  | .mul | .div => (MulDiv.execute o a b, .none)
  | .fpu => Fpu.execute o a b

namespace LatencyUnit

structure State where
  busy : Bool := false
  /-- The cycles until the answer, while busy. -/
  remaining : Nat := 0
  valid : Bool := false
  result : Word := 0
  flags : FpFlags := .none
  deriving DecidableEq

end LatencyUnit

structure LatencyUnit where
  slot : Slot
  latency : Nat
  state : LatencyUnit.State := {}
  deriving DecidableEq

namespace LatencyUnit

/-- A unit that takes at least one cycle. -/
def new (slot : Slot) (latency : Nat) : LatencyUnit := { slot, latency := max latency 1 }

variable (u : LatencyUnit)

/-- The answer of this cycle. Result and flags are zero without one. -/
def response : UnitResponse :=
  { busy := u.state.busy
    valid := u.state.valid
    result := if u.state.valid then u.state.result else 0
    flags := if u.state.valid then u.state.flags else .none }

/-- Starts an operation. -/
def start (o : Opcode) (a b : Word) : State :=
  let (result, flags) := u.slot.evaluate o a b
  if u.latency = 1 then { u.state with valid := true, result, flags }
  else { u.state with valid := false, busy := true, remaining := u.latency - 1, result, flags }

/-- The next state. A request is ignored while an operation is under way. -/
def propose (q : UnitRequest) : State :=
  if u.state.busy then
    if u.state.remaining ≤ 1 then { u.state with busy := false, valid := true }
    else { u.state with valid := false, remaining := u.state.remaining - 1 }
  else
    match q.enable, q.opcode with
    | true, some o => u.start o q.a q.b
    | _, _ => { u.state with valid := false }

def clocked : Clocked LatencyUnit UnitRequest UnitResponse State where
  output u _ := u.response
  propose := propose
  hold u := u.state
  edge u p := { u with state := p }
  reset u := { u with state := {} }

end LatencyUnit

end RiscvPipeline
