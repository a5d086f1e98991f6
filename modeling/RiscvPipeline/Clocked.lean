import RiscvPipeline.Word

/-! Clocked components. Within a cycle everything a component drives, and everything it proposes
for the next one, is a function of its registered state and its inputs; evaluating it any number
of times changes nothing. The clock edge then takes over the last proposal. -/

namespace RiscvPipeline

/-- A component with state `σ`, inputs `ι`, outputs `ο` and proposals `π`. -/
structure Clocked (σ ι ο π : Type) where
  /-- What it drives during a cycle. -/
  output : σ → ι → ο
  /-- What it proposes for the next cycle. -/
  propose : σ → ι → π
  /-- The proposal to stay as it is. -/
  hold : σ → π
  /-- The clock edge with reset low. -/
  edge : σ → π → σ
  /-- The state after a clock edge with reset high, or after an immediate reset. -/
  reset : σ → σ

namespace Clocked

variable {σ ι ο π : Type}

/-- A component between two clock edges, with the proposal of its last evaluation. -/
structure Bench (σ π : Type) where
  state : σ
  pending : π

variable (m : Clocked σ ι ο π)

/-- A component on which nothing has been evaluated yet. -/
def start (s : σ) : Bench σ π := ⟨s, m.hold s⟩

/-- Evaluates the component on inputs, any number of times in a cycle. -/
def evaluate (b : Bench σ π) (i : ι) : Bench σ π := { b with pending := m.propose b.state i }

/-- A clock edge. -/
def clock (reset : Bool) (b : Bench σ π) : Bench σ π :=
  m.start (if reset then m.reset b.state else m.edge b.state b.pending)

/-- An immediate reset. -/
def resetNow (b : Bench σ π) : Bench σ π := m.start (m.reset b.state)

/-- The state after a whole cycle. -/
def next (reset : Bool) (s : σ) (i : ι) : σ :=
  if reset then m.reset s else m.edge s (m.propose s i)

theorem evaluate_evaluate (b : Bench σ π) (i j : ι) :
    m.evaluate (m.evaluate b i) j = m.evaluate b j := rfl

theorem clock_evaluate (reset : Bool) (b : Bench σ π) (i : ι) :
    m.clock reset (m.evaluate b i) = m.start (m.next reset b.state i) := rfl

end Clocked

end RiscvPipeline
