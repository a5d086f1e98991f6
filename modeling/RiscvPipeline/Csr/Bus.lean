import RiscvPipeline.Csr.Command

/-! The two sides of the bus to the control and status registers. -/

namespace RiscvPipeline

/-- The address of a control and status register. -/
abbrev CsrAddress := BitVec 16

/-- What a master drives. -/
structure CsrRequest where
  valid : Bool := false
  command : CsrCommand := .none
  addr : CsrAddress := 0
  data : Word := 0
  /-- A response is welcome. -/
  ready : Bool := false
  deriving DecidableEq, Inhabited

/-- What a slave drives. -/
structure CsrResponse where
  /-- A request is accepted this cycle. -/
  ready : Bool := false
  valid : Bool := false
  data : Word := 0
  /-- The command was rejected. -/
  exception : Bool := false
  deriving DecidableEq, Inhabited

end RiscvPipeline
