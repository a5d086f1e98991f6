import RiscvPipeline.Word

/-! Accesses that external tooling makes through the debug port. -/

namespace RiscvPipeline

/-- The part of the machine a debug access addresses. -/
inductive DebugRegion
  | csr
  | registers
  | control
  deriving DecidableEq, Inhabited

/-- A debug access. -/
structure DebugRequest where
  region : DebugRegion := .csr
  addr : BitVec 16 := 0
  write : Bool := false
  wdata : Word := 0
  deriving DecidableEq, Inhabited

namespace DebugRegion

/-- The name under which a rejected access reports its region. -/
def label : DebugRegion → String
  | csr => "Csr"
  | registers => "IntRegs"
  | control => "Control"

end DebugRegion

namespace DebugRequest

/-- The request as a rejection reports it. -/
def describe (r : DebugRequest) : String :=
  "DportRequest \x7b region: " ++ r.region.label ++ ", addr: " ++ toString r.addr.toNat ++
    ", write: " ++ toString r.write ++ ", wdata: " ++ toString r.wdata.toNat ++ " \x7d"

end DebugRequest

end RiscvPipeline
