import RiscvPipeline.Text.Hex
import RiscvPipeline.Vcd.Identifier
import RiscvPipeline.Word

/-! The lines of a value change dump. -/

namespace RiscvPipeline.Vcd

/-- A port whose values are dumped. -/
structure Port where
  name : String
  /-- The width asked for. -/
  width : Nat
  deriving DecidableEq

/-- The width in the dump, at least 1 and at most 64. -/
def Port.bits (p : Port) : Nat := min (max p.width 1) 64

/-- What a port can show of a value. -/
def Port.shown (p : Port) (raw : Word) : Word := raw &&& Word.mask p.bits

/-- A line of the body. Ports are named by their position. -/
inductive Line
  /-- The changes that follow happen at this time. -/
  | time (t : Nat)
  /-- The new value of a port that is one bit wide. -/
  | scalar (port : Nat) (value : Word)
  /-- The new value of a wider port. -/
  | vector (port : Nat) (value : Word)
  deriving DecidableEq

namespace Line

def render : Line → String
  | time t => "#" ++ toString t
  | scalar n v => toString v.toNat ++ String.ofList (identifier n)
  | vector n v => "b" ++ Text.binaryDigits v.toNat ++ " " ++ String.ofList (identifier n)

end Line

/-- The declaration of the port at position `n`. -/
def declaration (p : Port) (n : Nat) : String :=
  "$var wire " ++ toString p.bits ++ " " ++ String.ofList (identifier n) ++ " " ++ p.name ++ " $end"

/-- The lines that open a dump of ports under one module. -/
def header (scope : String) (ports : List Port) : List String :=
  ["$timescale 1ns $end", "$scope module " ++ scope ++ " $end"] ++
    (ports.zipIdx.map fun (p, n) => declaration p n) ++
    ["$upscope $end", "$enddefinitions $end"]

end RiscvPipeline.Vcd
