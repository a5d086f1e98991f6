import RiscvPipeline.Word

/-! Commands of the bus to the control and status registers. -/

namespace RiscvPipeline

/-- A set of command bits. An instruction that reads and writes a register sends two commands. -/
structure CsrCommand where
  bits : BitVec 9
  deriving DecidableEq

namespace CsrCommand

def none : CsrCommand := ⟨0⟩

def read : CsrCommand := ⟨1⟩

def write : CsrCommand := ⟨2⟩

/-- The response carries the return address. -/
def trapReturn : CsrCommand := ⟨4⟩

/-- Records an exception; the response carries the trap vector. -/
def exception : CsrCommand := ⟨8⟩

/-- Records an interrupt; the response carries the trap vector. -/
def interrupt : CsrCommand := ⟨16⟩

def breakpoint : CsrCommand := ⟨32⟩

def halt : CsrCommand := ⟨64⟩

def resume : CsrCommand := ⟨128⟩

/-- Waits for an interrupt. -/
def wfi : CsrCommand := ⟨256⟩

instance : Inhabited CsrCommand := ⟨none⟩

instance : OrOp CsrCommand := ⟨fun a b => ⟨a.bits ||| b.bits⟩⟩

def isEmpty (c : CsrCommand) : Bool := c.bits == 0

/-- Every bit of `d` is set, and `d` has one. -/
def contains (c d : CsrCommand) : Bool := c.bits &&& d.bits == d.bits && d.bits != 0

/-- The names of the bits, lowest first. -/
def names : List String :=
  ["READ", "WRITE", "TRAP_RETURN", "EXCEPTION", "INTERRUPT", "BREAKPOINT", "HALT", "RESUME", "WFI"]

/-- The names of the bits that are set. -/
def describe (c : CsrCommand) : String :=
  let set := names.zipIdx.filterMap fun (n, i) => if c.bits.getLsbD i then some n else Option.none
  "CsrCommand(" ++ (if c.isEmpty then "NONE" else "|".intercalate set) ++ ")"

end CsrCommand

end RiscvPipeline
