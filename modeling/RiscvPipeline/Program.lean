import RiscvPipeline.Isa.Decoded

/-! A program: decoded instructions at consecutive addresses. -/

namespace RiscvPipeline

/-- The address of the first instruction after reset. -/
def resetVector : Word := 0x10000

/-- Instructions laid out four bytes apart from a base address. -/
structure Program where
  base : Word := resetVector
  instructions : Array DecodedInstruction := #[]

namespace Program

variable (p : Program)

def size : Nat := p.instructions.size

/-- The address behind the last instruction. -/
def limit : Word := p.base + BitVec.ofNat 64 (4 * p.size)

/-- Appends an instruction; its address is the next one of the program. -/
def push (d : DecodedInstruction) : Program :=
  { p with instructions := p.instructions.push { d with pc := p.limit } }

/-- The instruction at an address. -/
def at? (pc : Word) : Option DecodedInstruction :=
  if p.base.toNat ≤ pc.toNat ∧ (pc.toNat - p.base.toNat) % 4 = 0 then
    p.instructions[(pc.toNat - p.base.toNat) / 4]?
  else none

def contains (pc : Word) : Bool := (p.at? pc).isSome

end Program

end RiscvPipeline
