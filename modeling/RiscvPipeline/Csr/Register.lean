import RiscvPipeline.Csr.Bus

/-! The control and status registers, their addresses, and the bank that holds them. -/

namespace RiscvPipeline

/-- The registers that are stored. Others are views of them. -/
inductive CsrRegister
  | fflags
  | frm
  | uepc
  | sepc
  | hepc
  | mstatus
  | misa
  | mie
  | mtvec
  | mscratch
  | mepc
  | mcause
  | mtval
  | mip
  | dcsr
  | dpc
  | mcycle
  | minstret
  | mvendorid
  | marchid
  | mimpid
  | mhartid
  deriving DecidableEq

namespace CsrRegister

def all : List CsrRegister :=
  [fflags, frm, uepc, sepc, hepc, mstatus, misa, mie, mtvec, mscratch, mepc, mcause, mtval, mip,
    dcsr, dpc, mcycle, minstret, mvendorid, marchid, mimpid, mhartid]

def addr : CsrRegister → CsrAddress
  | fflags => 0x001
  | frm => 0x002
  | uepc => 0x041
  | sepc => 0x141
  | hepc => 0x241
  | mstatus => 0x300
  | misa => 0x301
  | mie => 0x304
  | mtvec => 0x305
  | mscratch => 0x340
  | mepc => 0x341
  | mcause => 0x342
  | mtval => 0x343
  | mip => 0x344
  | dcsr => 0x7b0
  | dpc => 0x7b1
  | mcycle => 0xb00
  | minstret => 0xb02
  | mvendorid => 0xf11
  | marchid => 0xf12
  | mimpid => 0xf13
  | mhartid => 0xf14

def ofAddr? (a : CsrAddress) : Option CsrRegister := all.find? (·.addr == a)

theorem mem_all (r : CsrRegister) : r ∈ all := by cases r <;> decide

theorem ofAddr?_addr (r : CsrRegister) : ofAddr? r.addr = some r := by cases r <;> decide

theorem ctorIdx_lt (r : CsrRegister) : r.ctorIdx < 22 := by cases r <;> decide

/-- The part of a value that a register keeps. -/
def legal (r : CsrRegister) (v : Word) : Word :=
  match r with
  | fflags => v &&& 0x1f
  | frm => v &&& 0x7
  | _ => v

end CsrRegister

namespace CsrAddress

/-- Rounding mode and exception flags together. -/
def fcsr : CsrAddress := 0x003

/-- The cycle counter, to be read only. -/
def cycle : CsrAddress := 0xc00

/-- The counter of retired instructions, to be read only. -/
def instret : CsrAddress := 0xc02

/-- Every address that can be read. -/
def readable : List CsrAddress := CsrRegister.all.map (·.addr) ++ [fcsr, cycle, instret]

/-- Addresses whose bits 11 and 10 are set cannot be written. -/
def isReadOnly (a : CsrAddress) : Bool := a.extractLsb' 10 2 == 3

end CsrAddress

/-- The values of the stored registers. -/
structure CsrBank where
  values : Vector Word 22
  deriving DecidableEq

namespace CsrBank

open CsrRegister

variable (b : CsrBank)

def get (r : CsrRegister) : Word := b.values.get ⟨r.ctorIdx, r.ctorIdx_lt⟩

def set (r : CsrRegister) (v : Word) : CsrBank := ⟨b.values.set r.ctorIdx v r.ctorIdx_lt⟩

/-- 64-bit registers with the extensions I, M, F and D. -/
def isa : Word := 0x8000000000001128

/-- The values after reset. -/
def initial (trapVector hartId : Word) : CsrBank :=
  let zero : CsrBank := ⟨Vector.replicate 22 0⟩
  ((zero.set misa isa).set mtvec trapVector).set mhartid hartId

/-- The value read at an address, if there is a register. -/
def read? (a : CsrAddress) : Option Word :=
  if a = CsrAddress.fcsr then some ((b.get frm <<< 5) ||| b.get fflags)
  else if a = CsrAddress.cycle then some (b.get mcycle)
  else if a = CsrAddress.instret then some (b.get minstret)
  else (ofAddr? a).map b.get

/-- Writes the legal part of a value at an address. Where no register is stored nothing happens. -/
def write (a : CsrAddress) (v : Word) : CsrBank :=
  if a = CsrAddress.fcsr then (b.set frm (frm.legal (v >>> 5))).set fflags (fflags.legal v)
  else
    match ofAddr? a with
    | some r => b.set r (r.legal v)
    | none => b

end CsrBank

end RiscvPipeline
