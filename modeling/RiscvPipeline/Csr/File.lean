import RiscvPipeline.Clocked
import RiscvPipeline.Csr.Register
import RiscvPipeline.Double.Flags

/-! The file of control and status registers: answers one command at a time, each after a fixed
latency. It also holds the run control of the core. -/

namespace RiscvPipeline

namespace CsrFile

/-- What the file is doing. -/
inductive Phase
  | idle
  /-- A response is due in so many cycles. -/
  | busy (remaining : Nat)
  | responding
  deriving DecidableEq

/-- The registers beside the bank. -/
structure Control where
  phase : Phase := .idle
  data : Word := 0
  exception : Bool := false
  halted : Bool := false
  deriving DecidableEq

/-- A write that takes effect at the clock edge. -/
structure Write where
  addr : CsrAddress
  value : Word
  deriving DecidableEq

structure Proposal where
  control : Control
  writes : List Write

/-- The effect of a command: its answer, the writes it makes, and the run control it asks for. -/
structure Effect where
  data : Word := 0
  exception : Bool := false
  writes : List Write := []
  halted : Bool

end CsrFile

structure CsrFile where
  control : CsrFile.Control := {}
  bank : CsrBank
  latency : Nat
  /-- The bank after reset. -/
  initial : CsrBank
  deriving DecidableEq

namespace CsrFile

open CsrRegister

def new (latency : Nat) (trapVector hartId : Word) : CsrFile :=
  { bank := .initial trapVector hartId
    latency := max latency 1
    initial := .initial trapVector hartId }

variable (f : CsrFile)

def read? (a : CsrAddress) : Option Word := f.bank.read? a

/-- Writes a register at once. -/
def poke (a : CsrAddress) (v : Word) : CsrFile := { f with bank := f.bank.write a v }

def halted : Bool := f.control.halted

/-- The address of the trap handler, which is a multiple of four. -/
def trapVector : Word := f.bank.get mtvec &&& ~~~ 3#64

/-- The bit that marks an interrupt in the cause register. -/
def interruptBit : Word := 1 <<< 63

/-- Stores cause, address and value of a trap. -/
def recordTrap (cause epc tval : Word) : CsrFile :=
  ((f.poke mepc.addr epc).poke mcause.addr cause).poke mtval.addr tval

/-- Adds floating-point exception flags. -/
def accrue (flags : FpFlags) : CsrFile :=
  f.poke fflags.addr (f.bank.get fflags ||| flags.bits.setWidth 64)

/-- Counts a retired instruction. -/
def retire : CsrFile := f.poke minstret.addr (f.bank.get minstret + 1)

/-- What a command does. Of several bits reading and writing go first, then the return from a trap,
the recording of one, a breakpoint, and run control. -/
def execute (q : CsrRequest) : Effect :=
  let halted := f.halted
  let has := q.command.contains
  if has .read || has .write then
    match f.read? q.addr with
    | none => { exception := true, halted }
    | some old =>
      if has .write then
        if q.addr.isReadOnly then { exception := true, halted }
        else { data := old, writes := [⟨q.addr, q.data⟩], halted }
      else { data := old, halted }
  else if has .trapReturn then
    match f.read? q.addr with
    | none => { exception := true, halted }
    | some epc => { data := epc, halted }
  else if has .exception || has .interrupt then
    let cause := q.addr.setWidth 64 ||| (if has .interrupt then interruptBit else 0)
    { data := f.trapVector, writes := [⟨mepc.addr, q.data⟩, ⟨mcause.addr, cause⟩], halted }
  else if has .breakpoint then { writes := [⟨dpc.addr, q.data⟩], halted := true }
  else if has .halt then { halted := true }
  else if has .resume then { halted := false }
  else { exception := !has .wfi, halted }

def output (_ : CsrRequest) : CsrResponse :=
  match f.control.phase with
  | .idle => { ready := true }
  | .busy _ => {}
  | .responding => { valid := true, data := f.control.data, exception := f.control.exception }

def propose (q : CsrRequest) : Proposal :=
  match f.control.phase with
  | .idle =>
    if q.valid then
      let e := f.execute q
      ⟨{ phase := if f.latency ≤ 1 then .responding else .busy (f.latency - 1)
         data := e.data
         exception := e.exception
         halted := e.halted }, e.writes⟩
    else ⟨f.control, []⟩
  | .busy n => ⟨{ f.control with phase := if n ≤ 1 then .responding else .busy (n - 1) }, []⟩
  | .responding => ⟨if q.ready then { f.control with phase := .idle } else f.control, []⟩

/-- The clock edge: writes take effect, and the cycle counter advances. -/
def edge (p : Proposal) : CsrFile :=
  let written := p.writes.foldl (fun g w => g.poke w.addr w.value) f
  { written.poke mcycle.addr (written.bank.get mcycle + 1) with control := p.control }

def clocked : Clocked CsrFile CsrRequest CsrResponse Proposal where
  output := output
  propose := propose
  hold f := ⟨f.control, []⟩
  edge := edge
  reset f := { f with control := {}, bank := f.initial }

end CsrFile

end RiscvPipeline
