import RiscvPipeline.Word

/-! Exception causes and their codes. -/

namespace RiscvPipeline

/-- An exception cause of the privileged architecture. -/
inductive Cause
  | instructionMisaligned
  | instructionFault
  | illegalInstruction
  | breakpoint
  | loadMisaligned
  | loadFault
  | storeMisaligned
  | storeFault
  | callFromUser
  | callFromSupervisor
  | callFromHypervisor
  | callFromMachine
  | instructionPageFault
  | loadPageFault
  | storePageFault
  | stackOverflow
  | stackUnderflow
  deriving DecidableEq

namespace Cause

/-- Every cause, in the order of the codes. -/
def all : List Cause :=
  [instructionMisaligned, instructionFault, illegalInstruction, breakpoint, loadMisaligned,
    loadFault, storeMisaligned, storeFault, callFromUser, callFromSupervisor, callFromHypervisor,
    callFromMachine, instructionPageFault, loadPageFault, storePageFault, stackOverflow,
    stackUnderflow]

/-- The number written to the cause register. Code 14 is reserved. -/
def code : Cause → Nat
  | instructionMisaligned => 0
  | instructionFault => 1
  | illegalInstruction => 2
  | breakpoint => 3
  | loadMisaligned => 4
  | loadFault => 5
  | storeMisaligned => 6
  | storeFault => 7
  | callFromUser => 8
  | callFromSupervisor => 9
  | callFromHypervisor => 10
  | callFromMachine => 11
  | instructionPageFault => 12
  | loadPageFault => 13
  | storePageFault => 15
  | stackOverflow => 16
  | stackUnderflow => 17

/-- The cause with a given code. -/
def ofCode? (code : Nat) : Option Cause := all.find? (·.code == code)

theorem ofCode?_code (c : Cause) : ofCode? c.code = some c := by cases c <;> rfl

/-- The short name of a cause. -/
def name : Cause → String
  | instructionMisaligned => "InstrMisalign"
  | instructionFault => "InstrFault"
  | illegalInstruction => "InstrIllegal"
  | breakpoint => "Breakpoint"
  | loadMisaligned => "LoadMisalign"
  | loadFault => "LoadFault"
  | storeMisaligned => "StoreMisalign"
  | storeFault => "StoreFault"
  | callFromUser => "CallFromUmode"
  | callFromSupervisor => "CallFromSmode"
  | callFromHypervisor => "CallFromHmode"
  | callFromMachine => "CallFromMmode"
  | instructionPageFault => "InstrPageFault"
  | loadPageFault => "LoadPageFault"
  | storePageFault => "StorePageFault"
  | stackOverflow => "StackOverflow"
  | stackUnderflow => "StackUnderflow"

/-- The name spelled out. -/
def longName : Cause → String
  | instructionMisaligned => "InstructionAddressMisaligned"
  | instructionFault => "InstructionAccessFault"
  | illegalInstruction => "IllegalInstruction"
  | breakpoint => "Breakpoint"
  | loadMisaligned => "LoadAddressMisaligned"
  | loadFault => "LoadAccessFault"
  | storeMisaligned => "StoreAddressMisaligned"
  | storeFault => "StoreAccessFault"
  | callFromUser => "EnvironmentCallFromUMode"
  | callFromSupervisor => "EnvironmentCallFromSMode"
  | callFromHypervisor => "EnvironmentCallFromHMode"
  | callFromMachine => "EnvironmentCallFromMMode"
  | instructionPageFault => "InstructionPageFault"
  | loadPageFault => "LoadPageFault"
  | storePageFault => "StorePageFault"
  | stackOverflow => "StackOverflow"
  | stackUnderflow => "StackUnderflow"

/-- The long name with the code behind it. -/
def describe (c : Cause) : String := c.longName ++ "(" ++ toString c.code ++ ")"

/-- The code as the cause register holds it. -/
def word (c : Cause) : Word := BitVec.ofNat 64 c.code

end Cause

end RiscvPipeline
