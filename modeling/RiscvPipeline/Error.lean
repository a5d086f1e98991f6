import RiscvPipeline.Debug.Request
import RiscvPipeline.Text.Hex

/-! The ways in which building or running the system can fail, and their texts. -/

namespace RiscvPipeline

/-- What is wrong with a configuration, or with a sample for the trace it configures. -/
inductive ConfigFault
  | unitLatencyZero
  | memoryEmpty
  | memoryUnaligned
  | memoryWraps
  | readyPeriodZero
  | memoryLatencyZero
  | csrLatencyZero
  | trapVectorUnaligned
  | sampleSize (values ports : Nat)
  deriving DecidableEq

/-- What is wrong with a program. -/
inductive ProgramFault
  | unknownMnemonic (index : Nat) (name : String)
  | memoryWord (addr : Word)
  deriving DecidableEq

/-- The causes of failure. -/
inductive SimError
  | config (fault : ConfigFault)
  | widthViolation (signal : String) (value : Word) (width : Nat)
  | combinationalLoop (cycle iterations : Nat)
  | timeout (what : String) (cycles : Nat)
  | debugRejected (request : DebugRequest)
  | program (fault : ProgramFault)
  | io
  | json
  deriving DecidableEq

namespace ConfigFault

def message : ConfigFault → String
  | unitLatencyZero => "unit latencies must be at least one cycle"
  | memoryEmpty => "memory.size must be non-zero"
  | memoryUnaligned => "memory.base and memory.size must be 8-byte aligned"
  | memoryWraps => "memory region wraps the address space"
  | readyPeriodZero => "memory.ready_period must be at least one cycle"
  | memoryLatencyZero => "memory access latency must be at least one cycle"
  | csrLatencyZero => "csr.latency must be at least one cycle"
  | trapVectorUnaligned => "csr.trap_vector must be 4-byte aligned"
  | sampleSize values ports =>
    "trace sample has " ++ toString values ++ " values for " ++ toString ports ++ " ports"

end ConfigFault

namespace ProgramFault

def message : ProgramFault → String
  | unknownMnemonic index name =>
    "instruction " ++ toString index ++ ": unknown \x60" ++ name ++ "\x60"
  | memoryWord addr =>
    "memory word at " ++ Text.hex addr.toNat ++ " is unaligned or outside the data memory"

end ProgramFault

namespace SimError

/-- The text shown for a failure. Failures of the file system and malformed documents are told
apart by their kind alone. -/
def message : SimError → String
  | config fault => "invalid configuration: " ++ fault.message
  | widthViolation signal value width =>
    "signal \x60" ++ signal ++ "\x60 value " ++ Text.hex value.toNat ++ " exceeds " ++
      toString width ++ " bits"
  | combinationalLoop cycle iterations =>
    "combinational logic did not settle after " ++ toString iterations ++
      " delta cycles at cycle " ++ toString cycle
  | timeout what cycles => what ++ " did not complete within " ++ toString cycles ++ " cycles"
  | debugRejected request => "debug access rejected: " ++ request.describe
  | program fault => "program error: " ++ fault.message
  | io => "input or output failed"
  | json => "malformed document"

end SimError

/-- Refuses a signal value that does not fit into its width. -/
def checkWidth (signal : String) (value : Word) (width : Nat) : Except SimError Unit :=
  if value.fits width then .ok () else .error (.widthViolation signal value width)

end RiscvPipeline
