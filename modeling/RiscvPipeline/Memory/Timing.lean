import RiscvPipeline.Config

/-! How long an access of the data memory takes. -/

namespace RiscvPipeline

/-- A timing model with what it remembers from one access to the next: a DRAM keeps the row it
accessed last open. -/
inductive MemoryTiming
  | simple (latency : Nat)
  | dram (cas ras pre : Nat) (openRow : Option Word)
  deriving DecidableEq

namespace MemoryTiming

def ofConfig (c : MemoryConfig) : MemoryTiming :=
  match c.model with
  | .simple => simple c.latency
  | .dram => dram c.tCas c.tRas c.tPre none

/-- The row of an address: rows are 2048 bytes long. -/
def row (addr : Word) : Word := addr &&& ~~~ 2047#64

/-- The latency of an access, and the model after it. -/
def access (addr : Word) : MemoryTiming → Nat × MemoryTiming
  | simple latency => (latency, simple latency)
  | dram cas ras pre openRow =>
    let latency :=
      match openRow with
      | none => ras + cas
      | some r => if r = row addr then cas else pre + ras + cas
    (latency, dram cas ras pre (some (row addr)))

/-- Closes the open row. -/
def reset : MemoryTiming → MemoryTiming
  | simple latency => simple latency
  | dram cas ras pre _ => dram cas ras pre none

end MemoryTiming

end RiscvPipeline
