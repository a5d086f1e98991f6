import RiscvPipeline.Decimal.Fixed

/-! Event counters of a run and their report. -/

namespace RiscvPipeline

structure Statistics where
  cycles : Nat := 0
  /-- Instructions accepted by the execute stage. -/
  instructions : Nat := 0
  /-- Accepted instructions that finish in the cycle of their acceptance. -/
  single : Nat := 0
  /-- Operations dispatched to a multi-cycle unit. -/
  multi : Nat := 0
  loads : Nat := 0
  stores : Nat := 0
  branches : Nat := 0
  csrAccesses : Nat := 0
  hazardStalls : Nat := 0
  holdStalls : Nat := 0
  queueFull : Nat := 0
  csrWait : Nat := 0
  traps : Nat := 0
  exceptions : Nat := 0
  /-- Grants of the CSR bus to the execute stage. -/
  executeGrants : Nat := 0
  /-- Grants of the CSR bus to the debug port. -/
  debugGrants : Nat := 0
  memoryRequests : Nat := 0
  deriving DecidableEq

namespace Statistics

/-- The parts of the report. -/
inductive Section
  | summary
  | instructionMix
  | stalls
  | system
  deriving DecidableEq

namespace Section

def name : Section → String
  | summary => "summary"
  | instructionMix => "instruction_mix"
  | stalls => "stalls"
  | system => "system"

end Section

variable (s : Statistics)

/-- A count as a number to divide. -/
def real (n : Nat) : Double := Double.ofInt n

/-- `n` in percent of `total`, with two places. -/
def percent (n total : Nat) : String :=
  Decimal.fixed 2 (((real n).div (real total)).mul (real 100))

def ruler : String := String.ofList (List.replicate 58 '-')

def doubleRuler : String := String.ofList (List.replicate 58 '=')

/-- A counter with its share of a total. -/
def shareLine (total : Nat) (name : String) (n : Nat) : String :=
  "  " ++ Text.padRight 22 name ++ " " ++ toString n ++ " (" ++ percent n total ++ "%)"

/-- The lines of one part of the report. Shares never divide by zero: an empty run counts as one
cycle and one instruction. -/
def sectionLines : Section → List String
  | .summary =>
    let cycles := real (max s.cycles 1)
    let instructions := real (max s.instructions 1)
    ["RVPIPE SIMULATION STATISTICS",
      doubleRuler,
      "sim_cycles               " ++ toString s.cycles,
      "sim_insts                " ++ toString s.instructions,
      "sim_ipc                  " ++ Decimal.fixed 4 ((real s.instructions).div cycles),
      "sim_cpi                  " ++ Decimal.fixed 4 (cycles.div instructions),
      ruler]
  | .instructionMix =>
    let line := shareLine (max s.instructions 1)
    ["INSTRUCTION MIX",
      line "op.single" s.single,
      line "op.multi" s.multi,
      line "op.load" s.loads,
      line "op.store" s.stores,
      line "op.branch" s.branches,
      line "op.csr" s.csrAccesses,
      ruler]
  | .stalls =>
    let line := shareLine (max s.cycles 1)
    ["STALLS",
      line "stalls.hazard" s.hazardStalls,
      line "stalls.hold" s.holdStalls,
      line "stalls.queue_full" s.queueFull,
      line "stalls.csr_wait" s.csrWait,
      ruler]
  | .system =>
    ["SYSTEM",
      "  traps                  " ++ toString s.traps,
      "  exceptions             " ++ toString s.exceptions,
      "  csr.grants.execute     " ++ toString s.executeGrants,
      "  csr.grants.dport       " ++ toString s.debugGrants,
      "  mem.requests           " ++ toString s.memoryRequests]

/-- The report restricted to the named parts, or all of it if none is named. -/
def report (wanted : List String) : List String :=
  let parts := [Section.summary, .instructionMix, .stalls, .system].filter fun p =>
    wanted.isEmpty || wanted.contains p.name
  [doubleRuler] ++ parts.flatMap s.sectionLines ++ [doubleRuler]

end Statistics

end RiscvPipeline
