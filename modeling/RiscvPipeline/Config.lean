import RiscvPipeline.Error
import RiscvPipeline.Json.Fields

/-! The configuration of a system: its defaults, its limits and its document form. -/

namespace RiscvPipeline

/-- When an asserted reset takes effect: at the next clock edge, or at once. -/
inductive ResetMode
  | sync
  | async
  deriving DecidableEq

/-- The timing models of the data memory. -/
inductive MemoryModel
  | simple
  | dram
  deriving DecidableEq

structure GeneralConfig where
  asyncReset : Bool := false
  /-- The file to which a waveform is written. -/
  traceFile : Option String := none
  maxCycles : Nat := 1000000
  fpuEnabled : Bool := true
  deriving DecidableEq

/-- The latencies of the multi-cycle units. -/
structure UnitsConfig where
  mulLatency : Nat := 4
  divLatency : Nat := 20
  fpuLatency : Nat := 6
  deriving DecidableEq

structure MemoryConfig where
  base : Word := 0x10000000
  size : Nat := 1048576
  model : MemoryModel := .simple
  /-- The latency of the simple model. -/
  latency : Nat := 2
  /-- Column access, row activation and precharge times of the DRAM model. -/
  tCas : Nat := 4
  tRas : Nat := 4
  tPre : Nat := 4
  /-- Requests are accepted in every so many-th cycle. -/
  readyPeriod : BitVec 32 := 1
  deriving DecidableEq

structure CsrConfig where
  latency : Nat := 1
  trapVector : Word := 0x20000
  hartId : Word := 0
  deriving DecidableEq

structure Config where
  general : GeneralConfig := {}
  units : UnitsConfig := {}
  memory : MemoryConfig := {}
  csr : CsrConfig := {}
  deriving DecidableEq

namespace MemoryConfig

/-- The shortest time an access takes. -/
def minLatency (m : MemoryConfig) : Nat :=
  match m.model with
  | .simple => m.latency
  | .dram => m.tCas

/-- The first fault of the memory section. -/
def fault? (m : MemoryConfig) : Option ConfigFault :=
  if m.size = 0 then some .memoryEmpty
  else if m.size % 8 ≠ 0 ∨ m.base.toNat % 8 ≠ 0 then some .memoryUnaligned
  else if UInt64.size ≤ m.base.toNat + m.size then some .memoryWraps
  else if m.readyPeriod = 0 then some .readyPeriodZero
  else if m.minLatency = 0 then some .memoryLatencyZero
  else none

end MemoryConfig

namespace Config

def resetMode (c : Config) : ResetMode := if c.general.asyncReset then .async else .sync

/-- The first fault of a configuration. -/
def fault? (c : Config) : Option ConfigFault :=
  if c.units.mulLatency = 0 ∨ c.units.divLatency = 0 ∨ c.units.fpuLatency = 0 then
    some .unitLatencyZero
  else match c.memory.fault? with
    | some f => some f
    | none =>
      if c.csr.latency = 0 then some .csrLatencyZero
      else if c.csr.trapVector.toNat % 4 ≠ 0 then some .trapVectorUnaligned
      else none

/-- A configuration within its limits. -/
def Valid (c : Config) : Prop := c.fault? = none

instance (c : Config) : Decidable c.Valid := inferInstanceAs (Decidable (_ = _))

/-- Refuses a configuration outside its limits. -/
def validate (c : Config) : Except SimError Unit :=
  match c.fault? with
  | none => .ok ()
  | some f => .error (.config f)

open Json Record

def generalOfJson? (j : Json) : Option GeneralConfig := do
  let r ← j.record? ["async_reset", "trace_vcd", "max_cycles", "fpu_enabled"]
  let d : GeneralConfig := {}
  return {
    asyncReset := ← r.optional "async_reset" bool? d.asyncReset
    traceFile := ← r.optional "trace_vcd" (nullable? string?) d.traceFile
    maxCycles := ← r.optional "max_cycles" (natBelow? UInt64.size) d.maxCycles
    fpuEnabled := ← r.optional "fpu_enabled" bool? d.fpuEnabled }

def unitsOfJson? (j : Json) : Option UnitsConfig := do
  let r ← j.record? ["mul_latency", "div_latency", "fpu_latency"]
  let d : UnitsConfig := {}
  return {
    mulLatency := ← r.optional "mul_latency" (natBelow? UInt32.size) d.mulLatency
    divLatency := ← r.optional "div_latency" (natBelow? UInt32.size) d.divLatency
    fpuLatency := ← r.optional "fpu_latency" (natBelow? UInt32.size) d.fpuLatency }

def modelOfJson? (j : Json) : Option MemoryModel := do
  match ← j.name? with
  | "Simple" => some .simple
  | "Dram" | "DRAM" => some .dram
  | _ => none

def memoryOfJson? (j : Json) : Option MemoryConfig := do
  let r ← j.record?
    ["base", "size", "controller", "latency", "t_cas", "t_ras", "t_pre", "ready_period"]
  let d : MemoryConfig := {}
  return {
    base := ← r.optional "base" (unsigned? 64) d.base
    size := ← r.optional "size" (natBelow? UInt64.size) d.size
    model := ← r.optional "controller" modelOfJson? d.model
    latency := ← r.optional "latency" (natBelow? UInt64.size) d.latency
    tCas := ← r.optional "t_cas" (natBelow? UInt64.size) d.tCas
    tRas := ← r.optional "t_ras" (natBelow? UInt64.size) d.tRas
    tPre := ← r.optional "t_pre" (natBelow? UInt64.size) d.tPre
    readyPeriod := ← r.optional "ready_period" (unsigned? 32) d.readyPeriod }

def csrOfJson? (j : Json) : Option CsrConfig := do
  let r ← j.record? ["latency", "trap_vector", "hart_id"]
  let d : CsrConfig := {}
  return {
    latency := ← r.optional "latency" (natBelow? UInt32.size) d.latency
    trapVector := ← r.optional "trap_vector" (unsigned? 64) d.trapVector
    hartId := ← r.optional "hart_id" (unsigned? 64) d.hartId }

/-- A configuration in which missing sections and fields have their defaults. -/
def ofJson? (j : Json) : Option Config := do
  let r ← j.record? ["general", "units", "memory", "csr"]
  return {
    general := ← r.optional "general" generalOfJson? {}
    units := ← r.optional "units" unitsOfJson? {}
    memory := ← r.optional "memory" memoryOfJson? {}
    csr := ← r.optional "csr" csrOfJson? {} }

/-- Reads a configuration and checks its limits. -/
def ofDocument (j : Option Json) : Except SimError Config :=
  match j.bind ofJson? with
  | none => .error .json
  | some c => do
    c.validate
    return c

/-- Reads the text of a configuration and checks its limits. -/
def read (text : String) : Except SimError Config := ofDocument (Json.parse text)

end Config

end RiscvPipeline
