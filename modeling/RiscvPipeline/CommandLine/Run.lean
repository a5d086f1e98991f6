import RiscvPipeline.CommandLine.Help
import RiscvPipeline.Machine.Run

/-! What the command line does: reads configuration and program, runs the machine, and reports
registers and statistics. -/

namespace RiscvPipeline.CommandLine

/-- The files that a command finds. -/
structure Files where
  /-- The text of a file that can be read. -/
  read : String → Option String
  /-- A file can be written. -/
  writable : String → Bool

/-- What a command leaves behind. -/
structure Outcome where
  /-- The exit status. -/
  status : Nat
  output : List String := []
  errors : List String := []
  /-- The waveform file, by name and text. -/
  waveform : Option (String × String) := none
  deriving DecidableEq

/-- The exit status of a run: a program that is not finished is told apart from a failure. -/
def exitStatus : StopReason → Nat
  | .finished => 0
  | .cycleLimit => 2

/-- The exit status of a failure. -/
def failureStatus : Nat := 1

/-- The exit status of bad arguments. -/
def usageStatus : Nat := 2

/-- Ends with a failure. -/
def fail (e : SimError) (waveform : Option (String × String)) : Outcome :=
  { status := failureStatus
    errors := ["", "[!] FATAL: " ++ e.message]
    waveform }

/-- A file that has to be there. -/
def Files.get (f : Files) (name : String) : Except SimError String :=
  match f.read name with
  | some text => .ok text
  | none => .error .io

/-- The configuration of a run. -/
def configuration (f : Files) (o : RunOptions) : Except SimError Config := do
  let c ← match o.config with
    | none => pure {}
    | some name => do Config.read (← f.get name)
  match o.waveform with
  | none => return c
  | some name => return { c with general.traceFile := name }

/-- The image of a run and the machine that it is to be loaded into. -/
def prepare (f : Files) (c : Config) (o : RunOptions) :
    Except SimError (ProgramImage × Machine) := do
  let i ← ProgramImage.read (← f.get o.program)
  let m ← Machine.new f.writable c (← i.program)
  return (i, m)

/-- The waveform of a machine, under the name of its file. -/
def waveformFile (c : Config) (m : Machine) : Option (String × String) := do
  return (← c.general.traceFile, (← m.waveform).text)

/-- The report of a run. -/
def report (o : RunOptions) (m : Machine) (r : StopReason) : List String :=
  ["[rvpipe] stopped after " ++ toString m.cycle ++ " cycles (" ++ r.name ++ ")",
    "[rvpipe] npc = " ++ Text.hex m.execute.state.npc.toNat] ++ m.registers.dump ++
    (if o.statistics then m.statistics.report o.sections else [])

/-- Loads an image and runs it. -/
def simulate (c : Config) (o : RunOptions) (i : ProgramImage) (m : Machine) : Outcome :=
  match m.load i with
  | .error e => fail e (waveformFile c m)
  | .ok m =>
    match m.run (o.cycles.getD c.general.maxCycles) with
    | (m, .error e) => fail e (waveformFile c m)
    | (m, .ok r) =>
      { status := exitStatus r
        output := report o m r
        waveform := waveformFile c m }

/-- Carries out a run. -/
def perform (f : Files) (o : RunOptions) : Outcome :=
  match configuration f o with
  | .error e => fail e none
  | .ok c =>
    match prepare f c o with
    | .error e => fail e none
    | .ok (i, m) => simulate c o i m

/-- Carries out the command that the arguments ask for. -/
def execute (f : Files) (arguments : List String) : Outcome :=
  match read arguments with
  | .ok (.run o) => perform f o
  | .ok (.help t) => { status := 0, output := t.lines }
  | .ok .version => { status := 0, output := [versionLine] }
  | .error .missingCommand => { status := usageStatus, errors := Topic.details.lines }
  | .error e =>
    { status := usageStatus
      errors := ["error: " ++ e.message, "", "For more information, try '--help'."] }

/-- The files that the arguments name for reading. -/
def inputs (arguments : List String) : List String :=
  match read arguments with
  | .ok (.run o) => o.program :: o.config.toList
  | _ => []

end RiscvPipeline.CommandLine
