/-! The arguments of the command line. -/

namespace RiscvPipeline.CommandLine

/-- What a run is asked to do. -/
structure RunOptions where
  /-- The file of the program image. -/
  program : String
  /-- The file of the configuration; without one the defaults hold. -/
  config : Option String := none
  /-- The cycle limit that replaces the configured one. -/
  cycles : Option Nat := none
  /-- The waveform file that replaces the configured one. -/
  waveform : Option String := none
  /-- The statistics are printed. -/
  statistics : Bool := false
  /-- The sections to print; all of them if none is named. -/
  sections : List String := []
  deriving DecidableEq

/-- The help texts. -/
inductive Topic
  | overview
  /-- The overview with examples. -/
  | details
  | run
  /-- The command that prints these texts. -/
  | help
  deriving DecidableEq

/-- What the arguments ask for. -/
inductive Request
  | run (options : RunOptions)
  | help (topic : Topic)
  | version
  deriving DecidableEq

/-- The ways in which arguments can be wrong. -/
inductive UsageError
  | missingCommand
  | unknownCommand (name : String)
  | unexpected (argument : String)
  | missingValue (option : String)
  | badValue (option value : String)
  | repeated (option : String)
  | missingProgram
  deriving DecidableEq

namespace UsageError

def message : UsageError → String
  | missingCommand => "a subcommand is required"
  | unknownCommand name => "unrecognized subcommand '" ++ name ++ "'"
  | unexpected argument => "unexpected argument '" ++ argument ++ "' found"
  | missingValue option => "a value is required for '--" ++ option ++ "' but none was supplied"
  | badValue option value => "invalid value '" ++ value ++ "' for '--" ++ option ++ "'"
  | repeated option => "the argument '--" ++ option ++ "' cannot be used multiple times"
  | missingProgram => "the argument '--program' is required"

end UsageError

/-- The options of a run. -/
inductive RunOption
  | program
  | config
  | cycles
  | waveform
  | statistics
  | sectionName
  | help
  deriving DecidableEq

namespace RunOption

def name : RunOption → String
  | program => "program"
  | config => "config"
  | cycles => "cycles"
  | waveform => "vcd"
  | statistics => "stats"
  | sectionName => "section"
  | help => "help"

def all : List RunOption := [program, config, cycles, waveform, statistics, sectionName, help]

def ofName? (s : String) : Option RunOption := all.find? (·.name == s)

def ofLetter? : Char → Option RunOption
  | 'p' => some program
  | 'c' => some config
  | 'h' => some help
  | _ => none

/-- The option stands alone, without a value. -/
def isFlag : RunOption → Bool
  | statistics | help => true
  | _ => false

end RunOption

/-- The options read so far. -/
structure Draft where
  program : Option String := none
  config : Option String := none
  cycles : Option Nat := none
  waveform : Option String := none
  statistics : Bool := false
  sections : List String := []

/-- A decimal number below 2^64, with or without a plus sign. -/
def number? (s : String) : Option Nat :=
  let digits :=
    match s.toList with
    | '+' :: ds => ds
    | ds => ds
  if digits.isEmpty || !digits.all Char.isDigit then none
  else
    let n := digits.foldl (fun n c => 10 * n + (c.toNat - '0'.toNat)) 0
    if n < UInt64.size then some n else none

namespace Draft

variable (d : Draft)

/-- A value in the place of one that must not have been given before. -/
def once {α : Type} (o : RunOption) (before : Option α) (v : α) : Except UsageError (Option α) :=
  if before.isSome then .error (.repeated o.name) else .ok (some v)

/-- The name of a file that is to be read. -/
def fileName (o : RunOption) (v : String) : Except UsageError String :=
  if v.isEmpty then .error (.missingValue o.name) else .ok v

/-- Adds the value of an option. -/
def set (o : RunOption) (v : String) : Except UsageError Draft :=
  match o with
  | .program => do
    let v ← fileName o v
    return { d with program := ← once o d.program v }
  | .config => do
    let v ← fileName o v
    return { d with config := ← once o d.config v }
  | .cycles =>
    match number? v with
    | some n => do return { d with cycles := ← once o d.cycles n }
    | none => .error (.badValue o.name v)
  | .waveform => do return { d with waveform := ← once o d.waveform v }
  | .sectionName => .ok { d with sections := d.sections ++ [v] }
  | .statistics | .help => .error (.unexpected v)

/-- Adds an option that stands alone. -/
def enable (o : RunOption) : Except UsageError Draft :=
  if o = .statistics then
    if d.statistics then .error (.repeated o.name) else .ok { d with statistics := true }
  else .error (.missingValue o.name)

/-- The options, of which the program is required. -/
def finish : Except UsageError RunOptions :=
  match d.program with
  | none => .error .missingProgram
  | some program =>
    .ok
      { program
        config := d.config
        cycles := d.cycles
        waveform := d.waveform
        statistics := d.statistics
        sections := d.sections }

end Draft

/-- An argument that looks like an option: a hyphen alone is a value. -/
def isOption (s : String) : Bool := s.startsWith "-" && s != "-"

/-- What is attached to an option, with or without an equals sign. -/
def attached? : List Char → Option String
  | [] => none
  | '=' :: v => some (String.ofList v)
  | v => some (String.ofList v)

/-- An option as it is written: by name or by letter, with the value that is attached to it. -/
def option? (s : String) : Option (RunOption × Option String) :=
  match s.toList with
  | '-' :: '-' :: cs => do
    let (name, rest) := cs.span (· != '=')
    return (← RunOption.ofName? (String.ofList name), attached? rest)
  | '-' :: c :: cs => do return (← RunOption.ofLetter? c, attached? cs)
  | _ => none

/-- A request for help is granted at once. A letter may have others attached to it, but a name no
value. -/
def asksHelp (s : String) : Bool := s == "--help" || s.startsWith "-h"

/-- Reads the arguments of a run. -/
def readRun (d : Draft) : List String → Except UsageError Request
  | [] => d.finish.map .run
  | "--" :: rest =>
    match rest with
    | [] => d.finish.map .run
    | a :: _ => .error (.unexpected a)
  | a :: rest =>
    if asksHelp a then .ok (.help .run)
    else
      match option? a with
      | none => .error (.unexpected a)
      | some (o, some v) => do readRun (← d.set o v) rest
      | some (o, none) =>
        if o.isFlag then do readRun (← d.enable o) rest
        else
          match rest with
          | [] => .error (.missingValue o.name)
          | v :: rest =>
            if isOption v then .error (.missingValue o.name)
            else do readRun (← d.set o v) rest

/-- Reads the arguments of a request for help: the name of a command, none of which has commands
of its own. -/
def readHelp : List String → Except UsageError Request
  | [] => .ok (.help .details)
  | ["run"] => .ok (.help .run)
  | ["help"] => .ok (.help .help)
  | "run" :: a :: _ | "help" :: a :: _ => .error (.unknownCommand a)
  | a :: _ => .error (.unknownCommand a)

/-- Reads the arguments of the command line. -/
def read : List String → Except UsageError Request
  | [] => .error .missingCommand
  | "run" :: rest => readRun {} rest
  | "help" :: rest => readHelp rest
  | "--help" :: _ => .ok (.help .details)
  | "--version" :: _ => .ok .version
  | a :: _ =>
    if a.startsWith "-h" then .ok (.help .overview)
    else if a.startsWith "-V" then .ok .version
    else if isOption a then .error (.unexpected a)
    else .error (.unknownCommand a)

end RiscvPipeline.CommandLine
