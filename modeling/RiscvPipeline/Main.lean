import RiscvPipeline.CommandLine.Run

/-! The command line on real files and streams. -/

open RiscvPipeline

/-- The text of a file, if it can be read. -/
def readText? (name : String) : IO (Option String) := do
  try
    return some (← IO.FS.readFile name)
  catch _ =>
    return none

/-- Tries to write a file. -/
def writeText (name text : String) : IO Bool := do
  try
    IO.FS.writeFile name text
    return true
  catch _ =>
    return false

/-- Runs a command. If its waveform cannot be written, it fails in the way in which it would have
failed had it known. -/
def main (arguments : List String) : IO UInt32 := do
  let texts ← (CommandLine.inputs arguments).mapM fun name => return (name, ← readText? name)
  let attempt (writable : Bool) : CommandLine.Outcome :=
    CommandLine.execute ⟨fun name => (texts.lookup name).join, fun _ => writable⟩ arguments
  let mut outcome := attempt true
  if let some (name, text) := outcome.waveform then
    if !(← writeText name text) then
      outcome := attempt false
  for line in outcome.output do
    IO.println line
  for line in outcome.errors do
    IO.eprintln line
  return outcome.status.toUInt32
