import RiscvPipeline.CommandLine.Run
import RiscvPipeline.Text.Lines

/-! Commands in a working directory that is kept as a value: the files that they find in it and the
files that they leave there. -/

namespace RiscvPipeline.CommandLine

/-- The files of a directory without others inside, by name. -/
structure Directory where
  files : List (String × String) := []

namespace Directory

/-- A file can have this name. -/
def isName (name : String) : Bool :=
  name != "." && name != ".." && !name.isEmpty && name.utf8ByteSize ≤ 255 && !name.contains '\x00'

/-- Paths are shorter than this many bytes. -/
def pathLimit : Nat := 4096

/-- The name of the file that a path leads to. Empty and dot parts do not matter; the only
directories on the way are those around this one. -/
def resolve? (path : String) : Option String :=
  let parts := path.splitOn "/"
  let steps := parts.filter fun part => part != "" && part != "."
  match steps.getLast?, steps.dropLast with
  | some name, way =>
    if path.utf8ByteSize < pathLimit && parts.head? != some "" && parts.getLast? == some name &&
        isName name && way.all (· == "..")
    then some (String.intercalate "/" steps)
    else none
  | none, _ => none

/-- The file that takes everything and holds nothing. -/
def nullDevice : String := "/dev/null"

/-- A file can be written under this path. -/
def writable (path : String) : Bool := path == nullDevice || (resolve? path).isSome

variable (d : Directory)

/-- The text of a file. -/
def read (path : String) : Option String :=
  if path == nullDevice then some ""
  else (resolve? path).bind fun name => d.files.lookup name

/-- Puts a file into the directory, in the place of one that has its name. -/
def write (path text : String) : Directory :=
  match resolve? path with
  | some name => ⟨(name, text) :: d.files⟩
  | none => d

/-- The lines of a file. -/
def lines? (path : String) : Option (List String) := (d.read path).map Text.lines

/-- The files as a command finds them. -/
def view : Files := { read := d.read, writable := writable }

/-- Carries out a command, which may leave its waveform in the directory. -/
def execute (arguments : List String) : Outcome × Directory :=
  let o := CommandLine.execute d.view arguments
  match o.waveform with
  | some (path, text) => (o, d.write path text)
  | none => (o, d)

end Directory

end RiscvPipeline.CommandLine
