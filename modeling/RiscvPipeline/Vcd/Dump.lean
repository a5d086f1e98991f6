import RiscvPipeline.Error
import RiscvPipeline.Text.Lines
import RiscvPipeline.Vcd.Line

/-! A value change dump in the making: of every sample only the values that differ from the ones
before are written. -/

namespace RiscvPipeline

namespace Vcd

/-- A port with its position and the value it showed last. -/
structure Channel where
  port : Port
  position : Nat
  last : Option Word := none
  deriving DecidableEq

namespace Channel

variable (c : Channel)

/-- The line that reports a value. -/
def change (value : Word) : Line :=
  if c.port.bits = 1 then .scalar c.position value else .vector c.position value

/-- Shows a value: the channel that has it, and the line if it is a new one. -/
def present (raw : Word) : Channel × Option Line :=
  let value := c.port.shown raw
  if c.last = some value then (c, none) else ({ c with last := some value }, some (c.change value))

end Channel

end Vcd

structure Vcd where
  scope : String
  channels : List Vcd.Channel
  /-- The lines of the body so far, the last one first. -/
  written : List Vcd.Line := []
  deriving DecidableEq

namespace Vcd

/-- A dump without samples. -/
def new (scope : String) (ports : List Port) : Vcd :=
  { scope, channels := ports.zipIdx.map fun (p, n) => { port := p, position := n } }

variable (d : Vcd)

def ports : List Port := d.channels.map (·.port)

/-- Writes the values of all ports at a time. Without a change not even the time is written. -/
def record (time : Nat) (values : List Word) : Vcd :=
  let shown := List.zipWith Channel.present d.channels values
  let changes := shown.filterMap (·.2)
  { d with
    channels := shown.map (·.1)
    written := (if changes.isEmpty then [] else .time time :: changes).reverse ++ d.written }

/-- Writes a sample, which must have a value for every port. -/
def sample (time : Nat) (values : List Word) : Except SimError Vcd :=
  if values.length = d.channels.length then .ok (d.record time values)
  else .error (.config (.sampleSize values.length d.channels.length))

/-- The body so far. -/
def body : List Line := d.written.reverse

/-- The lines of the dump. -/
def lines : List String := header d.scope d.ports ++ d.body.map Line.render

/-- The text of the dump. -/
def text : String := Text.unlines d.lines

theorem body_record (time : Nat) (values : List Word) :
    (d.record time values).body = d.body ++
      let changes := (List.zipWith Channel.present d.channels values).filterMap (·.2)
      if changes.isEmpty then [] else .time time :: changes := by
  simp [record, body]

theorem record_ports (time : Nat) (values : List Word) (h : values.length = d.channels.length) :
    (d.record time values).ports = d.ports := by
  have (c : Channel) (v : Word) : (c.present v).1.port = c.port := by
    simp only [Channel.present]; split <;> rfl
  simp only [record, ports, List.map_map]
  rw [List.map_zipWith]
  simp only [Function.comp_apply, this]
  exact List.ext_getElem (by simp [h]) (by simp)

end Vcd

end RiscvPipeline
