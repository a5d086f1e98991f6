import RiscvPipeline.Clocked
import RiscvPipeline.Execute.Issue

/-! The execute stage: accepts one instruction at a time and in order, finishes it at once or with
the help of the functional units, the memory-access stage and the bus to the control and status
registers, and takes traps. -/

namespace RiscvPipeline

structure Execute where
  /-- Without the floating-point unit its instructions are illegal. -/
  fpuEnabled : Bool := true
  state : Execute.State := {}
  deriving DecidableEq

namespace Execute

namespace Cycle

variable (c : Cycle)

/-- The start of a cycle: the units see their triggers, which last one cycle, and a retired load
leaves the tracker. -/
def begin (r : State) (i : Input) : Cycle :=
  { next := { r with
      slots := r.slots.map fun s => { s with enable := false }
      hazards :=
        match i.retired with
        | some w => r.hazards.commit w.target w.tag
        | none => r.hazards }
    out := {
      npc := r.npc
      readIndex1 := (i.instruction.map (·.source1)).getD 0
      readIndex2 := (i.instruction.map (·.source2)).getD 0
      units := r.slots.map fun s =>
        { enable := s.enable, opcode := s.opcode, a := s.a, b := s.b } } }

/-- A unit finishes the operation of its slot. -/
def finishes (r : State) (i : Input) (s : Slot) : Bool :=
  (r.slots.get s).busy && (i.units.get s).valid

/-- Units that finish become idle. -/
def release (r : State) (i : Input) : Cycle :=
  { c with next.slots := PerSlot.ofFn fun s =>
      if finishes r i s then { c.next.slots.get s with busy := false, suppress := false }
      else c.next.slots.get s }

/-- The result of the unit that finishes, unless a trap has overtaken it. Of several units the last
one counts. -/
def unitResult? (r : State) (i : Input) : Option (Slot × UnitResponse) :=
  (Slot.all.filter fun s => finishes r i s && !(r.slots.get s).suppress).getLast?.map fun s =>
    (s, i.units.get s)

/-- Drives the bus for the transaction under way. -/
def driveCsr (r : State) (i : Input) : Cycle :=
  match r.csr.phase with
  | .idle => c
  | .request =>
    { next := if i.csr.ready then { c.next with csr.phase := .response } else c.next
      out := { c.out with csr :=
        { valid := true, command := r.csr.command, addr := r.csr.addr, data := r.csr.data } } }
  | .response =>
    { next :=
        if i.csr.valid then
          { c.next with csr := { c.next.csr with phase := .idle, discard := false } }
        else c.next
      out := { c.out with csr.ready := true } }

/-- The response of the bus, unless a trap has overtaken the transaction. -/
def csrResponse? (r : State) (i : Input) : Option CsrResponse :=
  if r.csr.phase = .response ∧ i.csr.valid ∧ !r.csr.discard then some i.csr else none

/-- Takes a trap: everything that is not finished is dropped. -/
def trap (target : Word) : Cycle :=
  { next := { c.next with
      npc := target
      phase := .waiting
      current := {}
      csr := if c.next.csr.phase = .idle then c.next.csr else { c.next.csr with discard := true }
      slots := c.next.slots.map fun s => if s.busy then { s with suppress := true } else s
      hazards := {} }
    out := { c.out with trapReady := true, hold := true, flush := true } }

/-- The stage is not ready for another instruction. -/
def occupied : Cycle := { c with out.busy := true, out.hold := true }

/-- A functional unit has finished. -/
def unitDone (r : State) (i : Input) (s : Slot) (u : UnitResponse) : Cycle :=
  let c := if s = .fpu then { c with out.fpuValid := true } else c
  let c :=
    if s = .fpu ∧ !u.flags.isEmpty then
      c.raise r.current.pc r.npc fun e => { e with fpu := u.flags }
    else c
  c.complete i.writeReady r.current.target u.result

/-- The value that replaces `old` in a control and status register. -/
def replacement (o : Opcode) (old operand : Word) : Word :=
  match o with
  | .csrrs | .csrrsi => old ||| operand
  | .csrrc | .csrrci => old &&& ~~~ operand
  | _ => operand

/-- The second half of an access that reads and writes. -/
def writeCsr (r : State) (o : Opcode) (old : Word) : Cycle :=
  { c with
    next.current := { c.next.current with result := old, writePending := false }
    next.csr :=
      { phase := .request
        command := .write
        addr := r.csr.addr
        data := replacement o old r.current.operand } }

/-- The bus has answered. -/
def csrDone (r : State) (i : Input) (q : CsrResponse) : Cycle :=
  match r.current.opcode with
  | none => c.ready
  | some o =>
    if q.exception then
      (c.raise r.current.pc r.npc fun e => { e with illegal := true }).ready
    else
      match o.cls with
      | .trapReturn => { c.ready with next.npc := q.data }
      | .csr =>
        if r.csr.command = .read then
          if r.current.writePending then c.writeCsr r o q.data
          else c.complete i.writeReady r.current.target q.data
        else c.complete i.writeReady r.current.target r.current.result
      | _ => c.ready

/-- What the stage does in its phase, if no trap comes. -/
def advance (fpuEnabled : Bool) (r : State) (i : Input) : Cycle :=
  match r.phase with
  | .multi =>
    match unitResult? r i with
    | some (s, u) => c.occupied.unitDone r i s u
    | none => c.occupied
  | .single =>
    if r.csr.phase = .idle then c.occupied.complete i.writeReady r.current.target r.current.result
    else
      match csrResponse? r i with
      | some q => c.occupied.csrDone r i q
      | none => c.occupied
  | .waiting | .hold | .hazard => c.issue fpuEnabled r i

end Cycle

variable (s : Execute) (i : Input)

/-- One cycle: the next registers and the outputs. -/
def step : Cycle :=
  let c := ((Cycle.begin s.state i).release s.state i).driveCsr s.state i
  match i.trap with
  | some target => c.trap target
  | none =>
    let c :=
      match i.npcWrite with
      | some npc => { c with next.npc := npc }
      | none => c
    c.advance s.fpuEnabled s.state i

def clocked : Clocked Execute Input Output State where
  output s i := (s.step i).out
  propose s i := (s.step i).next
  hold s := s.state
  edge s p := { s with state := p }
  reset s := { s with state := {} }

end Execute

end RiscvPipeline
