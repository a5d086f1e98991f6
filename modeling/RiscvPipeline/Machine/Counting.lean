import RiscvPipeline.Execute.State
import RiscvPipeline.Statistics

/-! What the counters count in a cycle. -/

namespace RiscvPipeline.Statistics

variable (s : Statistics)

/-- Counts what keeps the execute stage from accepting an instruction. A core that is halted from
outside counts as held. -/
def countStall (p : Execute.Phase) (held : Bool) : Statistics :=
  match p with
  | .hazard => { s with hazardStalls := s.hazardStalls + 1 }
  | .hold => { s with holdStalls := s.holdStalls + 1 }
  | _ => if held then { s with holdStalls := s.holdStalls + 1 } else s

/-- Counts an accepted instruction by whether it occupies a functional unit. -/
def countUnit (c : ExecClass) : Statistics :=
  if c.slot?.isSome then { s with multi := s.multi + 1 } else { s with single := s.single + 1 }

/-- Counts an accepted instruction by what it does. -/
def countKind : ExecClass → Statistics
  | .load => { s with loads := s.loads + 1 }
  | .store => { s with stores := s.stores + 1 }
  | .branch | .jump => { s with branches := s.branches + 1 }
  | .csr | .trapReturn | .wfi => { s with csrAccesses := s.csrAccesses + 1 }
  | _ => s

/-- Counts an accepted instruction. One that the program does not have counts as single. -/
def countInstruction (d : Option DecodedInstruction) : Statistics :=
  let s := { s with instructions := s.instructions + 1 }
  match d with
  | some d => (s.countUnit d.opcode.cls).countKind d.opcode.cls
  | none => { s with single := s.single + 1 }

end RiscvPipeline.Statistics
