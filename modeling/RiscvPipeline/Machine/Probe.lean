import RiscvPipeline.Machine.Signals
import RiscvPipeline.Vcd.Dump

/-! The probes of the machine: the signals that its waveform shows. -/

namespace RiscvPipeline

/-- What a probe can see in a cycle. -/
structure Observation where
  /-- The reset line. -/
  reset : Bool
  /-- The phase of the execute stage. -/
  phase : Execute.Phase
  signals : Signals

/-- A port of the waveform with the value it shows. -/
structure Probe where
  name : String
  width : Nat
  value : Observation → Word

namespace Probe

/-- The number of a phase in the waveform. -/
def phaseNumber : Execute.Phase → Word
  | .waiting => 0
  | .single => 1
  | .multi => 2
  | .hold => 3
  | .hazard => 4

/-- A probe of one bit. -/
def bit (name : String) (value : Observation → Bool) : Probe :=
  ⟨name, 1, fun o => .ofBool (value o)⟩

/-- All probes, in the order of their ports. -/
def all : List Probe :=
  [bit "reset" (·.reset),
    bit "exec_valid" (·.signals.execute.valid),
    ⟨"exec_pc", 64, (·.signals.execute.pc)⟩,
    ⟨"exec_npc", 64, (·.signals.execute.npc)⟩,
    ⟨"exec_instr", 32, (·.signals.execute.word.setWidth 64)⟩,
    ⟨"exec_state", 3, fun o => phaseNumber o.phase⟩,
    bit "exec_hold" (·.signals.execute.hold),
    bit "wb_wena" (·.signals.execute.write.enable),
    ⟨"wb_waddr", 6, (·.signals.execute.write.target.setWidth 64)⟩,
    ⟨"wb_wdata", 64, (·.signals.execute.write.data)⟩,
    bit "memop_valid" (·.signals.execute.memoryOp.isSome),
    bit "memop_ready" (·.signals.access.ready),
    bit "dmem_req_valid" (·.signals.access.bus.valid),
    ⟨"dmem_req_addr", 64, (·.signals.access.bus.addr)⟩,
    bit "dmem_resp_valid" (·.signals.memory.valid),
    bit "memacc_wena" (·.signals.access.write.enable),
    bit "csr_req_valid" (·.signals.bus.slave.valid),
    ⟨"csr_req_type", 9, (·.signals.bus.slave.command.bits.setWidth 64)⟩,
    ⟨"csr_req_addr", 12, (·.signals.bus.slave.addr.setWidth 64)⟩,
    bit "csr_resp_valid" (·.signals.csr.valid),
    ⟨"csr_owner", 1, fun o => BitVec.ofNat 64 o.signals.bus.owner.index⟩,
    bit "trap_valid" (·.signals.trap.redirect.isSome),
    bit "trap_ready" (·.signals.execute.trapReady),
    bit "exception" (·.signals.execute.exceptions.any)]

/-- A waveform of all probes, without samples. -/
def waveform : Vcd := .new "rvpipe" (all.map fun p => ⟨p.name, p.width⟩)

/-- The values of all probes. -/
def values (o : Observation) : List Word := all.map fun p => p.value o

theorem length_values (o : Observation) : (values o).length = waveform.channels.length := by
  simp [values, waveform, Vcd.new]

end Probe

end RiscvPipeline
