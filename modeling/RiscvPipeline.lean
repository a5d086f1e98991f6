import RiscvPipeline.CommandLine.Directory
import RiscvPipeline.Datapath.LogicUnit
import RiscvPipeline.Json.Printer
import RiscvPipeline.Main
import RiscvPipeline.Proofs.Counters
import RiscvPipeline.Proofs.Csr.Agreement
import RiscvPipeline.Proofs.Csr.Arbitration
import RiscvPipeline.Proofs.Csr.Commands
import RiscvPipeline.Proofs.Csr.Interruption
import RiscvPipeline.Proofs.Csr.TrapRecord
import RiscvPipeline.Proofs.Datapath.Conversion
import RiscvPipeline.Proofs.Datapath.Inexact
import RiscvPipeline.Proofs.Datapath.Integer
import RiscvPipeline.Proofs.Debug.Access
import RiscvPipeline.Proofs.Debug.NextPc
import RiscvPipeline.Proofs.Debug.Reads
import RiscvPipeline.Proofs.Debug.Service
import RiscvPipeline.Proofs.Evaluation
import RiscvPipeline.Proofs.Exceptions
import RiscvPipeline.Proofs.Execute.Completion
import RiscvPipeline.Proofs.Execute.PendingList
import RiscvPipeline.Proofs.Execute.Reads
import RiscvPipeline.Proofs.Finished
import RiscvPipeline.Proofs.FloatIsolation
import RiscvPipeline.Proofs.Halt
import RiscvPipeline.Proofs.Image
import RiscvPipeline.Proofs.Interrupts
import RiscvPipeline.Proofs.Isa.Encoding
import RiscvPipeline.Proofs.Memory.Bytes
import RiscvPipeline.Proofs.Memory.Cadence
import RiscvPipeline.Proofs.Memory.Fifo
import RiscvPipeline.Proofs.Memory.Ring
import RiscvPipeline.Proofs.Memory.Service
import RiscvPipeline.Proofs.Memory.Traffic
import RiscvPipeline.Proofs.Refinement
import RiscvPipeline.Proofs.Reset
import RiscvPipeline.Proofs.Resumption
import RiscvPipeline.Proofs.Squash
import RiscvPipeline.Proofs.Units.Latency
import RiscvPipeline.Proofs.Vcd.Waveform
import RiscvPipeline.Proofs.WritePort
