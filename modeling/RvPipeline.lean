import RvPipeline.Trap.Cause
import RvPipeline.Trap.Precise
import RvPipeline.Trap.Interrupt
import RvPipeline.Bus.Transaction
import RvPipeline.Seq.Machine
import RvPipeline.Refine.Drain
import RvPipeline.Refine.Operands
import RvPipeline.Refine.Sim
import RvPipeline.Refine.Execute
import RvPipeline.Refine.Commit
import RvPipeline.Refine.Step
import RvPipeline.Lib.Trace
import RvPipeline.Refine.Run
import RvPipeline.Refine.Progress
import RvPipeline.Refine.Liveness
import RvPipeline.Refine.Equiv
import RvPipeline.Bus.Masters
import RvPipeline.Config.Plain
import RvPipeline.Config.Timing
import RvPipeline.Config.Fetch
import RvPipeline.Iss.Model
import RvPipeline.Iss.Step
import RvPipeline.Seq.Division
import RvPipeline.Iss.Arith
import RvPipeline.Iss.Match
import RvPipeline.Iss.Exec
import RvPipeline.Iss.Access
import RvPipeline.Iss.CsrFile
import RvPipeline.Isa.Compressed
import RvPipeline.Isa.Expansion
import RvPipeline.Mem.Bytes
import RvPipeline.Vm.Walk
import RvPipeline.Vm.IssWalk
import RvPipeline.Vm.Privileged
import RvPipeline.Vm.Fill
import RvPipeline.Vm.DataAccess
import RvPipeline.Mem.Amo
import RvPipeline.Lib.Overlay
import RvPipeline.Mem.Coherence
import RvPipeline.Mem.CachedLsu
import RvPipeline.Mem.CachedRun
import RvPipeline.Mem.Invisible
import RvPipeline.Seq.Handshake
import RvPipeline.Iss.DivRem
import RvPipeline.Mem.ICache
import RvPipeline.Iss.Float
import RvPipeline.Lib.Rounding
import RvPipeline.Fp.Round
import RvPipeline.Fp.Sum
import RvPipeline.Fp.AddMul
import RvPipeline.Fp.Fused
import RvPipeline.Fp.DivSqrt
import RvPipeline.Fp.Flags
import RvPipeline.Mem.Mmio
import RvPipeline.Perf.Instret
import RvPipeline.Perf.Events
import RvPipeline.Lib.PyText
import RvPipeline.Tools.Asm
import RvPipeline.Tools.Disasm
import RvPipeline.Tools.RoundTrip
import RvPipeline.Fp.Convert
import RvPipeline.Mem.AmoValue
import RvPipeline.Trap.CsrOps
import RvPipeline.Iss.CsrOps
import RvPipeline.Trap.Privilege
import RvPipeline.Firmware.Hart
import RvPipeline.Firmware.TrapEntry
import RvPipeline.Lib.Packed
import RvPipeline.Tools.Fdt
import RvPipeline.Tools.FdtDecode
import RvPipeline.Tools.FdtRoundTrip
import RvPipeline.Bus.SerialFrame
import RvPipeline.Bus.SerialLink
import RvPipeline.Tools.Decoded
import RvPipeline.Iss.FloatStep
import RvPipeline.Iss.Legal
import RvPipeline.Tools.FdtCheck
import RvPipeline.Tools.RandomGen
import RvPipeline.Tools.Constants
import RvPipeline.Firmware.Sbi
import RvPipeline.Firmware.SbiCalls
import RvPipeline.Firmware.SbiTimer
import RvPipeline.Iss.TrapStacks
import RvPipeline.Iss.Moves
import RvPipeline.Iss.Raises
import RvPipeline.Iss.Run
import RvPipeline.Fp.Subnormal
import RvPipeline.Iss.InRange
import RvPipeline.Tools.Emitted
import RvPipeline.Tools.ProgramSize
import RvPipeline.Iss.System
import RvPipeline.Refine.Cosim
import RvPipeline.Refine.Interrupt
import RvPipeline.Core.Bubbles
import RvPipeline.Core.Settle
import RvPipeline.Lib.Cells
import RvPipeline.Perf.Predictor
import RvPipeline.Tools.MemFile

