import RvPipeline.Bus.Masters
import RvPipeline.Refine.Latency

/-!
# Hazard strategy and memory latency

Cores that differ only in the hazard strategy, or only in the two memory latencies, commit the
same sequence of writes, as long as nothing depends on time and no defect is met.  Stalling
instead of forwarding misses the first operand of a fused multiply-add behind the load of it; the
latency wrapper takes a load for the one before it if that had the same address.
-/

namespace RvPipeline

variable {w k : ℕ} {P : Params} {s : State w k} {i : Inputs}

/-! ## `HAZARD_STRATEGY` -/

def Params.withHazard (P : Params) (h : HazardStrategy) : Params := { P with hazardStrategy := h }

def cycleProgram : List (BitVec 32) :=
  [0x00100093,  -- addi  x1, x0, 1
   0x00108093,  -- addi  x1, x1, 1
   0xb00020f3,  -- csrrs x1, mcycle, x0
   0x0000006f]  -- j     .

def mtimeProgram : List (BitVec 32) :=
  [0x1010c2b7,  -- lui x5, 0x1010c
   0xff82a083,  -- lw  x1, -8(x5)
   0x0000006f]  -- j   .

def mipProgram : List (BitVec 32) :=
  [0x101042b7,  -- lui   x5, 0x10104
   0x00900093,  -- addi  x1, x0, 9
   0x0012a023,  -- sw    x1, 0(x5)
   0x00000013,  -- nop
   0x00000013,  -- nop
   0x00000013,  -- nop
   0x34402173,  -- csrrs x2, mip, x0
   0x0000006f]  -- j     .

def timerProgram : List (BitVec 32) :=
  [0x08000093,  -- addi  x1, x0, 128
   0x30409073,  -- csrw  mie, x1
   0x00800313,  -- addi  x6, x0, 8
   0x30032473,  -- csrrs x8, mstatus, x6
   0x00140393,  -- addi  x7, x8, 1
   0x0000006f]  -- j     .

def fmaProgram : List (BitVec 32) :=
  [0x3f8000b7,  -- lui     x1, 0x3f800
   0x00102023,  -- sw      x1, 0(x0)
   0xf00081d3,  -- fmv.w.x f3, x1
   0x00002087,  -- flw     f1, 0(x0)
   0x00308143,  -- fmadd.s f2, f1, f3, f0
   0x0000006f]  -- j       .

/-- The `lbu` follows the `lw` directly if its base is forwarded, and only then. -/
def rereadProgram : List (BitVec 32) :=
  [0x18000093,  -- addi x1, x0, 384
   0x00102023,  -- sw   x1, 0(x0)
   0x00000293,  -- addi x5, x0, 0
   0x00002183,  -- lw   x3, 0(x0)
   0x0002c203,  -- lbu  x4, 0(x5)
   0x0000006f]  -- j    .

/-- The core with the program, and everything at its default. -/
def programParams (program : List (BitVec 32)) : Params := { insts := instsOfWords program }

def Params.withLatency (P : Params) (d i : ℕ) : Params :=
  { P with memLatencyD := d, memLatencyI := i }

/-- A repeatable cycle, but for what the latency wrapper makes of a load. -/
structure RepeatableButLoads (P : Params) (s : State w k) (i : Inputs) : Prop
    extends Ordinary P s, Timeless P s i where
  flags : FlagsOwn P s i
  predict : P.branchPredictor = .dynamicBhtBtb → PredictionKept P s i
  fma : P.hazardStrategy = .noForward → FmaApart P s i
  split : P.pipelineProfile = .splitFetch → SplitOrderly P s i

theorem RepeatableButLoads.repeatable (h : RepeatableButLoads P s i)
    (hload : P.memLatencyD ≠ 0 → LoadRecognised P s i) : Repeatable P s i :=
  { h with
    latency := hload
    interrupt := fun hint ↦ absurd (h.quiet.symm.trans hint) Bool.false_ne_true }

/-- Loads of one address, of one width and then of another, with an instruction between. -/
def widthsProgram : List (BitVec 32) :=
  [0xf8000093,  -- addi x1, x0, -128
   0x04102023,  -- sw   x1, 64(x0)
   0x04002183,  -- lw   x3, 64(x0)
   0x04002203,  -- lw   x4, 64(x0)
   0x04400283,  -- lb   x5, 68(x0)
   0x00000013,  -- nop
   0x00000013,  -- nop
   0x00000013,  -- nop
   0x04000303,  -- lb   x6, 64(x0)
   0x0000006f]  -- j    .

def reloadProgram : List (BitVec 32) :=
  [0x08000093,  -- addi x1, x0, 128
   0x00102023,  -- sw   x1, 0(x0)
   0x00002183,  -- lw   x3, 0(x0)
   0x00000203,  -- lb   x4, 0(x0)
   0x0000006f]  -- j    .

end RvPipeline
