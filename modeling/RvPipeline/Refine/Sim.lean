import RvPipeline.Refine.Operands

/-!
# The simulation relation

`Sim` relates a state of a core without caches to a state of the sequential machine: what MEM
and WB drain to, the CSR file, the stream of instructions, and what EX and its iterative units
are working on.  `Safe` collects the conditions on a cycle under which the pipeline keeps it.
-/

namespace RvPipeline

variable {w k : ℕ} {P : Params} {s : State w k} {a : Arch w} {i : Inputs}

/-! ## What a cycle must not do -/

/-- A float arithmetic instruction, which accrues flags. -/
def isFloatArith (inst : BitVec 32) : Bool :=
  opcodeOf inst == opcodeFp || isFmaOpcode (opcodeOf inst)

/-- Some slave answers at this address. -/
def mapped (P : Params) (a : BitVec w) : Bool :=
  wbHit 0 P.memSizeBytes a || wbHit uartBase uartSize a || wbHit timerBase timerSize a

/-- The latency wrapper will not answer the load in MEM with a word it holds for another
request: it takes the load for a new request, and is not reporting an old one, or the word it
has for the request it is serving is the load's own. -/
def Recognised (P : Params) (s : State w k) : Prop :=
  if dmemNewRequest P s then s.dmem.model.done = false
  else if s.dmem.capturedThisReq then s.dmem.capturedData = loadValue s
  else ramAckRaw P s = true ∧ s.ram.readData = loadValue s

/-- What the sequential machine covers: translation is off; there is no AMO, and no access to a
counter; loads are from the RAM, and a slave answers a store. -/
structure Ordinary (P : Params) (s : State w k) : Prop where
  bare : translateEnable s = false
  amo : s.reg2.ctl.isAmo = false
  counter : s.reg2.ctl.isCsr = true → Csr.isCounterAddr s.reg2.csrAddr = false
  load : s.reg3.memRead = true → ramOnly P s.reg3.aluOut = true
  store : s.reg3.memWrite = true → mapped P s.reg3.aluOut = true

instance : Decidable (Ordinary P s) :=
  decidable_of_iff (translateEnable s = false ∧ s.reg2.ctl.isAmo = false ∧
      (s.reg2.ctl.isCsr = true → Csr.isCounterAddr s.reg2.csrAddr = false) ∧
      (s.reg3.memRead = true → ramOnly P s.reg3.aluOut = true) ∧
      (s.reg3.memWrite = true → mapped P s.reg3.aluOut = true))
    ⟨fun h ↦ ⟨h.1, h.2.1, h.2.2.1, h.2.2.2.1, h.2.2.2.2⟩,
      fun h ↦ ⟨h.bare, h.amo, h.counter, h.load, h.store⟩⟩

/-- A bubble with float bits raises no flag but those already set and those the instruction
behind it raises. -/
def FlagsOwn (P : Params) (s : State w k) (i : Inputs) : Prop :=
  s.reg2.valid = false → (s.reg2.isOpFp || s.reg2.isFma) = true → reg2Hold P s i = false →
    (fpResult P s).flags ||| (s.csr.fflags |||
      (s.reg2.fpValue (drainOperands s) s.csr.frm).flags) =
    s.csr.fflags ||| (s.reg2.fpValue (drainOperands s) s.csr.frm).flags

instance : Decidable (FlagsOwn P s i) := inferInstanceAs (Decidable (_ → _ → _ → _))

/-- A predicted redirect is not swallowed by a stall, and a bubble carries no prediction. -/
def PredictionKept (P : Params) (s : State w k) (i : Inputs) : Prop :=
  (branchTaken P s i = true → reg2Hold P s i = false → pcStall P s i = false) ∧
    (s.reg2.valid = false → s.reg2.ctx.predictTaken = false)

instance : Decidable (PredictionKept P s i) := inferInstanceAs (Decidable (_ ∧ _))

/-- No fused multiply-add enters EX right behind the load of its first operand. -/
def FmaApart (P : Params) (s : State w k) (i : Inputs) : Prop :=
  isFmaFd s = true → s.reg2.isLoadFp = true → s.reg2.writeToReg = rs1Of s.reg1.inst →
    reg2Flush P s i = true

instance : Decidable (FmaApart P s i) := inferInstanceAs (Decidable (_ → _ → _ → _))

/-- A load that enters MEM is recognised by the latency wrapper. -/
def LoadRecognised (P : Params) (s : State w k) (i : Inputs) : Prop :=
  memHold P s = false → (step P s i).reg3.memRead = true → Recognised P (step P s i)

instance : Decidable (Recognised P s) := by
  unfold Recognised
  infer_instance

instance : Decidable (LoadRecognised P s i) := inferInstanceAs (Decidable (_ → _ → _))

/-- The conditions on a cycle: it is ordinary, and none of the options that are on fails in it. -/
structure Safe (P : Params) (s : State w k) (i : Inputs) : Prop extends Ordinary P s where
  flags : FlagsOwn P s i
  predict : P.branchPredictor = .dynamicBhtBtb → PredictionKept P s i
  fma : P.hazardStrategy = .noForward → FmaApart P s i
  latency : P.memLatencyD ≠ 0 → LoadRecognised P s i
  split : P.pipelineProfile = .splitFetch → SplitOrderly P s i
  /-- an interrupt is clear, and not taken just before a float instruction in ID -/
  interrupt : interruptTaken P s i = true → InterruptClear P s i ∧
    (s.reg2.valid = false → s.idBubble = false → isFloatArith s.reg1.inst = false)

/-! ## The relation -/

/-- The fields of a decoded instruction that do not depend on the registers or the predictor. -/
def Reg2.strip (r : Reg2 w) : Reg2 w :=
  { r with
    ctx :=
      { r.ctx with
        readData1 := 0, readData2 := 0, freadData1 := 0, freadData2 := 0, freadData3 := 0
        predictTaken := false, predictTarget := 0 } }

/-- The CSR file is that of the sequential machine, but for flags that bubbles of the next
instruction have raised ahead of it. -/
def CsrAhead (P : Params) (s : State w k) (a : Arch w) : Prop :=
  ∃ early : BitVec 5, s.csr = { a.csr with fflags := a.csr.fflags ||| early } ∧
    early ||| a.flags P = a.flags P ∧
    (s.reg2.valid = false → s.idBubble = true → early = 0)

/-- An iterative unit has captured the operands of the instruction in EX. -/
def Captured (s : State w k) : Prop :=
  (s.reg2.isDivRem = true ∧ (s.div.busy = true ∨ s.div.done = true)) ∨
    (s.reg2.isFpDiv = true ∧ (s.fdiv.busy = true ∨ s.fdiv.done = true)) ∨
    (s.reg2.isFpSqrt = true ∧ (s.fsqrt.busy = true ∨ s.fsqrt.done = true))

/-- The iterative units: at rest without an instruction of theirs in EX, never busy and done
at once, and working for the operands `o` of the instruction in EX. -/
structure UnitsFor (s : State w k) (o : Operands w) : Prop where
  divIdle : s.reg2.isDivRem = false → s.div.busy = false ∧ s.div.done = false
  fdivIdle : s.reg2.isFpDiv = false → s.fdiv.busy = false ∧ s.fdiv.done = false
  fsqrtIdle : s.reg2.isFpSqrt = false → s.fsqrt.busy = false ∧ s.fsqrt.done = false
  divOne : s.div.busy = true → s.div.done = false
  fdivOne : s.fdiv.busy = true → s.fdiv.done = false
  fsqrtOne : s.fsqrt.busy = true → s.fsqrt.done = false
  div : s.reg2.valid = true → Divider.Tracks s.reg2.isDivSigned
    (s.reg2.divDividend o) (s.reg2.divDivisor o) s.div
  fdiv : s.reg2.valid = true → Fp.FDivider.Tracks (s.reg2.fpuRm s.csr.frm)
    (low32 (s.reg2.fpuOperandA o)) (low32 o.fb) s.fdiv
  fsqrt : s.reg2.valid = true → Fp.FSqrt.Tracks (s.reg2.fpuRm s.csr.frm)
    (low32 (s.reg2.fpuOperandA o)) s.fsqrt

theorem UnitsFor.init (s₀ : State w k) (o : Operands w) :
    UnitsFor (RvPipeline.reset P s₀) o where
  divIdle _ := ⟨rfl, rfl⟩
  fdivIdle _ := ⟨rfl, rfl⟩
  fsqrtIdle _ := ⟨rfl, rfl⟩
  divOne _ := rfl
  fdivOne _ := rfl
  fsqrtOne _ := rfl
  div h := absurd h Bool.false_ne_true
  fdiv h := absurd h Bool.false_ne_true
  fsqrt h := absurd h Bool.false_ne_true

structure Sim (P : Params) (s : State w k) (a : Arch w) : Prop where
  order : InOrder P s a.pc
  regs : drainX s = a.regs
  fregs : drainF s = a.fregs
  mem : drainM P s = a.mem
  x0 : a.regs 0 = 0
  csr : CsrAhead P s a
  id : s.idBubble = false → s.reg1.inst = instAt P s.reg1.pc ∧
    s.reg1.isCompressed = isCompressedWord (imemRead P s.reg1.pc)
  fault : s.reg1.ifetchFault = false ∧ s.reg2.ctx.ifetchFault = false
  ex : s.reg2.valid = true → s.reg2.strip = a.issued P
  bubble : s.reg2.valid = false → (s.reg2.isOpFp || s.reg2.isFma || s.reg2.isLoadFp) = true →
    s.idBubble = false ∧ s.reg2.inst = s.reg1.inst
  operands : s.reg2.valid = true → Fresh P s ∨ (Captured s ∧ memOp s = false)
  units : UnitsFor s (a.operands P)
  amo : s.reg3.isAmo = false ∧ s.reg4.isAmo = false
  load : s.memStallDone = true → s.reg3.memRead = true ∧ readData P s = loadValue s
  waiting : P.memLatencyD ≠ 0 → s.reg3.memRead = true → s.memStallDone = false → Recognised P s
  idle : WalkerIdle s

/-- The sequential machine at reset. -/
def Arch.reset (P : Params) (s₀ : State w k) : Arch w :=
  { pc := 0
    regs := .reset P.memSizeBytes
    fregs := fun _ ↦ 0
    mem := (s₀.ram.reset P.zeroInitLimit P.dataInitFile).dataMemory
    csr := .reset w }

theorem Sim.init (s₀ : State w k) : Sim P (RvPipeline.reset P s₀) (.reset P s₀) where
  order := InOrder.init s₀
  regs := by
    funext r
    simp [drainX, RvPipeline.reset, Reg3.reset, Reg4.reset, RegFile.write, Arch.reset]
  fregs := by
    funext r
    simp [drainF, RvPipeline.reset, Reg3.reset, Reg4.reset, RegFile.fwrite, Arch.reset]
  mem := by simp [drainM, RvPipeline.reset, Reg3.reset, Arch.reset]
  x0 := by simp [Arch.reset, RegFile.reset]
  csr := ⟨0, by simp [Arch.reset, RvPipeline.reset, Csr.reset], by simp, fun _ _ ↦ rfl⟩
  id h := absurd h.symm Bool.false_ne_true
  fault := ⟨rfl, rfl⟩
  ex h := absurd h Bool.false_ne_true
  bubble _ h := absurd (show false = true from h) Bool.false_ne_true
  operands h := absurd h Bool.false_ne_true
  units := .init s₀ _
  amo := ⟨rfl, rfl⟩
  load h := absurd h Bool.false_ne_true
  waiting _ h := absurd h Bool.false_ne_true
  idle := WalkerIdle.init s₀

end RvPipeline
