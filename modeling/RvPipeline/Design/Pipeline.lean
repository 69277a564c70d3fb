import RvPipeline.Design.Execute
import RvPipeline.Design.Predictor
import RvPipeline.Design.Periph
import RvPipeline.Design.Mmu
import RvPipeline.Design.Cache
import RvPipeline.Lib.Clocked

/-!
# The core

`riscvpipeline.v`: its parameters, its registers, the wires between them and one
clock edge.  A wire is a function of the state (and, where the trap and stall
logic feeds back on itself, of `branch_taken`), named as in the source.
-/

namespace RvPipeline

/-! ## Parameters -/

inductive HazardStrategy where
  | forwarding | noForward
  deriving DecidableEq, Repr

inductive PipelineProfile where
  | fiveStage | splitFetch
  deriving DecidableEq, Repr

inductive BranchPredictor where
  | static | dynamicBhtBtb
  deriving DecidableEq, Repr

inductive CacheMode where
  | none | writebackSetassoc
  deriving DecidableEq, Repr

/-- The parameters of `PIPELINED`.  `XLEN` and the predictor's index width index
the state type instead, and `NUM_REGS` is 32.  `insts` is what `INIT_FILE` left in
the instruction memory. -/
structure Params where
  insts : ℕ → BitVec 8
  memSizeBytes : ℕ := 128
  dataInitFile : Option (List (BitVec 8)) := none
  zeroInitLimitOverride : ℕ := 0
  hazardStrategy : HazardStrategy := .forwarding
  pipelineProfile : PipelineProfile := .fiveStage
  uartClksPerBit : ℕ := 4
  branchPredictor : BranchPredictor := .static
  cacheMode : CacheMode := .none
  icache : CacheGeometry := {}
  dcache : CacheGeometry := {}
  memLatencyI : ℕ := 0
  memLatencyD : ℕ := 0

/-- `ZERO_INIT_LIMIT`. -/
def Params.zeroInitLimit (P : Params) : ℕ :=
  if P.zeroInitLimitOverride = 0 then
    if P.memSizeBytes < 65536 then P.memSizeBytes else 65536
  else P.zeroInitLimitOverride

/-! ## State -/

/-- `gen_imem_latency_added`. -/
structure ImemLatency (w : ℕ) where
  servedAddr : BitVec w
  servedValid : Bool
  model : LatencyModel
  abandoned : Bool
  deriving Inhabited

/-- `gen_dmem_latency_added`. -/
structure DmemLatency (w : ℕ) where
  reqActive : Bool
  reqAddr : BitVec w
  reqWe : Bool
  model : LatencyModel
  capturedThisReq : Bool
  capturedData : BitVec w
  deriving Inhabited

/-- The read-modify-write sequencer. -/
structure Amo (w : ℕ) where
  writePhase : Bool
  writeDone : Bool
  capturedRead : BitVec w
  deriving Inhabited

/-- Every register of the core; `w` is `XLEN` and `BHT_BTB_ENTRIES` is `2 ^ k`. -/
structure State (w k : ℕ) where
  pc : BitVec w
  reg1a : Reg1a w
  reg1 : Reg1 w
  reg2 : Reg2 w
  reg3 : Reg3 w
  reg4 : Reg4 w
  regs : RegFile w
  fregs : RegFile w
  bht : Bht k
  btb : Btb w k
  redirectSquashExtend : Bool
  idBubble : Bool
  memStallDone : Bool
  amo : Amo w
  div : Divider w
  fdiv : Fp.FDivider
  fsqrt : Fp.FSqrt
  csr : Csr w
  counters : Counters w
  tlb : Tlb
  ptw : Ptw w
  ptwServicingD : Bool
  ptwAbandoned : Bool
  dtlbVaddrR : BitVec w
  dtlbStoreDataR : BitVec w
  dtlbMissR : Bool
  pcStallR : Bool
  fencePending : Bool
  fenceFlushStarted : Bool
  icache : ICache w
  dcache : DCache w
  dcacheRdataCaptured : BitVec w
  imem : ImemLatency w
  dmem : DmemLatency w
  ram : RamPort w
  uart : Uart
  timer : Timer
  deriving Inhabited

/-- What the environment decides in one cycle: the serial line, and how the one
combinational loop settles.  `interrupt_taken` waits for `pc_stall`, whose miss and
hazard terms wait for `branch_taken`, which includes `interrupt_taken`; where both
values are consistent, `settle` picks one. -/
structure Inputs where
  uartRx : Bool := true
  settle : Bool := false

section Wires

variable {w k : ℕ} (P : Params) (s : State w k)

/-! ## Memory stage -/

def amoActive : Bool := s.reg3.isAmo
def amoFunct5 : BitVec 5 := s.reg3.funct7.extractLsb' 2 5
def amoIsLr : Bool := amoFunct5 s == amoF5Lr
def amoStall : Bool := amoActive s && !s.amo.writeDone

def effMemRead : Bool :=
  if amoActive s then !s.amo.writePhase && !s.amo.writeDone else s.reg3.memRead
def effMemWrite : Bool :=
  if amoActive s then s.amo.writePhase && !s.amo.writeDone else s.reg3.memWrite

def lsuCyc : Bool := effMemRead s || effMemWrite s

/-- The walker's request; it never writes. -/
def ptwReq : BusReq w :=
  { cyc := s.ptw.mCyc, stb := s.ptw.mCyc, we := false, addr := s.ptw.mAddr, data := 0
    funct3 := if w = 64 then f3LoadLd else 0b010#3 }

/-- The load/store unit's request. -/
def lsuReq : BusReq w :=
  { cyc := lsuCyc s, stb := lsuCyc s, we := effMemWrite s, addr := s.reg3.aluOut
    data := if amoActive s then amoCombined (amoFunct5 s) s.amo.capturedRead s.reg3.readData2
      else s.reg3.readData2
    funct3 := s.reg3.funct3 }

def idleReq : BusReq w :=
  { cyc := false, stb := false, we := false, addr := 0, data := 0, funct3 := 0 }

/-- `wb_m_*`: `gen_bus_mux_none` and `gen_bus_mux_cached`. -/
def busReq : BusReq w :=
  match P.cacheMode with
  | .none => if s.ptw.busy then ptwReq s else lsuReq s
  | .writebackSetassoc =>
    if s.dcache.mCyc then s.dcache.busReq P.dcache
    else if s.ptw.busy then ptwReq s else idleReq

/-! ### Slaves -/

def ramHit : Bool := wbHit 0 P.memSizeBytes (busReq P s).addr
def uartHit : Bool := wbHit uartBase uartSize (busReq P s).addr
def timerHit : Bool := wbHit timerBase timerSize (busReq P s).addr

def ramReq : BusReq w := (busReq P s).select (ramHit P s)
def timerReq : BusReq w := (busReq P s).select (timerHit P s)

/-- The UART's ports are 32 bits wide at every `XLEN`. -/
def uartReq : BusReq 32 :=
  let q := (busReq P s).select (uartHit P s)
  { cyc := q.cyc, stb := q.stb, we := q.we, addr := q.addr.setWidth 32, data := q.data.setWidth 32
    funct3 := q.funct3 }

def ramAckRaw : Bool := s.ram.ack (ramReq P s)

/-- `is_new_request`. -/
def dmemNewRequest : Bool :=
  (ramReq P s).cyc && (ramReq P s).stb &&
    (!s.dmem.reqActive || (ramReq P s).addr != s.dmem.reqAddr || (ramReq P s).we != s.dmem.reqWe)

/-- `wb_s_ack[0]`. -/
def ramAck : Bool := if P.memLatencyD = 0 then ramAckRaw P s else s.dmem.model.done

/-- `wb_s_data_i[0]`. -/
def ramData : BitVec w := if P.memLatencyD = 0 then s.ram.readData else s.dmem.capturedData

def lsuAck : Bool :=
  wbSelect false [(ramHit P s, ramAck P s),
    (uartHit P s, (uartReq P s).cyc && (uartReq P s).stb),
    (timerHit P s, Timer.ack (timerReq P s))]

def readData : BitVec w :=
  wbSelect 0 [(ramHit P s, ramData P s),
    (uartHit P s, (s.uart.readData (uartReq P s).addr).setWidth w),
    (timerHit P s, s.timer.readData (busReq P s).addr)]

/-! ### Data cache port -/

def dcacheReq : DCacheReq w :=
  { read := s.reg3.memRead && !s.ptw.busy, write := s.reg3.memWrite && !s.ptw.busy
    addr := s.reg3.aluOut, wdata := s.reg3.readData2, funct3 := s.reg3.funct3 }

def dcacheRespReady : Bool :=
  match P.cacheMode with
  | .none => false
  | .writebackSetassoc => s.dcache.respReady P.dcache (dcacheReq s) (lsuAck P s)

def dcacheRespRdata : BitVec w :=
  match P.cacheMode with
  | .none => 0
  | .writebackSetassoc => s.dcache.respRdata P.dcache (dcacheReq s) (readData P s) (lsuAck P s)

def dcacheFlushBusy : Bool :=
  match P.cacheMode with
  | .none => false
  | .writebackSetassoc => s.dcache.flushActive

def dcacheFlushDone : Bool :=
  match P.cacheMode with
  | .none => false
  | .writebackSetassoc => s.dcache.flushDone

/-! ### Interlock -/

def memAccessReady : Bool :=
  match P.cacheMode with
  | .none => lsuAck P s
  | .writebackSetassoc => if s.fencePending then dcacheFlushDone P s else dcacheRespReady P s

def memTrigger : Bool :=
  match P.cacheMode with
  | .none => s.reg3.memRead || (s.reg3.memWrite && !lsuAck P s)
  | .writebackSetassoc =>
    s.reg3.memRead || (s.reg3.memWrite && !dcacheRespReady P s) || s.fencePending

def memStall : Bool := memTrigger P s && !s.memStallDone

/-- The hold of `reg3` and `reg4`. -/
def memHold : Bool := memStall P s || amoStall s

/-! ## Write-back -/

def writeDataWb : BitVec w :=
  if s.reg4.isAmo then s.amo.capturedRead
  else if s.reg4.jump then s.reg4.pcPlus4
  else if s.reg4.memtoReg then s.reg4.readData
  else s.reg4.aluOut

/-! ## Execute stage -/

/-- `exmem_fwd_val`. -/
def exmemFwdVal : BitVec w := if s.reg3.jump then s.reg3.pcPlus4 else s.reg3.aluOut

/-- One integer operand after the forwarding mux of the selected strategy. -/
def forwarded (r : BitVec 5) (s0 : BitVec w) : BitVec w :=
  match P.hazardStrategy with
  | .forwarding =>
    forward r s.reg3.regWrite s.reg3.writeToReg (exmemFwdVal s) s.reg4.regWrite
      s.reg4.writeToReg (writeDataWb s) s0
  | .noForward => s0

/-- One float operand; float forwarding is on under both strategies. -/
def fforwarded (r : BitVec 5) (s0 : BitVec w) : BitVec w :=
  fforward r s.reg3.fRegWrite s.reg3.writeToReg (exmemFwdVal s) s.reg4.fRegWrite
    s.reg4.writeToReg (writeDataWb s) s0

def operands : Operands w :=
  { a := forwarded P s s.reg2.ctx.readReg1 s.reg2.ctx.readData1
    b := forwarded P s s.reg2.ctx.readReg2 s.reg2.ctx.readData2
    fa := fforwarded s s.reg2.ctx.readReg1 s.reg2.ctx.freadData1
    fb := fforwarded s s.reg2.ctx.readReg2 s.reg2.ctx.freadData2
    fc := fforwarded s s.reg2.ctx.readReg3 s.reg2.ctx.freadData3 }

def exAluOut : BitVec w := s.reg2.aluOut (operands P s)

def divStall : Bool := s.reg2.isDivRem && !s.div.done

def fpStall : Bool :=
  (s.reg2.isFpDiv && !s.fdiv.done) || (s.reg2.isFpSqrt && !s.fsqrt.done)

def fpResult : Fp.Result :=
  s.reg2.fpResult (operands P s) s.csr.frm s.fdiv.out s.fsqrt.out

/-! ## Translation -/

def translateEnable : Bool := s.csr.satpModeVal && s.csr.privMode != privM
def privIsU : Bool := s.csr.privMode == privU

def imemReadAddr : BitVec w :=
  match P.pipelineProfile with
  | .fiveStage => s.pc
  | .splitFetch => s.reg1a.pc

def itlbHit : Bool := s.tlb.hit (imemReadAddr P s)
def itlbPerm : Perm := (s.tlb.entry (imemReadAddr P s)).perm

def itlbHitFault : Bool :=
  translateEnable s && itlbHit P s &&
    !((itlbPerm P s).x && (if privIsU s then (itlbPerm P s).u else !(itlbPerm P s).u))

/-- A physical address from a page number and the offset of a virtual address. -/
def physAddr (ppn : BitVec 20) (va : BitVec w) : BitVec w := (ppn ++ va.extractLsb' 0 12).setWidth w

def imemPhysAddr : BitVec w :=
  if translateEnable s && itlbHit P s then
    physAddr (s.tlb.entry (imemReadAddr P s)).ppn (imemReadAddr P s)
  else imemReadAddr P s

def ptwDoneI : Bool := s.ptw.done && !s.ptwServicingD
def ptwDoneD : Bool := s.ptw.done && s.ptwServicingD

def ifetchFaultIf : Bool :=
  itlbHitFault P s || (ptwDoneI s && s.ptw.fault && !s.ptwAbandoned)

def dtlbNeeded : Bool := translateEnable s && (s.reg2.ctl.memRead || s.reg2.ctl.memWrite)

def dtlbVaddr : BitVec w := if s.dtlbMissR then s.dtlbVaddrR else exAluOut P s

def dtlbStoreData : BitVec w :=
  if s.dtlbMissR then s.dtlbStoreDataR else s.reg2.storeData (operands P s)

def lsHit : Bool := s.tlb.hit (dtlbVaddr P s)
def lsPerm : Perm := (s.tlb.entry (dtlbVaddr P s)).perm

def lsPermOk : Bool :=
  (if s.reg2.ctl.memWrite then (lsPerm P s).w else (lsPerm P s).r) &&
    (if privIsU s then (lsPerm P s).u else !(lsPerm P s).u)

def dtlbHitFault : Bool := dtlbNeeded s && lsHit P s && !lsPermOk P s

def dtlbPageFault : Bool :=
  dtlbHitFault P s || (ptwDoneD s && s.ptw.fault && !s.ptwAbandoned)

def memPaddr : BitVec w :=
  if translateEnable s && lsHit P s then
    physAddr (s.tlb.entry (dtlbVaddr P s)).ppn (dtlbVaddr P s)
  else dtlbVaddr P s

/-! ## Redirects other than interrupts -/

def exceptionTaken : Bool := s.reg2.exceptionTaken s.csr.privMode (dtlbPageFault P s)
def trapCause : BitVec w := s.reg2.trapCause s.csr.privMode (dtlbPageFault P s)
def mretReal : Bool := s.reg2.mretReal s.csr.privMode
def sretReal : Bool := s.reg2.sretReal s.csr.privMode
def sfenceReal : Bool := s.reg2.sfenceReal s.csr.privMode

def desiredTaken : Bool := s.reg2.desiredTaken (operands P s)
def mispredict : Bool := s.reg2.mispredict (operands P s)

def branchOrJumpRedirect : Bool :=
  match P.branchPredictor with
  | .dynamicBhtBtb => mispredict P s
  | .static => desiredTaken P s

def branchOrJumpTarget : BitVec w :=
  match P.branchPredictor with
  | .dynamicBhtBtb =>
    if !desiredTaken P s then s.reg2.pcPlus4 else s.reg2.immSum (operands P s)
  | .static => s.reg2.immSum (operands P s)

def otherRedirectTaken : Bool :=
  branchOrJumpRedirect P s || exceptionTaken P s || mretReal s || sretReal s

/-! ## Fetch -/

def imemRead : BitVec w → BitVec 32 := instructionMemory P.insts P.memSizeBytes

/-- `inst`. -/
def fetchInst : BitVec 32 :=
  match P.cacheMode with
  | .none => imemRead P (imemPhysAddr P s)
  | .writebackSetassoc => s.icache.inst P.icache (imemPhysAddr P s)

def icacheHit : Bool :=
  match P.cacheMode with
  | .none => true
  | .writebackSetassoc => s.icache.hit P.icache (imemPhysAddr P s)

/-- A word whose low two bits are not both set is a 16-bit instruction. -/
def isCompressedWord (inst : BitVec 32) : Bool := inst.extractLsb' 0 2 != 0b11#2

def isCompressed : Bool := isCompressedWord (fetchInst P s)

/-- `inst_final` of a fetched word. -/
def expandInst (inst : BitVec 32) : BitVec 32 :=
  if isCompressedWord inst then compressedExpander (inst.extractLsb' 0 16) else inst

def instFinal : BitVec 32 := expandInst (fetchInst P s)

def pcNew : BitVec w := s.pc + (if isCompressed P s then 2 else 4)

def predictTakenIf : Bool :=
  match P.branchPredictor with
  | .dynamicBhtBtb => s.bht.predictTaken s.pc && s.btb.hit s.pc
  | .static => false

def predictTargetIf : BitVec w :=
  match P.branchPredictor with
  | .dynamicBhtBtb => s.btb.target s.pc
  | .static => 0

def pcSpeculative : BitVec w := if predictTakenIf P s then predictTargetIf P s else pcNew P s

def predictTakenFetch : Bool :=
  match P.pipelineProfile with
  | .fiveStage => predictTakenIf P s
  | .splitFetch => s.reg1a.predictTaken

def predictTargetFetch : BitVec w :=
  match P.pipelineProfile with
  | .fiveStage => predictTargetIf P s
  | .splitFetch => s.reg1a.predictTarget

/-! ## Stalls

The terms that wait for `branch_taken` take it as the argument `bt`. -/

def rs1IsFloatFd : Bool :=
  opcodeOf s.reg1.inst == opcodeFp &&
    !(rs3Of s.reg1.inst == funct5FcvtSW || rs3Of s.reg1.inst == funct5FmvWX)

def isFmaFd : Bool := isFmaOpcode (opcodeOf s.reg1.inst)

def rs2IsFloatFd : Bool :=
  opcodeOf s.reg1.inst == opcodeFp || opcodeOf s.reg1.inst == opcodeStoreFp || isFmaFd s

def floatLoadUseHazard : Bool :=
  s.reg2.isLoadFp &&
    ((rs1IsFloatFd s && s.reg2.writeToReg == rs1Of s.reg1.inst) ||
     (rs2IsFloatFd s && s.reg2.writeToReg == rs2Of s.reg1.inst) ||
     (isFmaFd s && s.reg2.writeToReg == rs3Of s.reg1.inst))

/-- `stall` (and `flush`) of the selected hazard unit. -/
def hazardStall (bt : Bool) : Bool :=
  match P.hazardStrategy with
  | .forwarding =>
    hazard (rs1Of s.reg1.inst) (rs2Of s.reg1.inst) (s.reg2.ctl.memRead || s.reg2.ctl.isAmo)
      s.reg2.writeToReg
  | .noForward =>
    hazardNoForward (rs1Of s.reg1.inst) (rs2Of s.reg1.inst) s.reg2.ctl.regWrite s.reg2.writeToReg
      s.reg3.regWrite s.reg3.writeToReg bt

def itlbMiss (bt : Bool) : Bool :=
  translateEnable s && !itlbHit P s && !(ptwDoneI s && s.ptw.fault) && !bt &&
    !s.redirectSquashExtend

def icacheMiss (bt : Bool) : Bool :=
  (!translateEnable s || itlbHit P s) && !icacheHit P s && !bt && !s.redirectSquashExtend

def dtlbMiss (bt : Bool) : Bool :=
  dtlbNeeded s && !lsHit P s && !(ptwDoneD s && s.ptw.fault) && !bt

def imemNewAddr : Bool := !s.imem.servedValid || imemPhysAddr P s != s.imem.servedAddr

def imemLatencyStart (bt : Bool) : Bool :=
  imemNewAddr P s && !s.imem.model.busy && !s.imem.model.done &&
    (!translateEnable s || itlbHit P s) && !bt && !s.redirectSquashExtend

/-- Instruction-side latency exists only without a cache and with `MEM_LATENCY_I > 0`. -/
def imemLatencyAdded : Bool := P.cacheMode == .none && P.memLatencyI != 0

def imemWait (bt : Bool) : Bool :=
  imemLatencyAdded P && (imemLatencyStart P s bt || s.imem.model.busy) && !bt &&
    !s.redirectSquashExtend

def pcStallOf (bt : Bool) : Bool :=
  hazardStall P s bt || divStall s || memStall P s || fpStall s || floatLoadUseHazard s ||
    itlbMiss P s bt || dtlbMiss P s bt || icacheMiss P s bt || imemWait P s bt || amoStall s

def reg2HoldOf (bt : Bool) : Bool :=
  divStall s || memStall P s || fpStall s || dtlbMiss P s bt || amoStall s

/-! ## Interrupts -/

def pending : Pending :=
  { msip := s.timer.msipPending, timer := s.timer.pending, ext := s.uart.irq }

def meiPending : Bool := s.csr.mieMeie && (pending s).ext
def msiPending : Bool := s.csr.mieMsie && (pending s).msip
def mtiPending : Bool := s.csr.mieMtie && (pending s).timer
def ssiPending : Bool :=
  s.csr.mstatusSie && s.csr.mieSsie && s.csr.mipSsip && s.csr.privMode == privS
def stiPending : Bool :=
  s.csr.mstatusSie && s.csr.mieStie && s.csr.mipStip && s.csr.privMode == privS

/-- The request term of `interrupt_taken`. -/
def interruptRequest : Bool :=
  (s.csr.mstatusMie && (meiPending s || msiPending s || mtiPending s)) || ssiPending s ||
    stiPending s

def interruptCause : BitVec w :=
  if meiPending s then BitVec.ofNat w mcauseIntMachineExternal
  else if msiPending s then BitVec.ofNat w mcauseIntMachineSoftware
  else if mtiPending s then BitVec.ofNat w mcauseIntMachineTimer
  else if ssiPending s then BitVec.ofNat w mcauseIntSupervisorSoftware
  else BitVec.ofNat w mcauseIntSupervisorTimer

def interruptMepc : BitVec w := if s.idBubble then s.pc else s.reg1.pc

variable (i : Inputs)

/-- `interrupt_taken`.  `pcStallOf` can only drop as `bt` rises, so a request with no
other redirect is consistent with being taken iff `pcStallOf true` is low and with
being refused iff `pcStallOf false` is high. -/
def interruptTaken : Bool :=
  interruptRequest s && !otherRedirectTaken P s && !pcStallOf P s i.settle

/-- `branch_taken`, also called `unconditional_redirect`. -/
def branchTaken : Bool := otherRedirectTaken P s || interruptTaken P s i

def pcStall : Bool := pcStallOf P s (branchTaken P s i)
def reg2Hold : Bool := reg2HoldOf P s (branchTaken P s i)

/-- The `flush` port of `reg2`. -/
def reg2Flush : Bool :=
  let bt := branchTaken P s i
  hazardStall P s bt || floatLoadUseHazard s || itlbMiss P s bt || icacheMiss P s bt ||
    imemWait P s bt

/-! ## CSR port -/

def fpFlagsWe : Bool := (s.reg2.isOpFp || s.reg2.isFma) && !reg2Hold P s i

def csrIn : CsrIn w :=
  { csrWriteEn := s.reg2.ctl.isCsr && !reg2Hold P s i && !s.reg2.csrPrivViolation s.csr.privMode
    csrAddr := s.reg2.csrAddr
    csrOp := s.reg2.ctx.funct3.extractLsb' 0 2
    csrWdata := s.reg2.csrWdata (operands P s)
    trapTaken := (exceptionTaken P s && !reg2Hold P s i) || interruptTaken P s i
    trapPc := if interruptTaken P s i then interruptMepc s else s.reg2.ctx.pc
    trapCause := if interruptTaken P s i then interruptCause s else trapCause P s
    trapIsInterrupt := interruptTaken P s i
    trapValue :=
      if s.reg2.ctx.ifetchFault then s.reg2.ctx.pc
      else if dtlbPageFault P s then dtlbVaddr P s else 0
    mretTaken := mretReal s && !reg2Hold P s i
    sretTaken := sretReal s && !reg2Hold P s i
    fpFlagsWe := fpFlagsWe P s i
    fpFlagsIn := (fpResult P s).flags }

/-- `csr_rdata` at the address in EX. -/
def csrOldVal : BitVec w := s.csr.rdata s.counters (pending s) s.reg2.csrAddr

def trapTargetIsS : Bool := s.csr.trapTargetIsS (csrIn P s i)

def bpUpdateValid : Bool := (s.reg2.ctl.branch || s.reg2.ctl.jump) && !reg2Hold P s i

def icacheAccessNew : Bool :=
  !s.pcStallR && (!translateEnable s || itlbHit P s) && !branchTaken P s i &&
    !s.redirectSquashExtend

def csrEvents : CsrEvents :=
  let bt := branchTaken P s i
  { instret := s.reg3.valid && !memStall P s
    branchRetired := bpUpdateValid P s i
    mispredict := mispredict P s && !reg2Hold P s i
    icacheHit := icacheAccessNew P s i && icacheHit P s
    icacheMiss := icacheAccessNew P s i && !icacheHit P s
    dcacheHit := P.cacheMode != .none && s.dcache.accessHit P.dcache (dcacheReq s)
    dcacheMiss := P.cacheMode != .none && s.dcache.accessMiss P.dcache (dcacheReq s)
    stallCycle := pcStall P s i
    interrupt := interruptTaken P s i
    exception := exceptionTaken P s && !reg2Hold P s i
    stallHazard := hazardStall P s bt
    stallDiv := divStall s
    stallMem := memStall P s
    stallFp := fpStall s
    stallFloatLu := floatLoadUseHazard s
    stallItlb := itlbMiss P s bt
    stallDtlb := dtlbMiss P s bt
    stallIcache := icacheMiss P s bt
    stallImemWait := imemWait P s bt }

/-! ## Next PC and next pipeline registers -/

def redirectTarget : BitVec w :=
  if exceptionTaken P s || interruptTaken P s i then
    if trapTargetIsS P s i then s.csr.stvec else s.csr.mtvec
  else if mretReal s then s.csr.mepc
  else if sretReal s then s.csr.sepc
  else branchOrJumpTarget P s

def pcFinal : BitVec w := if branchTaken P s i then redirectTarget P s i else pcSpeculative P s

def reg1Next : Reg1 w :=
  { inst := instFinal P s, pc := imemReadAddr P s, predictTaken := predictTakenFetch P s
    predictTarget := predictTargetFetch P s, ifetchFault := ifetchFaultIf P s
    isCompressed := isCompressed P s }

/-- What ID hands to `reg2`. -/
def reg2Next : Reg2 w :=
  let inst := s.reg1.inst
  let read := s.regs.read s.reg4.regWrite s.reg4.writeToReg (writeDataWb s)
  let fread := s.fregs.fread s.reg4.fRegWrite s.reg4.writeToReg (writeDataWb s)
  { valid := !s.idBubble
    ctl := decodeControl w inst
    writeToReg := rdOf inst
    ctx :=
      { pc := s.reg1.pc
        readData1 := read (rs1Of inst)
        readData2 := read (rs2Of inst)
        freadData1 := fread (rs1Of inst)
        freadData2 := fread (rs2Of inst)
        freadData3 := fread (rs3Of inst)
        imm := immGen w inst
        funct7 := funct7Of inst
        funct3 := funct3Of inst
        readReg1 := rs1Of inst
        readReg2 := rs2Of inst
        readReg3 := rs3Of inst
        predictTaken := s.reg1.predictTaken
        predictTarget := s.reg1.predictTarget
        ifetchFault := s.reg1.ifetchFault
        isCompressed := s.reg1.isCompressed }
    inst := inst }

def exResult : BitVec w :=
  if s.reg2.isOpFp || s.reg2.isFma then (fpResult P s).result.setWidth w
  else if s.reg2.ctl.isCsr then csrOldVal s
  else if s.reg2.isDivRem then s.reg2.divResult s.div.quotient s.div.remainder
  else if s.reg2.ctl.memRead || s.reg2.ctl.memWrite then memPaddr P s
  else exAluOut P s

def reg3Bubble : Bool :=
  divStall s || fpStall s || dtlbMiss P s (branchTaken P s i) || exceptionTaken P s

/-- The EX/MEM input; a bubble clears the control fields and lets the data through. -/
def reg3Next : Reg3 w :=
  let live := !reg3Bubble P s i
  { valid := live && s.reg2.valid
    memtoReg := live && s.reg2.ctl.memtoReg
    regWrite := live && s.reg2.ctl.regWrite
    fRegWrite := live && s.reg2.ctl.fRegWrite
    memRead := live && s.reg2.ctl.memRead
    memWrite := live && s.reg2.ctl.memWrite
    aluOut := exResult P s
    readData2 := dtlbStoreData P s
    writeToReg := if live then s.reg2.writeToReg else 0
    jump := live && s.reg2.ctl.jump
    pcPlus4 := s.reg2.pcPlus4
    funct3 := s.reg2.ctx.funct3
    isAmo := live && s.reg2.ctl.isAmo
    funct7 := s.reg2.ctx.funct7 }

def reg4Next : Reg4 w :=
  .ofReg3 s.reg3
    (match P.cacheMode with
      | .none => readData P s
      | .writebackSetassoc => s.dcacheRdataCaptured)

/-! ## Small sequencers -/

def amoNext : Amo w :=
  if !amoActive s then { s.amo with writePhase := false, writeDone := false }
  else if !s.amo.writePhase then
    if lsuAck P s then
      if amoIsLr s then { s.amo with capturedRead := readData P s, writeDone := true }
      else { s.amo with capturedRead := readData P s, writePhase := true }
    else s.amo
  else if lsuAck P s then { s.amo with writeDone := true }
  else s.amo

def ptwReqD : Bool := dtlbMiss P s (branchTaken P s i)
def ptwReqI : Bool := itlbMiss P s (branchTaken P s i) && !ptwReqD P s i
def ptwStart : Bool := (ptwReqD P s i || ptwReqI P s i) && !lsuCyc s && !dcacheFlushBusy P s

def ptwNext : Ptw w :=
  s.ptw.step (ptwStart P s i) (if ptwReqD P s i then dtlbVaddr P s else imemReadAddr P s)
    s.csr.satpPpnVal (ptwReqI P s i) (ptwReqD P s i && s.reg2.ctl.memWrite) (privIsU s)
    (readData P s) (lsuAck P s)

def ptwFillValid : Bool := s.ptw.done && !s.ptw.fault

def tlbNext : Tlb :=
  s.tlb.step (sfenceReal s && !reg2Hold P s i) (ptwFillValid s)
    (if s.ptwServicingD then dtlbVaddr P s else imemReadAddr P s) s.ptw.resultPpn s.ptw.resultPerm

def fencePendingNext : Bool :=
  if dcacheFlushDone P s then false
  else if P.cacheMode != .none && s.reg2.ctl.isFence && !reg2Hold P s i then true
  else s.fencePending

def imemNext : ImemLatency w :=
  let bt := branchTaken P s i
  let serve := s.imem.model.done && !s.imem.abandoned
  { servedAddr := if serve then imemPhysAddr P s else s.imem.servedAddr
    servedValid := serve || s.imem.servedValid
    model := s.imem.model.step P.memLatencyI (imemLatencyStart P s bt)
    abandoned :=
      if s.imem.model.busy && bt then true
      else if s.imem.model.done then false else s.imem.abandoned }

def dmemNext : DmemLatency w :=
  let new := dmemNewRequest P s
  let capture := ramAckRaw P s && !s.dmem.capturedThisReq
  { reqActive := if new then true else if s.dmem.model.done then false else s.dmem.reqActive
    reqAddr := if new then (ramReq P s).addr else s.dmem.reqAddr
    reqWe := if new then (ramReq P s).we else s.dmem.reqWe
    model := s.dmem.model.step P.memLatencyD new
    capturedThisReq := if new then false else if capture then true else s.dmem.capturedThisReq
    capturedData := if !new && capture then s.ram.readData else s.dmem.capturedData }

end Wires

/-! ## One clock edge -/

section Step

variable {w k : ℕ} (P : Params)

/-- A clock edge with `start` high. -/
def step (s : State w k) (i : Inputs) : State w k :=
  let bt := branchTaken P s i
  { pc := pcStep (pcStall P s i) (pcFinal P s i) s.pc
    reg1a := s.reg1a.step (pcStall P s i)
      { pc := s.pc, predictTaken := predictTakenIf P s, predictTarget := predictTargetIf P s }
    reg1 := s.reg1.step (bt || s.redirectSquashExtend) (pcStall P s i) (reg1Next P s)
    reg2 := s.reg2.step (reg2Hold P s i) bt (reg2Flush P s i) (reg2Next s)
    reg3 := s.reg3.step (memHold P s) (reg3Next P s i)
    reg4 := s.reg4.step (memHold P s) (reg4Next P s)
    regs := s.regs.write s.reg4.regWrite s.reg4.writeToReg (writeDataWb s)
    fregs := s.fregs.fwrite s.reg4.fRegWrite s.reg4.writeToReg (writeDataWb s)
    bht := s.bht.step (bpUpdateValid P s i) s.reg2.ctx.pc (desiredTaken P s)
    btb := s.btb.step (bpUpdateValid P s i && desiredTaken P s) s.reg2.ctx.pc
      (s.reg2.immSum (operands P s))
    redirectSquashExtend := P.pipelineProfile == .splitFetch && bt
    idBubble :=
      if bt || s.redirectSquashExtend then true else if pcStall P s i then s.idBubble else false
    memStallDone := memStall P s && memAccessReady P s
    amo := amoNext P s
    div := s.div.step s.reg2.isDivRem s.reg2.isDivSigned (s.reg2.divDividend (operands P s))
      (s.reg2.divDivisor (operands P s))
    fdiv := s.fdiv.step s.reg2.isFpDiv (s.reg2.fpuRm s.csr.frm)
      (low32 (s.reg2.fpuOperandA (operands P s))) (low32 (operands P s).fb)
    fsqrt := s.fsqrt.step s.reg2.isFpSqrt (s.reg2.fpuRm s.csr.frm)
      (low32 (s.reg2.fpuOperandA (operands P s)))
    csr := s.csr.next s.counters (pending s) (csrIn P s i)
    counters := s.counters.next (csrIn P s i) (csrEvents P s i)
      (Csr.newVal (csrIn P s i).csrOp (csrOldVal s) (csrIn P s i).csrWdata)
    tlb := tlbNext P s i
    ptw := ptwNext P s i
    ptwServicingD := if ptwStart P s i && !s.ptw.busy then ptwReqD P s i else s.ptwServicingD
    ptwAbandoned :=
      if s.ptw.busy && bt then true else if s.ptw.done then false else s.ptwAbandoned
    dtlbVaddrR := if dtlbNeeded s && !s.dtlbMissR then exAluOut P s else s.dtlbVaddrR
    dtlbStoreDataR :=
      if dtlbNeeded s && !s.dtlbMissR then s.reg2.storeData (operands P s) else s.dtlbStoreDataR
    dtlbMissR := dtlbMiss P s bt
    pcStallR := pcStall P s i
    fencePending := fencePendingNext P s i
    fenceFlushStarted :=
      s.fencePending && (dcacheFlushBusy P s || s.fenceFlushStarted)
    icache := s.icache.step P.icache P.memLatencyI (imemRead P) (imemPhysAddr P s)
    dcache := s.dcache.step P.dcache (dcacheReq s) (readData P s) (lsuAck P s)
      (s.fencePending && !s.ptw.busy && !s.fenceFlushStarted)
    dcacheRdataCaptured :=
      if dcacheRespReady P s then dcacheRespRdata P s else s.dcacheRdataCaptured
    imem := imemNext P s i
    dmem := dmemNext P s
    ram := s.ram.step P.memSizeBytes (ramReq P s)
    uart := s.uart.step P.uartClksPerBit i.uartRx (uartReq P s)
    timer := s.timer.step (timerReq P s) }

/-- A clock edge with `start` low, from whatever the registers powered up to. -/
def reset (s : State w k) : State w k :=
  { pc := 0
    reg1a := .reset w
    reg1 := .bubble w
    reg2 := .reset w
    reg3 := .reset w
    reg4 := .reset w
    regs := .reset P.memSizeBytes
    fregs := fun _ ↦ 0
    bht := .reset k
    btb := .reset w k
    redirectSquashExtend := false
    idBubble := true
    memStallDone := false
    amo := { s.amo with writePhase := false, writeDone := false }
    div := s.div.reset
    fdiv := s.fdiv.reset
    fsqrt := s.fsqrt.reset
    csr := .reset w
    counters := .reset w
    tlb := s.tlb.invalidate
    ptw := s.ptw.reset
    ptwServicingD := false
    ptwAbandoned := false
    dtlbVaddrR := 0
    dtlbStoreDataR := 0
    dtlbMissR := false
    pcStallR := false
    fencePending := false
    fenceFlushStarted := false
    icache := s.icache.reset
    dcache := s.dcache.reset
    dcacheRdataCaptured := s.dcacheRdataCaptured
    imem := { s.imem with servedValid := false, model := .reset, abandoned := false }
    dmem := { s.dmem with reqActive := false, model := .reset, capturedThisReq := false }
    ram := s.ram.reset P.zeroInitLimit P.dataInitFile
    uart := s.uart.reset
    timer := .reset }

/-- The core as a clocked machine. -/
def core (w k : ℕ) : Clocked (State w k) Inputs where
  Init s := ∃ s₀, s = reset P s₀
  step := step P

/-- The state `n` cycles after reset, under the inputs `ins`. -/
abbrev run (s₀ : State w k) (ins : ℕ → Inputs) : ℕ → State w k := (core P w k).run (reset P s₀) ins

/-- The states of a core that has been through reset. -/
abbrev Reachable (s : State w k) : Prop := (core P w k).Reachable s

end Step

end RvPipeline
