import RvPipeline.Design.Defs

/-!
# The CSR file

`CSR.v`, split into the architectural registers (`Csr`) and the performance
counters (`Counters`).  The module updates every register by its own priority
chain; `Csr.next` keeps those chains apart.
-/

namespace RvPipeline

variable {w : ℕ}

/-- The architectural registers of `CSR.v`. -/
structure Csr (w : ℕ) where
  mstatus : BitVec w
  mie : BitVec w
  mtvec : BitVec w
  mscratch : BitVec w
  mepc : BitVec w
  mcause : BitVec w
  fflags : BitVec 5
  frm : BitVec 3
  privMode : BitVec 2
  sscratch : BitVec w
  sepc : BitVec w
  scause : BitVec w
  stval : BitVec w
  mtval : BitVec w
  stvec : BitVec w
  satp : BitVec w
  mideleg : BitVec w
  medeleg : BitVec w
  mipSw : BitVec w
  deriving DecidableEq, Inhabited

/-- The performance counters of `CSR.v`. -/
structure Counters (w : ℕ) where
  mcycleLo : BitVec w
  mcycleHi : BitVec w
  minstretLo : BitVec w
  minstretHi : BitVec w
  mcountinhibit : BitVec w
  mhpmcounterLo : Fin numHpmCounters → BitVec w
  mhpmcounterHi : Fin numHpmCounters → BitVec w
  mhpmevent : Fin numHpmCounters → BitVec 5
  deriving Inhabited

/-- The live interrupt lines `CSR.v` ORs into `mip`. -/
structure Pending where
  msip : Bool
  timer : Bool
  ext : Bool
  deriving DecidableEq, Repr

/-- The write-side inputs of `CSR.v`. -/
structure CsrIn (w : ℕ) where
  csrWriteEn : Bool
  csrAddr : BitVec 12
  csrOp : BitVec 2
  csrWdata : BitVec w
  trapTaken : Bool
  trapPc : BitVec w
  trapCause : BitVec w
  trapIsInterrupt : Bool
  trapValue : BitVec w
  mretTaken : Bool
  sretTaken : Bool
  fpFlagsWe : Bool
  fpFlagsIn : BitVec 5

/-- The event inputs of `CSR.v`; `hpmEventPulse` numbers them as the module does. -/
structure CsrEvents where
  instret : Bool
  branchRetired : Bool
  mispredict : Bool
  icacheHit : Bool
  icacheMiss : Bool
  dcacheHit : Bool
  dcacheMiss : Bool
  stallCycle : Bool
  interrupt : Bool
  exception : Bool
  stallHazard : Bool
  stallDiv : Bool
  stallMem : Bool
  stallFp : Bool
  stallFloatLu : Bool
  stallItlb : Bool
  stallDtlb : Bool
  stallIcache : Bool
  stallImemWait : Bool

namespace Csr

/-! ## Views -/

def mstatusMie (c : Csr w) : Bool := c.mstatus.getLsbD mstatusMieBit
def mstatusSie (c : Csr w) : Bool := c.mstatus.getLsbD mstatusSieBit
def mieMsie (c : Csr w) : Bool := c.mie.getLsbD mieMsieBit
def mieMtie (c : Csr w) : Bool := c.mie.getLsbD mieMtieBit
def mieMeie (c : Csr w) : Bool := c.mie.getLsbD mieMeieBit
def mieSsie (c : Csr w) : Bool := c.mie.getLsbD mieSsieBit
def mieStie (c : Csr w) : Bool := c.mie.getLsbD mieStieBit
def mipSsip (c : Csr w) : Bool := c.mipSw.getLsbD mieSsieBit
def mipStip (c : Csr w) : Bool := c.mipSw.getLsbD mieStieBit

def mip (c : Csr w) (p : Pending) : BitVec w :=
  c.mipSw ||| bitAt w p.msip mieMsieBit ||| bitAt w p.timer mieMtieBit |||
    bitAt w p.ext mieMeieBit

def sstatusBits : List ℕ := [mstatusSieBit, mstatusSpieBit, mstatusSppBit]
def sieBits : List ℕ := [mieSsieBit, mieStieBit, mieSeieBit]

def satpModeVal (c : Csr w) : Bool :=
  if w = 32 then c.satp.getLsbD 31 else c.satp.extractLsb' 60 4 == 0x8#4

def satpPpnVal (c : Csr w) : BitVec 44 :=
  if w = 32 then (c.satp.extractLsb' 0 22).setWidth 44 else c.satp.extractLsb' 0 44

/-- `trap_target_is_s`: the delegation bit decides, except out of M-mode. -/
def trapTargetIsS (c : Csr w) (i : CsrIn w) : Bool :=
  let cause := (i.trapCause.extractLsb' 0 5).toNat
  let delegated := if i.trapIsInterrupt then c.mideleg.getLsbD cause else c.medeleg.getLsbD cause
  i.trapTaken && c.privMode != privM && delegated

/-! ## The read port -/

/-- The addresses that name a performance counter or its controls. -/
def isCounterAddr (a : BitVec 12) : Bool :=
  a == csrAddrMcountinhibit || a == csrAddrMcycle || a == csrAddrMcycleh ||
    a == csrAddrMinstret || a == csrAddrMinstreth ||
    (decide (csrAddrMhpmcounter3Base ≤ a) && decide (a < csrAddrMhpmcounter3Base + 9#12)) ||
    (decide (csrAddrMhpmcounter3hBase ≤ a) && decide (a < csrAddrMhpmcounter3hBase + 9#12)) ||
    (decide (csrAddrMhpmevent3Base ≤ a) && decide (a < csrAddrMhpmevent3Base + 9#12))

/-- The selected slot of a counter array; the address is in its window. -/
def hpmSlot {α : Type} (arr : Fin numHpmCounters → α) (base a : BitVec 12) : α :=
  arr (Fin.ofNat numHpmCounters (a - base).toNat)

def counterRdata (k : Counters w) (a : BitVec 12) : BitVec w :=
  if a = csrAddrMcountinhibit then k.mcountinhibit
  else if a = csrAddrMcycle then k.mcycleLo
  else if a = csrAddrMcycleh then k.mcycleHi
  else if a = csrAddrMinstret then k.minstretLo
  else if a = csrAddrMinstreth then k.minstretHi
  else if csrAddrMhpmcounter3Base ≤ a ∧ a < csrAddrMhpmcounter3Base + 9#12 then
    hpmSlot k.mhpmcounterLo csrAddrMhpmcounter3Base a
  else if csrAddrMhpmcounter3hBase ≤ a ∧ a < csrAddrMhpmcounter3hBase + 9#12 then
    hpmSlot k.mhpmcounterHi csrAddrMhpmcounter3hBase a
  else (hpmSlot k.mhpmevent csrAddrMhpmevent3Base a).setWidth w

/-- The arms of the read mux outside the counter addresses. -/
def archRdata (c : Csr w) (p : Pending) (a : BitVec 12) : BitVec w :=
  if a = csrAddrMstatus then
    -- UXL and SXL read as 2 at XLEN=64; they are not stored
    if w = 64 then putBits2 (putBits2 c.mstatus 32 2#2) 34 2#2 else c.mstatus
  else if a = csrAddrMie then c.mie
  else if a = csrAddrMtvec then c.mtvec
  else if a = csrAddrMscratch then c.mscratch
  else if a = csrAddrMepc then c.mepc
  else if a = csrAddrMcause then c.mcause
  else if a = csrAddrMip then c.mip p
  else if a = csrAddrFflags then c.fflags.setWidth w
  else if a = csrAddrFrm then c.frm.setWidth w
  else if a = csrAddrFcsr then (c.frm ++ c.fflags).setWidth w
  else if a = csrAddrSstatus then keepBits sstatusBits c.mstatus
  else if a = csrAddrSie then keepBits sieBits c.mie
  else if a = csrAddrSip then keepBits sieBits (c.mip p)
  else if a = csrAddrStvec then c.stvec
  else if a = csrAddrSscratch then c.sscratch
  else if a = csrAddrSepc then c.sepc
  else if a = csrAddrScause then c.scause
  else if a = csrAddrStval then c.stval
  else if a = csrAddrSatp then c.satp
  else if a = csrAddrMtval then c.mtval
  else if a = csrAddrMideleg then c.mideleg
  else if a = csrAddrMedeleg then c.medeleg
  else 0

/-- `csr_rdata`. -/
def rdata (c : Csr w) (k : Counters w) (p : Pending) (a : BitVec 12) : BitVec w :=
  if isCounterAddr a then counterRdata k a else archRdata c p a

/-- `new_val` of `CSR.v`, from the value read. -/
def newVal (op : BitVec 2) (old wdata : BitVec w) : BitVec w :=
  if op = 0b10#2 then old ||| wdata
  else if op = 0b11#2 then old &&& ~~~wdata
  else wdata

/-! ## The write port and the trap port -/

def mstatusBits : List ℕ := [3, 7, mstatusSieBit, mstatusSpieBit, mstatusSppBit, 11, 12]
def mieBits : List ℕ :=
  [mieMsieBit, mieMtieBit, mieMeieBit, mieSsieBit, mieStieBit, mieSeieBit]
def medelegBits : List ℕ := [2, 3, 8, 9, 11, 12, 13, 15]

/-- `{trap_is_interrupt, trap_cause[30:0]}`, 32 bits at every `XLEN`. -/
def causeWord (isInterrupt : Bool) (cause : BitVec w) : BitVec w :=
  (BitVec.ofBool isInterrupt ++ cause.extractLsb' 0 31).setWidth w

/-- The `mstatus` chain: trap to M, trap to S, mret, sret, then csr writes. -/
def nextMstatus (c : Csr w) (i : CsrIn w) (v : BitVec w) : BitVec w :=
  let m := c.mstatus
  if i.trapTaken && !trapTargetIsS c i then
    putBits2 (putBit (putBit m mstatusMpieBit (m.getLsbD mstatusMieBit)) mstatusMieBit false)
      mstatusMppLo c.privMode
  else if i.trapTaken && trapTargetIsS c i then
    putBit (putBit (putBit m mstatusSpieBit (m.getLsbD mstatusSieBit)) mstatusSieBit false)
      mstatusSppBit (c.privMode.getLsbD 0)
  else if i.mretTaken then
    putBits2 (putBit (putBit m mstatusMieBit (m.getLsbD mstatusMpieBit)) mstatusMpieBit true)
      mstatusMppLo privU
  else if i.sretTaken then
    putBit (putBit (putBit m mstatusSieBit (m.getLsbD mstatusSpieBit)) mstatusSpieBit true)
      mstatusSppBit false
  else if i.csrWriteEn && i.csrAddr == csrAddrMstatus then keepBits mstatusBits v
  else if i.csrWriteEn && i.csrAddr == csrAddrSstatus then
    (m &&& ~~~(keepBits sstatusBits (BitVec.allOnes w))) ||| keepBits sstatusBits v
  else m

def nextPrivMode (c : Csr w) (i : CsrIn w) : BitVec 2 :=
  if i.trapTaken then if trapTargetIsS c i then privS else privM
  else if i.mretTaken then c.mstatus.extractLsb' mstatusMppLo 2
  else if i.sretTaken then 0#1 ++ BitVec.ofBool (c.mstatus.getLsbD mstatusSppBit)
  else c.privMode

/-- The architectural registers after one clock edge; `v` is `new_val`. -/
def nextWith (c : Csr w) (i : CsrIn w) (v : BitVec w) : Csr w :=
  let toS := trapTargetIsS c i
  let wr (a : BitVec 12) : Bool := i.csrWriteEn && i.csrAddr == a
  { mstatus := nextMstatus c i v
    mie :=
      if wr csrAddrMie then keepBits mieBits v
      else if wr csrAddrSie then
        (c.mie &&& ~~~(keepBits sieBits (BitVec.allOnes w))) ||| keepBits sieBits v
      else c.mie
    mtvec := if wr csrAddrMtvec then v else c.mtvec
    mscratch := if wr csrAddrMscratch then v else c.mscratch
    mepc := if i.trapTaken && !toS then i.trapPc else if wr csrAddrMepc then v else c.mepc
    mcause :=
      if i.trapTaken && !toS then causeWord i.trapIsInterrupt i.trapCause
      else if wr csrAddrMcause then v else c.mcause
    fflags :=
      if i.fpFlagsWe then c.fflags ||| i.fpFlagsIn
      else if wr csrAddrFflags || wr csrAddrFcsr then v.extractLsb' 0 5 else c.fflags
    frm :=
      if wr csrAddrFrm then v.extractLsb' 0 3
      else if wr csrAddrFcsr then v.extractLsb' 5 3 else c.frm
    privMode := nextPrivMode c i
    sscratch := if wr csrAddrSscratch then v else c.sscratch
    sepc := if i.trapTaken && toS then i.trapPc else if wr csrAddrSepc then v else c.sepc
    scause :=
      if i.trapTaken && toS then causeWord i.trapIsInterrupt i.trapCause
      else if wr csrAddrScause then v else c.scause
    stval := if i.trapTaken && toS then i.trapValue else if wr csrAddrStval then v else c.stval
    mtval := if i.trapTaken && !toS then i.trapValue else if wr csrAddrMtval then v else c.mtval
    stvec := if wr csrAddrStvec then v else c.stvec
    satp := if wr csrAddrSatp then v else c.satp
    mideleg := if wr csrAddrMideleg then keepBits mieBits v else c.mideleg
    medeleg := if wr csrAddrMedeleg then keepBits medelegBits v else c.medeleg
    mipSw := if wr csrAddrMip || wr csrAddrSip then keepBits sieBits v else c.mipSw }

/-- One clock edge of the architectural half of `CSR.v`. -/
def next (c : Csr w) (k : Counters w) (p : Pending) (i : CsrIn w) : Csr w :=
  nextWith c i (newVal i.csrOp (rdata c k p i.csrAddr) i.csrWdata)

def reset (w : ℕ) : Csr w :=
  { mstatus := 0, mie := 0, mtvec := 0, mscratch := 0, mepc := 0, mcause := 0, fflags := 0
    frm := 0, privMode := privM, sscratch := 0, sepc := 0, scause := 0, stval := 0, mtval := 0
    stvec := 0, satp := 0, mideleg := 0, medeleg := 0, mipSw := 0 }

end Csr

namespace Counters

def reset (w : ℕ) : Counters w :=
  { mcycleLo := 0, mcycleHi := 0, minstretLo := 0, minstretHi := 0, mcountinhibit := 0
    mhpmcounterLo := fun _ ↦ 0, mhpmcounterHi := fun _ ↦ 0
    mhpmevent := fun i ↦ BitVec.ofNat 5 i.val + 1#5 }

def mcountinhibitMask : BitVec 12 := 0xFFD#12

/-- `hpm_event_pulse`. -/
def hpmEventPulse (e : CsrEvents) (sel : BitVec 5) : Bool :=
  match sel.toNat with
  | 1 => e.branchRetired
  | 2 => e.mispredict
  | 3 => e.icacheHit
  | 4 => e.icacheMiss
  | 5 => e.dcacheHit
  | 6 => e.dcacheMiss
  | 7 => e.stallCycle
  | 8 => e.interrupt
  | 9 => e.exception
  | 10 => e.stallHazard
  | 11 => e.stallDiv
  | 12 => e.stallMem
  | 13 => e.stallFp
  | 14 => e.stallFloatLu
  | 15 => e.stallItlb
  | 16 => e.stallDtlb
  | 17 => e.stallIcache
  | 18 => e.stallImemWait
  | _ => false

/-- `{hi, lo} + 1`, one half at a time. -/
def bump (hi lo : BitVec w) : BitVec w × BitVec w :=
  let n : BitVec (w + w) := hi ++ lo + 1
  (n.extractLsb' w w, n.extractLsb' 0 w)

/-- One clock edge of the counter half of `CSR.v`; `v` is `new_val`. -/
def next (k : Counters w) (i : CsrIn w) (e : CsrEvents) (v : BitVec w) : Counters w :=
  let wr (a : BitVec 12) : Bool := i.csrWriteEn && i.csrAddr == a
  let slot (base : BitVec 12) (n : Fin numHpmCounters) : Bool :=
    wr (base + BitVec.ofNat 12 n.val)
  let cyc := bump k.mcycleHi k.mcycleLo
  let ins := bump k.minstretHi k.minstretLo
  let cycRun := !wr csrAddrMcycle && !wr csrAddrMcycleh && !k.mcountinhibit.getLsbD 0
  let insRun := !wr csrAddrMinstret && !wr csrAddrMinstreth && e.instret &&
    !k.mcountinhibit.getLsbD 2
  let hpmRun (n : Fin numHpmCounters) : Bool :=
    !k.mcountinhibit.getLsbD (3 + n.val) && k.mhpmevent n != 0 &&
      hpmEventPulse e (k.mhpmevent n)
  { mcycleLo := if wr csrAddrMcycle then v else if cycRun then cyc.2 else k.mcycleLo
    mcycleHi :=
      if !wr csrAddrMcycle && wr csrAddrMcycleh then v
      else if cycRun then cyc.1 else k.mcycleHi
    minstretLo := if wr csrAddrMinstret then v else if insRun then ins.2 else k.minstretLo
    minstretHi :=
      if !wr csrAddrMinstret && wr csrAddrMinstreth then v
      else if insRun then ins.1 else k.minstretHi
    mcountinhibit :=
      if wr csrAddrMcountinhibit then v &&& mcountinhibitMask.setWidth w else k.mcountinhibit
    mhpmcounterLo := fun n ↦
      if slot csrAddrMhpmcounter3Base n then v
      else if slot csrAddrMhpmcounter3hBase n then k.mhpmcounterLo n
      else if hpmRun n then (bump (k.mhpmcounterHi n) (k.mhpmcounterLo n)).2
      else k.mhpmcounterLo n
    mhpmcounterHi := fun n ↦
      if slot csrAddrMhpmcounter3Base n then k.mhpmcounterHi n
      else if slot csrAddrMhpmcounter3hBase n then v
      else if hpmRun n then (bump (k.mhpmcounterHi n) (k.mhpmcounterLo n)).1
      else k.mhpmcounterHi n
    mhpmevent := fun n ↦
      if slot csrAddrMhpmevent3Base n then v.extractLsb' 0 5 else k.mhpmevent n }

end Counters

end RvPipeline
