import RvPipeline.Design.Stages
import RvPipeline.Design.Alu
import RvPipeline.Design.Fpu
import RvPipeline.Design.Csr

/-!
# The execute stage

The combinational part of EX in `riscvpipeline.v`, as functions of the ID/EX
register and of the operands the forwarding muxes deliver.  Nothing here looks at
the rest of the pipeline.
-/

namespace RvPipeline

variable {w : ℕ}

/-- `readData1_final`, `readData2_final` and `freadData1..3_final`. -/
structure Operands (w : ℕ) where
  a : BitVec w
  b : BitVec w
  fa : BitVec w
  fb : BitVec w
  fc : BitVec w

namespace Reg2

section Decoded

variable (r : Reg2 w)

def aluCtl : AluCtl := aluCtrl r.ctl.aluOp r.ctx.funct7 r.ctx.funct3

def opcode : BitVec 7 := opcodeOf r.inst

def wordOp : Bool := r.opcode == opcodeOp32 || r.opcode == opcodeOpImm32

def isOpFp : Bool := r.opcode == opcodeFp
def isLoadFp : Bool := r.opcode == opcodeLoadFp
def isStoreFp : Bool := r.opcode == opcodeStoreFp
def isFma : Bool := isFmaOpcode r.opcode
def funct5 : BitVec 5 := r.ctx.funct7.extractLsb' 2 5
def fmaOp : BitVec 2 := r.opcode.extractLsb' 2 2
def rs1IsFloat : Bool := r.isOpFp && !(r.funct5 == funct5FcvtSW || r.funct5 == funct5FmvWX)
def isFpDiv : Bool := r.isOpFp && r.funct5 == funct5Fdiv
def isFpSqrt : Bool := r.isOpFp && r.funct5 == funct5Fsqrt

/-- `fpu_rm`. -/
def fpuRm (frm : BitVec 3) : BitVec 3 := if r.ctx.funct3 = rmDyn then frm else r.ctx.funct3

def isDivRem : Bool :=
  r.aluCtl == .div || r.aluCtl == .divu || r.aluCtl == .rem || r.aluCtl == .remu

def isDivSigned : Bool := r.aluCtl == .div || r.aluCtl == .rem

/-- `pc_plus4_regde`, the fall-through address and the link value. -/
def pcPlus4 : BitVec w := r.ctx.pc + (if r.ctx.isCompressed then 2 else 4)

/-! ### Privilege checks and exceptions -/

def csrPrivViolation (priv : BitVec 2) : Bool :=
  r.ctl.isCsr && decide (priv < r.ctx.imm.extractLsb' 8 2)
def mretPrivViolation (priv : BitVec 2) : Bool := r.ctl.isMret && priv != privM
def sretPrivViolation (priv : BitVec 2) : Bool := r.ctl.isSret && priv == privU
def sfencePrivViolation (priv : BitVec 2) : Bool := r.ctl.isSfenceVma && priv == privU
def mretReal (priv : BitVec 2) : Bool := r.ctl.isMret && !r.mretPrivViolation priv
def sretReal (priv : BitVec 2) : Bool := r.ctl.isSret && !r.sretPrivViolation priv
def sfenceReal (priv : BitVec 2) : Bool := r.ctl.isSfenceVma && !r.sfencePrivViolation priv

/-- The sources `trap_cause` reports as an illegal instruction. -/
def illegal (priv : BitVec 2) : Bool :=
  r.ctl.illegalOpcode || r.aluCtl == .illegal || r.csrPrivViolation priv ||
    r.mretPrivViolation priv || r.sretPrivViolation priv || r.sfencePrivViolation priv

/-- `exception_taken`, given `dtlb_page_fault`. -/
def exceptionTaken (priv : BitVec 2) (dtlbPageFault : Bool) : Bool :=
  r.illegal priv || r.ctl.isEcall || r.ctl.isEbreak || r.ctx.ifetchFault || dtlbPageFault

/-- `trap_cause`. -/
def trapCause (priv : BitVec 2) (dtlbPageFault : Bool) : BitVec w :=
  if r.ctx.ifetchFault then BitVec.ofNat w mcauseInstructionPageFault
  else if dtlbPageFault then
    BitVec.ofNat w (if r.ctl.memWrite then mcauseStorePageFault else mcauseLoadPageFault)
  else if r.illegal priv then BitVec.ofNat w mcauseIllegalInstruction
  else if r.ctl.isEbreak then BitVec.ofNat w mcauseBreakpoint
  else if r.ctl.isEcall then
    BitVec.ofNat w
      (if priv = privM then mcauseEcallFromM
        else if priv = privS then mcauseEcallFromS else mcauseEcallFromU)
  else 0

end Decoded

section Datapath

variable (r : Reg2 w) (o : Operands w)

def immRegVal : BitVec w := if r.ctl.aluSrc then r.ctx.imm else o.b

/-- `aluA`: a mux on `{auipc, lui}` that has no fourth input and falls back to `rs1`. -/
def aluA : BitVec w :=
  if r.ctl.auipc && !r.ctl.lui then r.ctx.pc else if r.ctl.lui && !r.ctl.auipc then 0 else o.a

/-- `ALUOut`. -/
def aluOut : BitVec w := RvPipeline.aluOut r.aluCtl (r.aluA o) (r.immRegVal o) r.wordOp

/-- `zero`. -/
def zero : Bool := aluZero r.aluCtl (r.aluA o) (r.immRegVal o)

/-- Operand preparation of the divider. -/
def divOperand (x : BitVec w) : BitVec w :=
  if r.wordOp then
    if r.isDivSigned then (low32 x).signExtend w else (low32 x).setWidth w
  else x

def divDividend : BitVec w := r.divOperand (r.aluA o)
def divDivisor : BitVec w := r.divOperand (r.immRegVal o)

/-- `div_result`, from the divider's two outputs. -/
def divResult (quotient remainder : BitVec w) : BitVec w :=
  let raw := if r.aluCtl = .div ∨ r.aluCtl = .divu then quotient else remainder
  if r.wordOp then (low32 raw).signExtend w else raw

/-- `imm_sum`: the redirect target, bit 0 cleared. -/
def immSum : BitVec w :=
  let base := if r.ctl.jalr then o.a else r.ctx.pc
  let off := if r.ctl.jalr then r.ctx.imm else shiftLeftOne r.ctx.imm
  putBit (base + off) 0 false

def desiredTaken : Bool := (r.ctl.branch && r.zero o) || r.ctl.jump

def mispredict : Bool :=
  r.ctx.predictTaken != r.desiredTaken o ||
    (r.desiredTaken o && r.ctx.predictTarget != r.immSum o)

def fpuOperandA : BitVec w := if r.rs1IsFloat || r.isFma then o.fa else o.a

/-- `falu_result`, `falu_flags`. -/
def faluResult (frm : BitVec 3) : Fp.Result :=
  Fp.falu r.funct5 (r.fpuRm frm) r.ctx.readReg2 (low32 (r.fpuOperandA o)) (low32 o.fb)

/-- `fmadd_result`, `fmadd_flags`. -/
def fmaddResult (frm : BitVec 3) : Fp.Result :=
  Fp.fmadd r.fmaOp (r.fpuRm frm) (low32 o.fa) (low32 o.fb) (low32 o.fc)

/-- `fp_result` with `fp_flags`, given the outputs of the two iterative units. -/
def fpResult (frm : BitVec 3) (fdiv fsqrt : Fp.Result) : Fp.Result :=
  if r.isFma then r.fmaddResult o frm
  else if r.isFpDiv then fdiv
  else if r.isFpSqrt then fsqrt
  else r.faluResult o frm

/-- `dtlb_store_data` before the translation capture register. -/
def storeData : BitVec w := if r.isStoreFp then o.fb else o.b

/-- `csr_wdata`. -/
def csrWdata : BitVec w :=
  if r.ctx.funct3.getLsbD 2 then (rs1Of r.inst).setWidth w else o.a

def csrAddr : BitVec 12 := r.ctx.imm.setWidth 12

end Datapath

end Reg2

/-- `amo_combined`. -/
def amoCombined (funct5 : BitVec 5) (old rs2 : BitVec w) : BitVec w :=
  if funct5 = amoF5Add then old + rs2
  else if funct5 = amoF5Xor then old ^^^ rs2
  else if funct5 = amoF5And then old &&& rs2
  else if funct5 = amoF5Or then old ||| rs2
  else if funct5 = amoF5Min then if old.slt rs2 then old else rs2
  else if funct5 = amoF5Max then if rs2.slt old then old else rs2
  else if funct5 = amoF5Minu then if old.ult rs2 then old else rs2
  else if funct5 = amoF5Maxu then if rs2.ult old then old else rs2
  else rs2

end RvPipeline
