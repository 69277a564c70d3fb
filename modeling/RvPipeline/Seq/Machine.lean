import RvPipeline.Seq.Units
import RvPipeline.Trap.Interrupt

/-!
# The sequential machine

One instruction at a time, with the decoder and the EX functions of the design: no pipeline
registers, no stalls, no forwarding, no prediction, no bus.  The pipeline is compared with
this machine; `Log` is what both commit, in order.
-/

namespace RvPipeline

variable {w k : ℕ}

/-- The architectural state. -/
structure Arch (w : ℕ) where
  pc : BitVec w
  regs : RegFile w
  fregs : RegFile w
  mem : Ram w
  csr : Csr w

/-! ## Fetch and issue -/

/-- The instruction at an address, expanded. -/
def instAt (P : Params) (pc : BitVec w) : BitVec 32 := expandInst (imemRead P pc)

/-- The ID/EX record of an instruction word: no operand read, nothing predicted. -/
def issueWord (pc : BitVec w) (inst : BitVec 32) (compressed : Bool) : Reg2 w :=
  { valid := true
    ctl := decodeControl w inst
    writeToReg := rdOf inst
    ctx :=
      { pc := pc, readData1 := 0, readData2 := 0, freadData1 := 0, freadData2 := 0
        freadData3 := 0, imm := immGen w inst, funct7 := funct7Of inst, funct3 := funct3Of inst
        readReg1 := rs1Of inst, readReg2 := rs2Of inst, readReg3 := rs3Of inst
        predictTaken := false, predictTarget := 0, ifetchFault := false
        isCompressed := compressed }
    inst := inst }

/-- The record of the instruction at an address. -/
def issue (P : Params) (pc : BitVec w) : Reg2 w :=
  issueWord pc (instAt P pc) (isCompressedWord (imemRead P pc))

/-- The value of an integer register; `x0` is zero. -/
def RegFile.get (f : RegFile w) (r : BitVec 5) : BitVec w := if r = 0 then 0 else f r

/-- The operands an instruction word names, in the given register files. -/
def readOperands (regs fregs : RegFile w) (inst : BitVec 32) : Operands w :=
  { a := regs.get (rs1Of inst), b := regs.get (rs2Of inst)
    fa := fregs (rs1Of inst), fb := fregs (rs2Of inst), fc := fregs (rs3Of inst) }

namespace Reg2

variable (r : Reg2 w) (o : Operands w)

/-- The float result, the iterative units included. -/
def fpValue (frm : BitVec 3) : Fp.Result :=
  r.fpResult o frm
    (Fp.FDivider.divide (r.fpuRm frm) (low32 (r.fpuOperandA o)) (low32 o.fb))
    (Fp.FSqrt.root (r.fpuRm frm) (low32 (r.fpuOperandA o)))

def divValue : BitVec w :=
  let p := Divider.divide r.isDivSigned (r.divDividend o) (r.divDivisor o)
  r.divResult p.1 p.2

/-- What EX hands on: the address of an access, or the result of anything else. -/
def value (c : Csr w) (p : Pending) : BitVec w :=
  if r.isOpFp || r.isFma then (r.fpValue o c.frm).result.setWidth w
  else if r.ctl.isCsr then c.archRdata p r.csrAddr
  else if r.isDivRem then r.divValue o
  else r.aluOut o

/-- The CSR port as the instruction alone drives it, with translation off. -/
def csrPort (c : Csr w) : CsrIn w :=
  { csrWriteEn := r.ctl.isCsr && !r.csrPrivViolation c.privMode
    csrAddr := r.csrAddr
    csrOp := r.ctx.funct3.extractLsb' 0 2
    csrWdata := r.csrWdata o
    trapTaken := r.exceptionTaken c.privMode false
    trapPc := r.ctx.pc
    trapCause := r.trapCause c.privMode false
    trapIsInterrupt := false
    trapValue := 0
    mretTaken := r.mretReal c.privMode
    sretTaken := r.sretReal c.privMode
    fpFlagsWe := r.isOpFp || r.isFma
    fpFlagsIn := (r.fpValue o c.frm).flags }

/-- The CSR file after the instruction. -/
def csrAfter (c : Csr w) (p : Pending) : Csr w :=
  c.nextWith (r.csrPort o c)
    (Csr.newVal (r.ctx.funct3.extractLsb' 0 2) (c.archRdata p r.csrAddr) (r.csrWdata o))

/-- The address of the instruction after it. -/
def pcAfter (c : Csr w) : BitVec w :=
  if r.exceptionTaken c.privMode false then
    if c.trapTargetIsS (r.csrPort o c) then c.stvec else c.mtvec
  else if r.mretReal c.privMode then c.mepc
  else if r.sretReal c.privMode then c.sepc
  else r.resolvedNext o

end Reg2

/-! ## One instruction -/

/-- A store that the memory map sends to the RAM. -/
def storeTo (P : Params) (m : Ram w) (addr data : BitVec w) (funct3 : BitVec 3) : Ram w :=
  if wbHit 0 P.memSizeBytes addr then m.write P.memSizeBytes addr data funct3 else m

namespace Arch

variable (P : Params) (p : Pending) (a : Arch w)

def issued : Reg2 w := issue P a.pc
def operands : Operands w := readOperands a.regs a.fregs (instAt P a.pc)

/-- The instruction raises a synchronous exception. -/
def traps : Bool := (a.issued P).exceptionTaken a.csr.privMode false

def address : BitVec w := (a.issued P).aluOut (a.operands P)

/-- The value for the destination register. -/
def result : BitVec w :=
  if (a.issued P).ctl.jump then (a.issued P).pcPlus4
  else if (a.issued P).ctl.memtoReg then
    loadExtend (a.issued P).ctx.funct3 (a.mem.rawWord (a.address P))
  else (a.issued P).value (a.operands P) a.csr p

def writesX : Bool := !a.traps P && (a.issued P).ctl.regWrite
def writesF : Bool := !a.traps P && (a.issued P).ctl.fRegWrite
def stores : Bool := !a.traps P && (a.issued P).ctl.memWrite

/-- Executes the instruction at `pc`. -/
def exec : Arch w :=
  { pc := (a.issued P).pcAfter (a.operands P) a.csr
    regs := a.regs.write (a.writesX P) (a.issued P).writeToReg (a.result P p)
    fregs := a.fregs.fwrite (a.writesF P) (a.issued P).writeToReg (a.result P p)
    mem :=
      if a.stores P then
        storeTo P a.mem (a.address P) ((a.issued P).storeData (a.operands P))
          (a.issued P).ctx.funct3
      else a.mem
    csr := (a.issued P).csrAfter (a.operands P) a.csr p }

/-- Takes an interrupt before the instruction at `pc`. -/
def interrupt (cause : BitVec w) : Arch w :=
  { a with pc := a.csr.interruptVector cause, csr := a.csr.takeInterrupt cause a.pc }

/-- The flags the instruction at `pc` raises. -/
def flags : BitVec 5 :=
  if (a.issued P).isOpFp || (a.issued P).isFma then
    ((a.issued P).fpValue (a.operands P) a.csr.frm).flags
  else 0

end Arch

/-! ## One instruction in any surroundings -/

/-- What decides an instruction beside the architectural state: the counters and the interrupt
lines a CSR read can see, the translation of data addresses, and the memory's answer. -/
structure Surroundings (w : ℕ) where
  counters : Counters w
  lines : Pending
  translate : BitVec w → BitVec w
  answer : BitVec w

namespace Reg2

variable (r : Reg2 w) (o : Operands w) (c : Csr w) (x : Surroundings w)

/-- The physical address of a load or store, or the result of anything else. -/
def outcome : BitVec w :=
  if r.isOpFp || r.isFma then (r.fpValue o c.frm).result.setWidth w
  else if r.ctl.isCsr then c.rdata x.counters x.lines r.csrAddr
  else if r.isDivRem then r.divValue o
  else if r.ctl.memRead || r.ctl.memWrite then x.translate (r.aluOut o)
  else r.aluOut o

/-- The value for the destination register. -/
def written : BitVec w :=
  if r.ctl.isAmo then x.answer
  else if r.ctl.jump then r.pcPlus4
  else if r.ctl.memtoReg then x.answer
  else r.outcome o c x

end Reg2

/-- The RAM after a store or an AMO, `old` being what the AMO has read. -/
def afterAccess (P : Params) (m : Ram w) (old : BitVec w) (write amo : Bool) (addr data : BitVec w)
    (funct3 : BitVec 3) (funct7 : BitVec 7) : Ram w :=
  if amo then
    if funct7.extractLsb' 2 5 = amoF5Lr then m
    else storeTo P m addr (amoCombined (funct7.extractLsb' 2 5) old data) funct3
  else if write then storeTo P m addr data funct3
  else m

/-- Executes an instruction that does not trap. -/
def Arch.execIn (P : Params) (r : Reg2 w) (x : Surroundings w) (a : Arch w) : Arch w :=
  let o := readOperands a.regs a.fregs r.inst
  { pc := r.pcAfter o a.csr
    regs := a.regs.write r.ctl.regWrite r.writeToReg (r.written o a.csr x)
    fregs := a.fregs.fwrite r.ctl.fRegWrite r.writeToReg (r.written o a.csr x)
    mem := afterAccess P a.mem x.answer r.ctl.memWrite r.ctl.isAmo (r.outcome o a.csr x)
      (r.storeData o) r.ctx.funct3 r.ctx.funct7
    csr := a.csr.nextWith (r.csrPort o a.csr)
      (Csr.newVal (r.ctx.funct3.extractLsb' 0 2) (a.csr.rdata x.counters x.lines r.csrAddr)
        (r.csrWdata o)) }

/-- The trap port of `CSR.v` as a synchronous exception of the instruction drives it, `fault` being
a page fault of its access to `va`. -/
def Reg2.exceptionIn (r : Reg2 w) (c : Csr w) (fault : Bool) (va : BitVec w) : CsrIn w :=
  { interruptIn (r.trapCause c.privMode fault) r.ctx.pc with
    csrAddr := r.csrAddr
    trapIsInterrupt := false
    trapValue := if r.ctx.ifetchFault then r.ctx.pc else if fault then va else 0 }

/-- Takes the exception of an instruction. -/
def Arch.except (r : Reg2 w) (fault : Bool) (a : Arch w) : Arch w :=
  let q := r.exceptionIn a.csr fault (r.aluOut (readOperands a.regs a.fregs r.inst))
  { a with
    pc := if a.csr.trapTargetIsS q then a.csr.stvec else a.csr.mtvec
    csr := a.csr.nextWith q 0 }

/-! ## Logs -/

/-- One entry of the retirement log, with the CSR file it leaves. -/
inductive Commit (w : ℕ) where
  | instr (pc : BitVec w) (csr : Csr w)
  | interrupt (resume : BitVec w) (csr : Csr w)

/-- Integer register writes, float register writes, memory writes, retirements; oldest first. -/
structure Log (w : ℕ) where
  x : List (BitVec 5 × BitVec w)
  f : List (BitVec 5 × BitVec w)
  m : List (BitVec w × BitVec w × BitVec 3)
  c : List (Commit w)

namespace Log

def empty : Log w := { x := [], f := [], m := [], c := [] }

instance : Append (Log w) where
  append l l' := { x := l.x ++ l'.x, f := l.f ++ l'.f, m := l.m ++ l'.m, c := l.c ++ l'.c }

/-- Componentwise prefix. -/
instance : LE (Log w) where
  le l l' := l.x <+: l'.x ∧ l.f <+: l'.f ∧ l.m <+: l'.m ∧ l.c <+: l'.c

instance : Preorder (Log w) where
  le_refl l := ⟨List.prefix_refl _, List.prefix_refl _, List.prefix_refl _, List.prefix_refl _⟩
  le_trans _ _ _ h h' := ⟨h.1.trans h'.1, h.2.1.trans h'.2.1, h.2.2.1.trans h'.2.2.1,
    h.2.2.2.trans h'.2.2.2⟩

@[ext] theorem ext {l l' : Log w} (hx : l.x = l'.x) (hf : l.f = l'.f) (hm : l.m = l'.m)
    (hc : l.c = l'.c) : l = l' := by
  cases l
  cases l'
  simp_all

@[simp] theorem append_x (l l' : Log w) : (l ++ l').x = l.x ++ l'.x := rfl
@[simp] theorem append_f (l l' : Log w) : (l ++ l').f = l.f ++ l'.f := rfl
@[simp] theorem append_m (l l' : Log w) : (l ++ l').m = l.m ++ l'.m := rfl
@[simp] theorem append_c (l l' : Log w) : (l ++ l').c = l.c ++ l'.c := rfl

theorem append_assoc (l l' l'' : Log w) : l ++ l' ++ l'' = l ++ (l' ++ l'') := by
  ext1 <;> simp

theorem append_empty (l : Log w) : l ++ empty = l := by
  ext1 <;> simp [empty]

theorem le_append (l l' : Log w) : l ≤ l ++ l' :=
  ⟨List.prefix_append _ _, List.prefix_append _ _, List.prefix_append _ _,
    List.prefix_append _ _⟩

theorem append_le_append_left (l : Log w) {l' l'' : Log w} (h : l' ≤ l'') : l ++ l' ≤ l ++ l'' :=
  ⟨(List.prefix_append_right_inj _).2 h.1, (List.prefix_append_right_inj _).2 h.2.1,
    (List.prefix_append_right_inj _).2 h.2.2.1, (List.prefix_append_right_inj _).2 h.2.2.2⟩

end Log

/-- A write to an integer register, if it is one. -/
def xEntry (en : Bool) (rd : BitVec 5) (v : BitVec w) : List (BitVec 5 × BitVec w) :=
  if en && rd != 0 then [(rd, v)] else []

def fEntry (en : Bool) (rd : BitVec 5) (v : BitVec w) : List (BitVec 5 × BitVec w) :=
  if en then [(rd, v)] else []

def mEntry (en : Bool) (addr data : BitVec w) (funct3 : BitVec 3) :
    List (BitVec w × BitVec w × BitVec 3) :=
  if en then [(addr, data, funct3)] else []

/-! ## Runs -/

/-- What the machine does next: an instruction, under the interrupt lines it can read in `mip`,
or an interrupt. -/
inductive Action (w : ℕ) where
  | exec (p : Pending)
  | interrupt (cause : BitVec w)
  deriving DecidableEq

namespace Arch

def act (P : Params) : Action w → Arch w → Arch w
  | .exec p, a => a.exec P p
  | .interrupt cause, a => a.interrupt cause

/-- What one action adds to the log. -/
def entries (P : Params) : Action w → Arch w → Log w
  | .exec p, a =>
    { x := xEntry (a.writesX P) (a.issued P).writeToReg (a.result P p)
      f := fEntry (a.writesF P) (a.issued P).writeToReg (a.result P p)
      m := mEntry (a.stores P) (a.address P) ((a.issued P).storeData (a.operands P))
        (a.issued P).ctx.funct3
      c := [.instr a.pc (a.exec P p).csr] }
  | .interrupt cause, a =>
    { x := [], f := [], m := [], c := [.interrupt a.pc (a.interrupt cause).csr] }

/-- The state after a list of actions. -/
def runActions (P : Params) (acts : List (Action w)) (a : Arch w) : Arch w :=
  acts.foldl (fun a act ↦ a.act P act) a

/-- The log of a list of actions. -/
def logActions (P : Params) : List (Action w) → Arch w → Log w
  | [], _ => .empty
  | act :: acts, a => a.entries P act ++ logActions P acts (a.act P act)

end Arch

end RvPipeline
