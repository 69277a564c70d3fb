import RvPipeline.Core.Order
import RvPipeline.Trap.CsrPort
import RvPipeline.Design.Bits

/-!
# The CSR file at an interrupt

In the cycle in which `interrupt_taken` fires the instruction in EX still retires, writes its
CSR and moves on to MEM, and the trap is taken on the same edge.  `CSR.v` arbitrates each
register separately between the two, so what the instruction writes to `mstatus`, to the
vector or to `mideleg` is not seen by the trap.  Where it writes nothing the trap reads, the CSR
file is that of the instruction's own write followed by the trap.
-/

namespace RvPipeline

variable {w k : ℕ} {P : Params} {s : State w k} {i : Inputs} {e : BitVec w}

/-! ## What the sequential machine does -/

/-- The trap port of `CSR.v` on its own, as an interrupt drives it. -/
def interruptIn (cause pc : BitVec w) : CsrIn w :=
  { csrWriteEn := false, csrAddr := 0, csrOp := 0, csrWdata := 0, trapTaken := true
    trapPc := pc, trapCause := cause, trapIsInterrupt := true, trapValue := 0
    mretTaken := false, sretTaken := false, fpFlagsWe := false, fpFlagsIn := 0 }

def Csr.takeInterrupt (c : Csr w) (cause pc : BitVec w) : Csr w :=
  c.nextWith (interruptIn cause pc) 0

def Csr.interruptVector (c : Csr w) (cause : BitVec w) : BitVec w :=
  if c.trapTargetIsS (interruptIn cause 0) then c.stvec else c.mtvec

/-- The CSR file after what the instruction in EX does to it, before any trap. -/
def csrAfterEx (P : Params) (s : State w k) (i : Inputs) : Csr w :=
  s.csr.next s.counters (pending s)
    { csrIn P s i with trapTaken := false, trapIsInterrupt := false }

/-- The EX/MEM record of the instruction in EX, nothing of it held back. -/
def exRecord (P : Params) (s : State w k) : Reg3 w :=
  { valid := s.reg2.valid
    memtoReg := s.reg2.ctl.memtoReg
    regWrite := s.reg2.ctl.regWrite
    fRegWrite := s.reg2.ctl.fRegWrite
    memRead := s.reg2.ctl.memRead
    memWrite := s.reg2.ctl.memWrite
    aluOut := exResult P s
    readData2 := dtlbStoreData P s
    writeToReg := s.reg2.writeToReg
    jump := s.reg2.ctl.jump
    pcPlus4 := s.reg2.pcPlus4
    funct3 := s.reg2.ctx.funct3
    isAmo := s.reg2.ctl.isAmo
    funct7 := s.reg2.ctx.funct7 }

/-- The bits of `mstatus` a trap to S or to M overwrites. -/
def stackedBits (toS : Bool) : List ℕ :=
  if toS then [mstatusSpieBit, mstatusSppBit]
  else [mstatusMpieBit, mstatusMppLo, mstatusMppLo + 1]

/-- The instruction in EX changes nothing the trap reads: `mstatus` outside the bits the trap
overwrites, the vector, the delegation of the cause; it is not waiting for the TLB, and no
abandoned data walk reports in its place. -/
structure InterruptClear (P : Params) (s : State w k) (i : Inputs) : Prop where
  status : ∀ b, b ∉ stackedBits (trapTargetIsS P s i) →
    (csrAfterEx P s i).mstatus.getLsbD b = s.csr.mstatus.getLsbD b
  vector : (if trapTargetIsS P s i then (csrAfterEx P s i).stvec
    else (csrAfterEx P s i).mtvec) = trapVector P s i
  delegation : (csrAfterEx P s i).mideleg.getLsbD ((interruptCause s).extractLsb' 0 5).toNat =
    s.csr.mideleg.getLsbD ((interruptCause s).extractLsb' 0 5).toNat
  translated : dtlbMiss P s false = false
  abandoned : ptwDoneD s = true → s.ptwAbandoned = false

/-! ## `mstatus` -/

/-- The trap arms of the `mstatus` chain. -/
def stackMstatus (toS : Bool) (m : BitVec w) (priv : BitVec 2) : BitVec w :=
  if toS then
    putBit (putBit (putBit m mstatusSpieBit (m.getLsbD mstatusSieBit)) mstatusSieBit false)
      mstatusSppBit (priv.getLsbD 0)
  else
    putBits2 (putBit (putBit m mstatusMpieBit (m.getLsbD mstatusMieBit)) mstatusMieBit false)
      mstatusMppLo priv

theorem stackMstatus_congr {toS : Bool} {m m' : BitVec w} {p : BitVec 2}
    (h : ∀ b, b ∉ stackedBits toS → m.getLsbD b = m'.getLsbD b) :
    stackMstatus toS m p = stackMstatus toS m' p := by
  apply BitVec.eq_of_getLsbD_eq
  intro j hj
  cases toS with
  | true =>
    have hsie := h mstatusSieBit (by decide)
    have hother := h j
    simp only [stackMstatus, if_true, getLsbD_putBit hj, hsie]
    split_ifs
    · rfl
    · rfl
    · rfl
    · exact hother (by simp [stackedBits, *])
  | false =>
    have hmie := h mstatusMieBit (by decide)
    have hother := h j
    simp only [stackMstatus, Bool.false_eq_true, if_false, putBits2, getLsbD_putBit hj, hmie]
    split_ifs
    · rfl
    · rfl
    · rfl
    · rfl
    · exact hother (by simp [stackedBits, *])

theorem nextMstatus_of_trap {c : Csr w} {q : CsrIn w} {v : BitVec w} (h : q.trapTaken = true) :
    c.nextMstatus q v = stackMstatus (c.trapTargetIsS q) c.mstatus c.privMode := by
  cases hS : c.trapTargetIsS q <;> simp [Csr.nextMstatus, stackMstatus, h, hS]

/-! ## The CSR file -/

/-- A trap on the same edge as an instruction's own writes is the trap after them, if these
leave alone what the trap reads. -/
theorem nextWith_interrupt {c : Csr w} {q : CsrIn w} {v : BitVec w} (htrap : q.trapTaken = true)
    (hint : q.trapIsInterrupt = true) (hvalue : q.trapValue = 0) (hmret : q.mretTaken = false)
    (hsret : q.sretTaken = false)
    (htarget : (c.nextWith { q with trapTaken := false, trapIsInterrupt := false } v).trapTargetIsS
      (interruptIn q.trapCause q.trapPc) = c.trapTargetIsS q)
    (hstatus : stackMstatus (c.trapTargetIsS q)
        (c.nextWith { q with trapTaken := false, trapIsInterrupt := false } v).mstatus
        c.privMode =
      stackMstatus (c.trapTargetIsS q) c.mstatus c.privMode) :
    c.nextWith q v =
      (c.nextWith { q with trapTaken := false, trapIsInterrupt := false } v).takeInterrupt
        q.trapCause q.trapPc := by
  set c' := c.nextWith { q with trapTaken := false, trapIsInterrupt := false } v with hc'
  have hpriv : c'.privMode = c.privMode := by
    simp [hc', Csr.nextWith, Csr.nextPrivMode, hmret, hsret]
  have hm : c.nextMstatus q v = c'.nextMstatus (interruptIn q.trapCause q.trapPc) 0 := by
    rw [nextMstatus_of_trap htrap, nextMstatus_of_trap rfl, htarget, hpriv, hstatus]
  have hp : c.nextPrivMode q = c'.nextPrivMode (interruptIn q.trapCause q.trapPc) := by
    have htaken : (interruptIn q.trapCause q.trapPc).trapTaken = true := rfl
    simp [Csr.nextPrivMode, htrap, htarget, htaken]
  unfold Csr.takeInterrupt
  rw [Csr.nextWith, Csr.nextWith, hm, hp, htarget]
  cases hS : c.trapTargetIsS q <;>
    simp [hc', Csr.nextWith, interruptIn, htrap, hint, hvalue, Csr.trapTargetIsS]

/-! ## The cycle of the interrupt -/

theorem csrIn_interrupt (hint : interruptTaken P s i = true) :
    (csrIn P s i).trapTaken = true ∧ (csrIn P s i).trapIsInterrupt = true ∧
      (csrIn P s i).trapCause = interruptCause s ∧ (csrIn P s i).trapPc = interruptMepc s ∧
      (csrIn P s i).trapValue = 0 ∧ (csrIn P s i).mretTaken = false ∧
      (csrIn P s i).sretTaken = false := by
  obtain ⟨hm, hs⟩ := not_return_of_interruptTaken hint
  obtain ⟨-, hother, -⟩ := interruptTaken_spec hint
  simp only [otherRedirectTaken, exceptionTaken, Reg2.exceptionTaken, Bool.or_eq_false_iff]
    at hother
  obtain ⟨⟨⟨-, ⟨-, hfetch⟩, hfault⟩, -⟩, -⟩ := hother
  simp [csrIn, hint, hm, hs, hfetch, hfault]

/-- An instruction that EX neither holds nor traps hands its whole record to MEM, interrupted
or not. -/
theorem step_reg3_of_retire (hhold : reg2Hold P s i = false) (hexc : exceptionTaken P s = false) :
    (step P s i).reg3 = exRecord P s := by
  have hmem := memHold_eq_false_of_reg2Hold hhold
  have hbub : reg3Bubble P s i = false := by
    simp only [reg2Hold, reg2HoldOf, Bool.or_eq_false_iff] at hhold
    simp [reg3Bubble, hhold, hexc]
  simp [step, Reg3.step, hmem, reg3Next, hbub, exRecord]

/-- The trap goes to the level the CSR file names after the instruction's own write. -/
theorem trapTargetIsS_afterEx (hint : interruptTaken P s i = true) (hclear : InterruptClear P s i)
    (pc : BitVec w) :
    (csrAfterEx P s i).trapTargetIsS (interruptIn (interruptCause s) pc) = trapTargetIsS P s i := by
  obtain ⟨htrap, hisint, hcause, -, -, hm, hs⟩ := csrIn_interrupt hint
  have hpriv : (csrAfterEx P s i).privMode = s.csr.privMode := by
    simp [csrAfterEx, Csr.next, Csr.nextWith, Csr.nextPrivMode, hm, hs]
  have hdel : (csrAfterEx P s i).mideleg.getLsbD ((interruptCause s).toNat % 32) =
      s.csr.mideleg.getLsbD ((interruptCause s).toNat % 32) := by
    simpa using hclear.delegation
  simp [Csr.trapTargetIsS, trapTargetIsS, interruptIn, htrap, hisint, hcause, hpriv, hdel]

theorem step_csr_of_interrupt (hint : interruptTaken P s i = true)
    (hclear : InterruptClear P s i) :
    (step P s i).csr = (csrAfterEx P s i).takeInterrupt (interruptCause s) (interruptMepc s) := by
  obtain ⟨htrap, hisint, hcause, hpc, hvalue, hm, hs⟩ := csrIn_interrupt hint
  have htarget := trapTargetIsS_afterEx hint hclear (interruptMepc s)
  have hstatus := stackMstatus_congr (p := s.csr.privMode) hclear.status
  rw [← hcause, ← hpc] at htarget ⊢
  exact nextWith_interrupt htrap hisint hvalue hm hs htarget hstatus

theorem step_pc_of_interrupt (hint : interruptTaken P s i = true)
    (hclear : InterruptClear P s i) :
    (step P s i).pc = (csrAfterEx P s i).interruptVector (interruptCause s) := by
  have htarget := trapTargetIsS_afterEx hint hclear 0
  have hstall := pcStall_of_interruptTaken hint
  have hbt := branchTaken_of_interruptTaken hint
  have hpc : (step P s i).pc = trapVector P s i := by
    simp [step, pcStep, hstall, pcFinal, hbt, redirectTarget, hint, trapVector]
  rw [hpc, Csr.interruptVector, htarget]
  exact hclear.vector.symm

end RvPipeline
