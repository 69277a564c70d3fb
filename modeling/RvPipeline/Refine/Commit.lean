import RvPipeline.Refine.Execute

/-!
# What leaves EX

The CSR file and the next address after the instruction in EX are those of the sequential
machine, and what goes on to MEM carries its register write and its store.
-/

namespace RvPipeline

variable {w k : ℕ} {P : Params} {s : State w k} {a : Arch w} {i : Inputs} {p : Pending}

/-! ## The CSR port -/

/-- The CSR file cannot tell the two port values apart, `v` and `v'` being the values a CSR
write stores. -/
structure CsrIn.Agree (q q' : CsrIn w) (v v' : BitVec w) : Prop where
  write : q.csrWriteEn = q'.csrWriteEn
  addr : q.csrAddr = q'.csrAddr
  value : q.csrWriteEn = true → v = v'
  trap : q.trapTaken = q'.trapTaken
  trapPc : q.trapTaken = true → q.trapPc = q'.trapPc
  cause : q.trapTaken = true → q.trapCause = q'.trapCause
  isInterrupt : q.trapTaken = true → q.trapIsInterrupt = q'.trapIsInterrupt
  trapValue : q.trapTaken = true → q.trapValue = q'.trapValue
  mret : q.mretTaken = q'.mretTaken
  sret : q.sretTaken = q'.sretTaken
  flagsWe : q.fpFlagsWe = q'.fpFlagsWe
  flagsIn : q.fpFlagsWe = true → q.fpFlagsIn = q'.fpFlagsIn

namespace Csr

variable {c : Csr w} {q q' : CsrIn w} {v v' : BitVec w}

theorem trapTargetIsS_agree (h : q.Agree q' v v') : c.trapTargetIsS q = c.trapTargetIsS q' := by
  unfold Csr.trapTargetIsS
  rw [← h.trap]
  cases ht : q.trapTaken with
  | false => simp
  | true => simp [h.cause ht, h.isInterrupt ht]

theorem nextWith_agree (h : q.Agree q' v v') : c.nextWith q v = c.nextWith q' v' := by
  have htarget := trapTargetIsS_agree (c := c) h
  unfold Csr.nextWith Csr.nextMstatus Csr.nextPrivMode
  rw [htarget, ← h.write, ← h.addr, ← h.trap, ← h.mret, ← h.sret, ← h.flagsWe]
  cases hw : q.csrWriteEn with
  | true =>
    obtain rfl := h.value hw
    cases ht : q.trapTaken <;> cases hf : q.fpFlagsWe <;>
      simp [h.trapPc, h.cause, h.isInterrupt, h.trapValue, h.flagsIn, ht, hf]
  | false =>
    cases ht : q.trapTaken <;> cases hf : q.fpFlagsWe <;>
      simp [h.trapPc, h.cause, h.isInterrupt, h.trapValue, h.flagsIn, ht, hf]

/-- With only the flag port up, the flags accrue. -/
theorem nextWith_flags (hw : q.csrWriteEn = false) (ht : q.trapTaken = false)
    (hm : q.mretTaken = false) (hs : q.sretTaken = false) (hf : q.fpFlagsWe = true) :
    c.nextWith q v = { c with fflags := c.fflags ||| q.fpFlagsIn } := by
  simp [Csr.nextWith, Csr.nextMstatus, Csr.nextPrivMode, hw, ht, hm, hs, hf]

end Csr

/-! ## The CSR file after the instruction -/

/-- Float arithmetic neither traps nor returns nor writes a CSR. -/
theorem quiet_of_float (hdec : s.reg2.Decoded) (hfetch : s.reg2.ctx.ifetchFault = false)
    (hf : (s.reg2.isOpFp || s.reg2.isFma) = true) (priv : BitVec 2) :
    s.reg2.ctl.isCsr = false ∧ s.reg2.exceptionTaken priv false = false ∧
      s.reg2.mretReal priv = false ∧ s.reg2.sretReal priv = false := by
  rcases hdec.ctl_float hf with h | h | h <;>
    simp [Reg2.exceptionTaken, Reg2.illegal, Reg2.aluCtl, aluCtrl, h, hfetch,
      Reg2.csrPrivViolation, Reg2.mretPrivViolation, Reg2.sretPrivViolation,
      Reg2.sfencePrivViolation, Reg2.mretReal, Reg2.sretReal]

theorem Reg2.singleCycle_of_isCsr {r : Reg2 w} (hdec : r.Decoded) (h : r.ctl.isCsr = true) :
    r.singleCycle := by
  apply Reg2.singleCycle_of_not_float
  · by_contra hne
    have hctl := control_rtype _ hdec.ctl_mem (aluOp_of_isDivRem (by simpa using hne))
    simp [hctl] at h
  · by_contra hne
    rcases hdec.ctl_float (Bool.eq_true_of_not_eq_false hne) with hc | hc | hc <;> simp [hc] at h

theorem Sim.exec_csr (h : Sim P s a) (hval : s.reg2.valid = true) :
    (a.exec P p).csr = s.reg2.csrAfter (a.operands P) a.csr p := by
  change (a.issued P).csrAfter (a.operands P) a.csr p = _
  rw [← h.ex hval, Reg2.csrAfter_strip]

/-- What the CSR port carries of the instruction in EX, interrupts aside. -/
structure ExPort (P : Params) (s : State w k) (i : Inputs) (q : CsrIn w) : Prop where
  write : q.csrWriteEn = (csrIn P s i).csrWriteEn
  addr : q.csrAddr = s.reg2.csrAddr
  op : q.csrOp = s.reg2.ctx.funct3.extractLsb' 0 2
  wdata : q.csrWdata = s.reg2.csrWdata (operands P s)
  mret : q.mretTaken = (csrIn P s i).mretTaken
  sret : q.sretTaken = (csrIn P s i).sretTaken
  flagsWe : q.fpFlagsWe = (csrIn P s i).fpFlagsWe
  flagsIn : q.fpFlagsIn = (fpResult P s).flags
  trap : q.trapTaken = exceptionTaken P s
  record : q.trapTaken = true → q.trapPc = s.reg2.ctx.pc ∧ q.trapCause = trapCause P s ∧
    q.trapIsInterrupt = false ∧ q.trapValue = 0

theorem Sim.exPort_csrIn (h : Sim P s a) (hsafe : Safe P s i) (hhold : reg2Hold P s i = false)
    (hint : interruptTaken P s i = false) : ExPort P s i (csrIn P s i) where
  write := rfl
  addr := rfl
  op := rfl
  wdata := rfl
  mret := rfl
  sret := rfl
  flagsWe := rfl
  flagsIn := rfl
  trap := by simp [csrIn, hhold, hint]
  record _ := by simp [csrIn, hint, h.fault.2, h.dtlbPageFault_eq hsafe]

theorem exPort_of_interrupt (hint : interruptTaken P s i = true) :
    ExPort P s i { csrIn P s i with trapTaken := false, trapIsInterrupt := false } where
  write := rfl
  addr := rfl
  op := rfl
  wdata := rfl
  mret := rfl
  sret := rfl
  flagsWe := rfl
  flagsIn := rfl
  trap := by
    obtain ⟨-, hother, -⟩ := interruptTaken_spec hint
    simp only [otherRedirectTaken, Bool.or_eq_false_iff] at hother
    exact hother.1.1.2.symm
  record h := absurd h Bool.false_ne_true

/-- Outside float arithmetic the port of the sequential machine is the one in EX. -/
theorem ExPort.agree {q : CsrIn w} (hq : ExPort P s i q) (hdec : s.reg2.Decoded) (h : Sim P s a)
    (hsafe : Safe P s i) (hval : s.reg2.valid = true) (hhold : reg2Hold P s i = false)
    (hfp : (s.reg2.isOpFp || s.reg2.isFma) = false) (hcsr : s.csr = a.csr) :
    q.Agree (s.reg2.csrPort (a.operands P) a.csr)
      (Csr.newVal q.csrOp (s.csr.rdata s.counters (pending s) q.csrAddr) q.csrWdata)
      (Csr.newVal (s.reg2.ctx.funct3.extractLsb' 0 2)
        (a.csr.archRdata (pending s) s.reg2.csrAddr) (s.reg2.csrWdata (a.operands P))) := by
  have hfault := h.dtlbPageFault_eq hsafe
  rw [← hcsr]
  refine
    { write := ?_, addr := hq.addr, value := ?_, trap := ?_
      trapPc := fun ht ↦ (hq.record ht).1
      cause := ?_, isInterrupt := fun ht ↦ (hq.record ht).2.2.1
      trapValue := fun ht ↦ (hq.record ht).2.2.2
      mret := ?_, sret := ?_, flagsWe := ?_, flagsIn := ?_ }
  · simp [hq.write, csrIn, hhold, Reg2.csrPort]
  · intro hw
    have hc : s.reg2.ctl.isCsr = true := by
      rw [hq.write] at hw
      simp only [csrIn, Bool.and_eq_true] at hw
      exact hw.1.1
    have hmask := h.mask_eq hval (Reg2.singleCycle_of_isCsr hdec hc)
    have hwd : s.reg2.csrWdata (RvPipeline.operands P s) = s.reg2.csrWdata (a.operands P) := by
      have ha := congrArg Operands.a hmask
      change (RvPipeline.operands P s).a = (a.operands P).a at ha
      simp only [Reg2.csrWdata, ha]
    rw [hq.op, hq.addr, hq.wdata, hwd, Csr.rdata, hsafe.counter hc, if_neg Bool.false_ne_true]
  · simp [hq.trap, exceptionTaken, hfault, Reg2.csrPort]
  · intro ht
    simp [(hq.record ht).2.1, trapCause, hfault, Reg2.csrPort]
  · simp [hq.mret, csrIn, hhold, Reg2.csrPort, RvPipeline.mretReal]
  · simp [hq.sret, csrIn, hhold, Reg2.csrPort, RvPipeline.sretReal]
  · simp [hq.flagsWe, csrIn, fpFlagsWe, hhold, Reg2.csrPort]
  · intro ht
    simp [hq.flagsWe, csrIn, fpFlagsWe, hfp] at ht

theorem Sim.flags_of_not_float (h : Sim P s a) (hval : s.reg2.valid = true)
    (hfp : (s.reg2.isOpFp || s.reg2.isFma) = false) : a.flags P = 0 := by
  have hfp' : ((a.issued P).isOpFp || (a.issued P).isFma) = false := by
    rw [← h.ex hval]
    exact hfp
  simp [Arch.flags, hfp']

/-- Float arithmetic leaves its flags, those raised ahead of it among them. -/
theorem ExPort.csr_of_float {q : CsrIn w} (hq : ExPort P s i q) (hdec : s.reg2.Decoded)
    (h : Sim P s a) (hsafe : Safe P s i) (hval : s.reg2.valid = true)
    (hhold : reg2Hold P s i = false) (hfp : (s.reg2.isOpFp || s.reg2.isFma) = true)
    (v : BitVec w) : s.csr.nextWith q v = (a.exec P p).csr := by
  obtain ⟨hc, he, hmr, hsr⟩ := quiet_of_float hdec h.fault.2 hfp s.csr.privMode
  have hpriv := h.csr_fields.2.1
  have hfps : fpStall s = false := by
    rw [h.reg2Hold_eq hsafe, Bool.or_eq_false_iff, Bool.or_eq_false_iff] at hhold
    exact hhold.1.2
  have hres := h.fpResult_eq hdec hval hfp hfps
  obtain ⟨early, hcsr, hsub, -⟩ := h.csr
  have hflags : a.flags P = (fpResult P s).flags := by
    have hfp' : ((a.issued P).isOpFp || (a.issued P).isFma) = true := by
      rw [← h.ex hval]
      exact hfp
    rw [Arch.flags, if_pos hfp', hres]
  have hfin : (s.reg2.csrPort (a.operands P) a.csr).fpFlagsIn = a.flags P := by
    rw [hflags, hres, ← h.ex hval]
    rfl
  have hexec : (a.exec P p).csr = { a.csr with fflags := a.csr.fflags ||| a.flags P } := by
    rw [h.exec_csr hval, Reg2.csrAfter, Csr.nextWith_flags, hfin]
    · simp [Reg2.csrPort, hc]
    · simpa [Reg2.csrPort, ← hpriv] using he
    · simpa [Reg2.csrPort, ← hpriv] using hmr
    · simpa [Reg2.csrPort, ← hpriv] using hsr
    · simpa [Reg2.csrPort] using hfp
  have htrap : q.trapTaken = false := by rw [hq.trap, h.exceptionTaken_eq hsafe, he]
  rw [Csr.nextWith_flags (by simp [hq.write, csrIn, hc]) htrap
    (by simp [hq.mret, csrIn, RvPipeline.mretReal, hmr])
    (by simp [hq.sret, csrIn, RvPipeline.sretReal, hsr])
    (by simp [hq.flagsWe, csrIn, fpFlagsWe, hfp, hhold]), hexec, hcsr, hq.flagsIn, ← hflags]
  simp only [BitVec.or_assoc, hsub]

/-- The CSR file after the instruction in EX is that of the sequential machine. -/
theorem ExPort.csr_eq {q : CsrIn w} (hq : ExPort P s i q) (hdec : s.reg2.Decoded)
    (h : Sim P s a) (hsafe : Safe P s i) (hval : s.reg2.valid = true)
    (hhold : reg2Hold P s i = false) :
    s.csr.next s.counters (pending s) q = (a.exec P (pending s)).csr := by
  cases hfp : s.reg2.isOpFp || s.reg2.isFma with
  | true => exact hq.csr_of_float hdec h hsafe hval hhold hfp _
  | false =>
    have hcsr := h.csr_eq (h.flags_of_not_float hval hfp)
    rw [h.exec_csr hval]
    have hagree := hq.agree hdec h hsafe hval hhold hfp hcsr
    unfold Csr.next Reg2.csrAfter
    rw [Csr.nextWith_agree hagree, hcsr]

theorem Sim.step_csr (hdec : s.reg2.Decoded) (h : Sim P s a) (hsafe : Safe P s i)
    (hval : s.reg2.valid = true) (hhold : reg2Hold P s i = false)
    (hint : interruptTaken P s i = false) :
    (step P s i).csr = (a.exec P (pending s)).csr :=
  (h.exPort_csrIn hsafe hhold hint).csr_eq hdec h hsafe hval hhold

theorem Sim.csrAfterEx_eq (hdec : s.reg2.Decoded) (h : Sim P s a) (hsafe : Safe P s i)
    (hval : s.reg2.valid = true) (hint : interruptTaken P s i = true) :
    csrAfterEx P s i = (a.exec P (pending s)).csr :=
  (exPort_of_interrupt hint).csr_eq hdec h hsafe hval (reg2Hold_of_interruptTaken hint)

/-! ## The next address -/

theorem Sim.exec_pc (h : Sim P s a) (hval : s.reg2.valid = true) :
    (a.exec P p).pc = s.reg2.pcAfter (a.operands P) a.csr := by
  change (a.issued P).pcAfter (a.operands P) a.csr = _
  rw [← h.ex hval, Reg2.pcAfter_strip]

theorem Sim.resolvedNext_operands (hdec : s.reg2.Decoded) (h : Sim P s a)
    (hval : s.reg2.valid = true) :
    s.reg2.resolvedNext (RvPipeline.operands P s) = s.reg2.resolvedNext (a.operands P) := by
  rw [h.resolvedNext_eq hdec hval, ← h.ex hval, Reg2.resolvedNext_strip]

/-- EX goes on to where the sequential machine goes. -/
theorem Sim.programNext_eq (hdec : s.reg2.Decoded) (h : Sim P s a) (hsafe : Safe P s i)
    (hval : s.reg2.valid = true) (hhold : reg2Hold P s i = false)
    (hint : interruptTaken P s i = false) (e : BitVec w) :
    programNext P s i e = (a.exec P p).pc := by
  have hexc := h.exceptionTaken_eq hsafe
  obtain ⟨-, hpriv, hst, hmt, hme, hse, -, -⟩ := h.csr_fields
  rw [h.exec_pc hval]
  unfold programNext Reg2.pcAfter
  simp only [hhold, hval, hint, hexc, Bool.or_false, Bool.not_true, Bool.false_eq_true, if_false,
    RvPipeline.mretReal, RvPipeline.sretReal, hpriv, h.resolvedNext_operands hdec hval, hme, hse]
  cases ht : s.reg2.exceptionTaken a.csr.privMode false with
  | false => rfl
  | true =>
    -- only an instruction outside float arithmetic traps, so the CSR files agree
    have hfp : (s.reg2.isOpFp || s.reg2.isFma) = false := by
      by_contra hne
      have hq := quiet_of_float hdec h.fault.2 (Bool.eq_true_of_not_eq_false hne) a.csr.privMode
      rw [ht] at hq
      exact Bool.noConfusion hq.2.1
    have hcsr := h.csr_eq (h.flags_of_not_float hval hfp)
    have hagree := (h.exPort_csrIn hsafe hhold hint).agree hdec h hsafe hval hhold hfp hcsr
    have htarget := Csr.trapTargetIsS_agree (c := s.csr) hagree
    simp only [if_true, trapVector, trapTargetIsS, htarget, hst, hmt]
    rw [hcsr]

/-! ## What goes on to MEM -/

/-- A record that writes nothing. -/
structure Reg3.Silent (r : Reg3 w) : Prop where
  x : r.regWrite = true → r.writeToReg = 0
  f : r.fRegWrite = false
  read : r.memRead = false
  write : r.memWrite = false
  amo : r.isAmo = false

theorem RegFile.write_silent {f : RegFile w} {en : Bool} {rd : BitVec 5} {v : BitVec w}
    (h0 : f 0 = 0) (h : en = true → rd = 0) : f.write en rd v = f := by
  funext r
  unfold RegFile.write
  split_ifs with hr hd
  · simp only [Bool.and_eq_true, beq_iff_eq] at hr
    rw [hr.2, hd, h0]
  · simp only [Bool.and_eq_true] at hr
    exact absurd (h hr.1) hd
  · rfl

/-- What a stall or a trap sends on to MEM writes nothing. -/
theorem reg3Next_silent (h : reg3Bubble P s i = true) : (reg3Next P s i).Silent := by
  constructor <;> simp [reg3Next, h]

theorem writeToReg_of_bubble (hdec : s.reg2.Decoded) (hbub : BubbleInv s)
    (hval : s.reg2.valid = false) : s.reg2.writeToReg = 0 := by
  rcases hdec.control with ⟨-, hrd, -⟩ | ⟨hc, hrd⟩
  · exact hrd
  · rcases hbub.ex hval with he | ⟨hinst, -⟩
    · -- no word decodes to the empty control value
      have hmem := control_mem_controlValues w (opcodeOf s.reg2.inst) (funct7Of s.reg2.inst)
        (funct3Of s.reg2.inst) (csrImm12Of s.reg2.inst)
      have hno : ({} : Control) ∉ controlValues := by decide
      rw [he] at hc
      exact absurd (by rw [hc]; exact hmem) hno
    · rw [hrd, hinst]
      rfl

theorem reg3Next_silent_of_bubble (hdec : s.reg2.Decoded) (hbub : BubbleInv s)
    (hval : s.reg2.valid = false) : (reg3Next P s i).Silent := by
  have hctl := (bubble_cases hdec hbub hval).1
  have hrd := writeToReg_of_bubble hdec hbub hval
  rcases hctl with hc | hc <;> constructor <;> simp [reg3Next, hc, hrd]

theorem Sim.step_silent_of_trap (h : Sim P s a) (hval : s.reg2.valid = true)
    (hsafe : Safe P s i) (hhold : reg2Hold P s i = false) (ht : a.traps P = true) :
    (step P s i).reg3.Silent := by
  rw [step_reg3_of_move (memHold_eq_false_of_reg2Hold hhold)]
  apply reg3Next_silent
  have hexc : exceptionTaken P s = true := by
    rw [h.exceptionTaken_eq hsafe, h.csr_fields.2.1]
    rw [Arch.traps, ← h.ex hval] at ht
    exact ht
  simp [reg3Bubble, hexc]

theorem Sim.step_reg3_of_commit (h : Sim P s a) (hval : s.reg2.valid = true)
    (hsafe : Safe P s i) (hhold : reg2Hold P s i = false) (ht : a.traps P = false) :
    (step P s i).reg3 = exRecord P s := by
  apply step_reg3_of_retire hhold
  rw [h.exceptionTaken_eq hsafe, h.csr_fields.2.1]
  rw [Arch.traps, ← h.ex hval] at ht
  exact ht

/-- The address of an access is the result of EX. -/
theorem Arch.value_of_access (hdec : (a.issued P).Decoded)
    (hmem : (a.issued P).ctl.memRead = true ∨ (a.issued P).ctl.memWrite = true) :
    (a.issued P).value (a.operands P) a.csr p = a.address P ∧ (a.issued P).ctl.jump = false ∧
      (a.issued P).singleCycle := by
  have hctl : ∀ c ∈ ({} :: controlValues : List Control), c.memRead = true ∨ c.memWrite = true →
      c.jump = false ∧ c.isCsr = false ∧ c.aluOp ≠ .rtype ∧ c ≠ {} ∧ c ≠ { regWrite := true } ∧
        c ≠ { fRegWrite := true } := by decide
  obtain ⟨hj, hc, hop, h0, h1, h2⟩ := hctl _ hdec.ctl_mem hmem
  have hd : (a.issued P).isDivRem = false := by
    by_contra hne
    exact hop (aluOp_of_isDivRem (by simpa using hne))
  have hf : ((a.issued P).isOpFp || (a.issued P).isFma) = false := by
    by_contra hne
    rcases hdec.ctl_float (Bool.eq_true_of_not_eq_false hne) with hc | hc | hc
    · exact h0 hc
    · exact h1 hc
    · exact h2 hc
  refine ⟨?_, hj, Reg2.singleCycle_of_not_float hd hf⟩
  simp [Reg2.value, hf, hc, hd, Arch.address]

theorem Arch.issued_decoded : (a.issued P).Decoded where
  fields := ⟨rfl, rfl, rfl, rfl, rfl, rfl⟩
  control := .inr ⟨rfl, rfl⟩

section Record

variable (hmode : P.cacheMode = .none) (hdec : s.reg2.Decoded) (h : Sim P s a)
  (hsafe : Safe P s i) (hval : s.reg2.valid = true) (hhold : reg2Hold P s i = false)
  (ht : a.traps P = false)

include h hsafe hval hhold ht

theorem Sim.ctl_of_commit : (step P s i).reg3.regWrite = a.writesX P ∧
    (step P s i).reg3.fRegWrite = a.writesF P ∧ (step P s i).reg3.memWrite = a.stores P ∧
    (step P s i).reg3.writeToReg = (a.issued P).writeToReg ∧
    (step P s i).reg3.funct3 = (a.issued P).ctx.funct3 ∧
    (step P s i).reg3.memRead = (a.issued P).ctl.memRead ∧ (step P s i).reg3.isAmo = false := by
  rw [h.step_reg3_of_commit hval hsafe hhold ht]
  simp only [Arch.writesX, Arch.writesF, Arch.stores, ht, ← h.ex hval, Bool.not_false,
    Bool.true_and]
  exact ⟨rfl, rfl, rfl, rfl, rfl, rfl, hsafe.amo⟩

include hdec

theorem Sim.aluOut_of_commit :
    (step P s i).reg3.aluOut = (a.issued P).value (a.operands P) a.csr (pending s) := by
  rw [h.step_reg3_of_commit hval hsafe hhold ht]
  exact h.exResult_eq hdec hsafe hval hhold

include hmode

theorem Sim.value3_of_commit : value3 (step P s i) = a.result P (pending s) := by
  obtain ⟨-, -, -, -, hf3, -, -⟩ := h.ctl_of_commit hsafe hval hhold ht
  have halu := h.aluOut_of_commit hdec hsafe hval hhold ht
  have hmem : (step P s i).ram.dataMemory = a.mem :=
    (step_dataMemory hmode h.idle h.amo.1).trans h.mem
  have hjump : (step P s i).reg3.jump = (a.issued P).ctl.jump ∧
      (step P s i).reg3.pcPlus4 = (a.issued P).pcPlus4 ∧
      (step P s i).reg3.memtoReg = (a.issued P).ctl.memtoReg := by
    rw [h.step_reg3_of_commit hval hsafe hhold ht, ← h.ex hval]
    exact ⟨rfl, rfl, rfl⟩
  unfold value3 Arch.result loadValue
  rw [hjump.1, hjump.2.1, hjump.2.2, hf3, halu, hmem]
  cases hl : (a.issued P).ctl.memtoReg with
  | false => simp
  | true =>
    have hread : (a.issued P).ctl.memRead = true := by
      rw [← control_memtoReg _ Arch.issued_decoded.ctl_mem, hl]
    rw [(Arch.value_of_access Arch.issued_decoded (.inl hread)).1]

theorem Sim.drainM_of_commit : drainM P (step P s i) = (a.exec P p).mem := by
  obtain ⟨-, -, hw, -, hf3, -, -⟩ := h.ctl_of_commit hsafe hval hhold ht
  have halu := h.aluOut_of_commit hdec hsafe hval hhold ht
  have hmem : (step P s i).ram.dataMemory = a.mem :=
    (step_dataMemory hmode h.idle h.amo.1).trans h.mem
  have hdata : (step P s i).reg3.readData2 = s.reg2.storeData (RvPipeline.operands P s) := by
    rw [h.step_reg3_of_commit hval hsafe hhold ht]
    exact dtlbStoreData_of_idle h.idle
  unfold drainM Arch.exec
  rw [hw, hf3, halu, hmem, hdata]
  cases hst : a.stores P with
  | false => simp
  | true =>
    have hwrite : (a.issued P).ctl.memWrite = true := by
      simp only [Arch.stores, Bool.and_eq_true] at hst
      exact hst.2
    obtain ⟨haddr, -, hone⟩ :=
      Arch.value_of_access (p := pending s) Arch.issued_decoded (.inr hwrite)
    have hone' : s.reg2.singleCycle := by
      rw [← h.ex hval] at hone
      exact hone
    rw [haddr, h.storeData_eq hval hone']

end Record

end RvPipeline
