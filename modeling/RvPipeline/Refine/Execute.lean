import RvPipeline.Refine.Sim

/-!
# EX against the sequential machine

The instruction in EX, when it leaves, computes what the sequential machine computes: same
result, same store, same CSR file, same next address.
-/

namespace RvPipeline

variable {w k : ℕ} {P : Params} {s : State w k} {a : Arch w} {i : Inputs} {p : Pending}

/-! ## What the relation gives at once -/

theorem Sim.csr_fields (h : Sim P s a) :
    s.csr.frm = a.csr.frm ∧ s.csr.privMode = a.csr.privMode ∧ s.csr.stvec = a.csr.stvec ∧
      s.csr.mtvec = a.csr.mtvec ∧ s.csr.mepc = a.csr.mepc ∧ s.csr.sepc = a.csr.sepc ∧
      s.csr.mideleg = a.csr.mideleg ∧ s.csr.medeleg = a.csr.medeleg := by
  obtain ⟨early, hcsr, -, -⟩ := h.csr
  simp [hcsr]

theorem Sim.csr_eq (h : Sim P s a) (hflags : a.flags P = 0) : s.csr = a.csr := by
  obtain ⟨early, hcsr, hsub, -⟩ := h.csr
  rw [hflags] at hsub
  have hzero : early = 0 := by simpa using hsub
  simpa [hzero] using hcsr

theorem Sim.inst_eq (h : Sim P s a) (hval : s.reg2.valid = true) :
    s.reg2.inst = instAt P a.pc :=
  congrArg Reg2.inst (h.ex hval)

theorem Sim.operands_eq (h : Sim P s a) (hval : s.reg2.valid = true) :
    a.operands P = drainOperands s := by
  simp only [Arch.operands, drainOperands, h.regs, h.fregs, h.inst_eq hval]

theorem Sim.dtlbPageFault_eq (h : Sim P s a) (hsafe : Safe P s i) : dtlbPageFault P s = false :=
  dtlbPageFault_of_bare h.idle hsafe.bare

theorem Sim.exceptionTaken_eq (h : Sim P s a) (hsafe : Safe P s i) :
    exceptionTaken P s = s.reg2.exceptionTaken s.csr.privMode false := by
  rw [exceptionTaken, h.dtlbPageFault_eq hsafe]

/-- EX is held by an iterative unit or by MEM. -/
theorem Sim.reg2Hold_eq (h : Sim P s a) (hsafe : Safe P s i) :
    reg2Hold P s i = (divStall s || fpStall s || memHold P s) := by
  have hamo : amoStall s = false := by simp [amoStall, amoActive, h.amo.1]
  simp only [reg2Hold, reg2HoldOf, dtlbMiss_of_bare hsafe.bare, hamo, memHold, Bool.or_false]
  cases divStall s <;> cases fpStall s <;> cases memStall P s <;> rfl

/-! ## Redirects -/

theorem control_load_cases : ∀ c ∈ ({} :: controlValues : List Control), c.memRead = true →
    c = { memRead := true, memtoReg := true, aluSrc := true, regWrite := true } ∨
      c = { memRead := true, memtoReg := true, aluSrc := true, fRegWrite := true } := by
  decide

/-- A load redirects nothing of its own accord. -/
theorem load_no_redirect (hdec : s.reg2.Decoded) (hload : s.reg2.ctl.memRead = true)
    (hfetch : s.reg2.ctx.ifetchFault = false) (o : Operands w) (priv : BitVec 2) :
    s.reg2.desiredTaken o = false ∧ s.reg2.exceptionTaken priv false = false ∧
      s.reg2.mretReal priv = false ∧ s.reg2.sretReal priv = false := by
  rcases control_load_cases _ hdec.ctl_mem hload with h | h <;>
    simp [Reg2.desiredTaken, Reg2.exceptionTaken, Reg2.illegal, Reg2.aluCtl, aluCtrl, h, hfetch,
      Reg2.csrPrivViolation, Reg2.mretPrivViolation, Reg2.sretPrivViolation,
      Reg2.sfencePrivViolation, Reg2.mretReal, Reg2.sretReal]

theorem control_loadFp (xlen : ℕ) (funt7 : BitVec 7) (funt3 : BitVec 3) (csrImm12 : BitVec 12) :
    control xlen opcodeLoadFp funt7 funt3 csrImm12 =
      { memRead := true, memtoReg := true, aluSrc := true, fRegWrite := true } := rfl

theorem memRead_of_isLoadFp (h : Sim P s a) (hval : s.reg2.valid = true)
    (hl : s.reg2.isLoadFp = true) : s.reg2.ctl.memRead = true := by
  have hctl : s.reg2.ctl = decodeControl w s.reg2.inst := by
    have h1 := congrArg Reg2.ctl (h.ex hval)
    have h2 := congrArg Reg2.inst (h.ex hval)
    change s.reg2.ctl = decodeControl w (instAt P a.pc) at h1
    change s.reg2.inst = instAt P a.pc at h2
    rw [h1, h2]
  have hop : opcodeOf s.reg2.inst = opcodeLoadFp := by
    simpa [Reg2.isLoadFp, Reg2.opcode] using hl
  rw [hctl, decodeControl, hop, control_loadFp]

/-- An empty EX that carries no prediction does not redirect. -/
theorem Sim.not_redirect_of_bare (hreach : Reachable P s) (h : Sim P s a)
    (hbare : translateEnable s = false)
    (hpred : P.branchPredictor = .dynamicBhtBtb → s.reg2.ctx.predictTaken = false)
    (hval : s.reg2.valid = false) : otherRedirectTaken P s = false := by
  have hdec := reg2_decoded hreach
  have hbub := bubbleInv hreach
  obtain ⟨hm, hs⟩ := mretReal_of_bubble hdec hbub hval
  have hd := desiredTaken_of_bubble hdec hbub hval (RvPipeline.operands P s)
  have hredir : branchOrJumpRedirect P s = false := by
    unfold branchOrJumpRedirect
    cases hP : P.branchPredictor with
    | static => simpa [desiredTaken] using hd
    | dynamicBhtBtb => simp [mispredict, Reg2.mispredict, hd, hpred hP]
  obtain ⟨hctl, halu⟩ := bubble_cases hdec hbub hval
  have hexc : exceptionTaken P s = false := by
    rw [exceptionTaken, dtlbPageFault_of_bare h.idle hbare]
    rcases hctl with hc | hc <;>
      simp [Reg2.exceptionTaken, Reg2.illegal, halu, hc, h.fault.2, Reg2.csrPrivViolation,
        Reg2.mretPrivViolation, Reg2.sretPrivViolation, Reg2.sfencePrivViolation]
  simp [otherRedirectTaken, hredir, hexc, hm, hs]

theorem Sim.not_redirect_of_bubble (hreach : Reachable P s) (h : Sim P s a) (hsafe : Safe P s i)
    (hval : s.reg2.valid = false) : otherRedirectTaken P s = false :=
  h.not_redirect_of_bare hreach hsafe.bare (fun hP ↦ (hsafe.predict hP).2 hval) hval

/-- Under the static predictor a redirect never meets a load-use stall. -/
theorem Sim.taken_of_static (hreach : Reachable P s) (h : Sim P s a) (hsafe : Safe P s i)
    (hP : P.branchPredictor = .static) (hbt : branchTaken P s i = true)
    (hhold : reg2Hold P s i = false) : pcStall P s i = false := by
  cases hint : interruptTaken P s i with
  | true => exact pcStall_of_interruptTaken hint
  | false =>
    have hother : otherRedirectTaken P s = true := by simpa [branchTaken, hint] using hbt
    have hval : s.reg2.valid = true := by
      by_contra hne
      rw [h.not_redirect_of_bubble hreach hsafe (by simpa using hne)] at hother
      exact Bool.noConfusion hother
    have hload : s.reg2.ctl.memRead = false := by
      by_contra hne
      obtain ⟨hd, he, hm, hs⟩ := load_no_redirect (reg2_decoded hreach) (by simpa using hne)
        h.fault.2 (RvPipeline.operands P s) s.csr.privMode
      rcases otherRedirectTaken_cases hother with hr | hr | hr | hr
      · simp [branchOrJumpRedirect, hP, desiredTaken, hd] at hr
      · simp [h.exceptionTaken_eq hsafe, he] at hr
      · simp [mretReal, hm] at hr
      · simp [sretReal, hs] at hr
    have hlf : s.reg2.isLoadFp = false := by
      by_contra hne
      rw [memRead_of_isLoadFp h hval (by simpa using hne)] at hload
      exact Bool.noConfusion hload
    refine pcStall_of_branchTaken hbt hhold ?_ (by simp [floatLoadUseHazard, hlf])
    cases hH : P.hazardStrategy with
    | forwarding => simp [hazardStall, hH, hazard, hload, hsafe.amo]
    | noForward => simp [hazardStall, hH, hazardNoForward]

theorem Sim.orderly (hreach : Reachable P s) (h : Sim P s a) (hsafe : Safe P s i) :
    Orderly P s i where
  taken hbt hhold := by
    cases hP : P.branchPredictor with
    | static => exact h.taken_of_static hreach hsafe hP hbt hhold
    | dynamicBhtBtb => exact (hsafe.predict hP).1 hbt hhold
  bubble hval := by
    cases hP : P.branchPredictor with
    | static => exact (h.order.static hP).2.2
    | dynamicBhtBtb => exact (hsafe.predict hP).2 hval
  held _ _ := ⟨h.dtlbPageFault_eq hsafe, by simp [h.amo]⟩
  split := hsafe.split

/-! ## Results -/

section Strip

variable (r : Reg2 w) (o : Operands w) (c : Csr w)

theorem Reg2.value_strip : r.strip.value o c p = r.value o c p := rfl
theorem Reg2.fpValue_strip (frm : BitVec 3) : r.strip.fpValue o frm = r.fpValue o frm := rfl
theorem Reg2.aluOut_strip : r.strip.aluOut o = r.aluOut o := rfl
theorem Reg2.resolvedNext_strip : r.strip.resolvedNext o = r.resolvedNext o := rfl
theorem Reg2.storeData_strip : r.strip.storeData o = r.storeData o := rfl
theorem Reg2.csrPort_strip : r.strip.csrPort o c = r.csrPort o c := rfl
theorem Reg2.csrAfter_strip : r.strip.csrAfter o c p = r.csrAfter o c p := rfl
theorem Reg2.pcAfter_strip : r.strip.pcAfter o c = r.pcAfter o c := rfl

end Strip

/-- No iterative unit works for the instruction. -/
def Reg2.singleCycle (r : Reg2 w) : Prop :=
  r.isDivRem = false ∧ r.isFpDiv = false ∧ r.isFpSqrt = false

theorem Reg2.singleCycle_of_not_float {r : Reg2 w} (hd : r.isDivRem = false)
    (hf : (r.isOpFp || r.isFma) = false) : r.singleCycle := by
  have hop : r.isOpFp = false := (Bool.or_eq_false_iff.1 hf).1
  exact ⟨hd, by simp [Reg2.isFpDiv, hop], by simp [Reg2.isFpSqrt, hop]⟩

theorem Reg2.isOpFp_of_isFma {r : Reg2 w} (h : r.isFma = true) : r.isOpFp = false := by
  by_contra hne
  have hop : r.opcode = opcodeFp := by simpa [Reg2.isOpFp] using hne
  rw [Reg2.isFma, hop] at h
  exact absurd h (by decide)

/-- A float operation does not divide integers. -/
theorem isDivRem_of_float {r : Reg2 w} (hdec : r.Decoded) (hf : (r.isOpFp || r.isFma) = true) :
    r.isDivRem = false := by
  by_contra hne
  have hop := aluOp_of_isDivRem (by simpa using hne)
  rcases hdec.ctl_float hf with h | h | h <;> simp [h] at hop

/-- The operands in EX, as far as the instruction uses them, are the architectural ones. -/
theorem Sim.mask_eq (h : Sim P s a) (hval : s.reg2.valid = true) (hone : s.reg2.singleCycle) :
    s.reg2.mask (RvPipeline.operands P s) = s.reg2.mask (a.operands P) := by
  rw [h.operands_eq hval]
  rcases h.operands hval with hfresh | ⟨hcap, -⟩
  · exact hfresh
  · obtain ⟨h1, h2, h3⟩ := hone
    rcases hcap with hc | hc | hc
    · rw [h1] at hc
      exact absurd hc.1 Bool.false_ne_true
    · rw [h2] at hc
      exact absurd hc.1 Bool.false_ne_true
    · rw [h3] at hc
      exact absurd hc.1 Bool.false_ne_true

theorem Sim.aluOut_eq (h : Sim P s a) (hval : s.reg2.valid = true) (hone : s.reg2.singleCycle) :
    exAluOut P s = a.address P := by
  have hmask := congrArg s.reg2.aluOut (h.mask_eq hval hone)
  rw [Arch.address, ← h.ex hval, Reg2.aluOut_strip]
  exact hmask

theorem Sim.storeData_eq (h : Sim P s a) (hval : s.reg2.valid = true)
    (hone : s.reg2.singleCycle) :
    s.reg2.storeData (RvPipeline.operands P s) = (a.issued P).storeData (a.operands P) := by
  rw [← h.ex hval, Reg2.storeData_strip, ← s.reg2.storeData_mask, h.mask_eq hval hone,
    s.reg2.storeData_mask]

theorem Sim.resolvedNext_eq (hdec : s.reg2.Decoded) (h : Sim P s a) (hval : s.reg2.valid = true) :
    s.reg2.resolvedNext (RvPipeline.operands P s) =
      (a.issued P).resolvedNext (a.operands P) := by
  rw [← h.ex hval, Reg2.resolvedNext_strip]
  by_cases hiter : s.reg2.isDivRem = true ∨ (s.reg2.isOpFp || s.reg2.isFma) = true
  · have hd := desiredTaken_of_iterative hdec hiter
    simp [Reg2.resolvedNext, hd]
  · rw [not_or] at hiter
    have hone := Reg2.singleCycle_of_not_float (by simpa using hiter.1) (by simpa using hiter.2)
    have hmask := congrArg s.reg2.resolvedNext (h.mask_eq hval hone)
    exact hmask

/-- The float units deliver the result of the operands they work for. -/
theorem UnitsFor.fpResult_eq {o : Operands w} (hdec : s.reg2.Decoded) (hu : UnitsFor s o)
    (hval : s.reg2.valid = true)
    (hmask : s.reg2.singleCycle → s.reg2.mask (operands P s) = s.reg2.mask o)
    (hfp : (s.reg2.isOpFp || s.reg2.isFma) = true) (hstall : fpStall s = false) :
    fpResult P s = s.reg2.fpValue o s.csr.frm := by
  simp only [fpStall, Bool.or_eq_false_iff, Bool.and_eq_false_iff, Bool.not_eq_false'] at hstall
  unfold fpResult Reg2.fpValue
  by_cases hdivs : s.reg2.isFma = false ∧ (s.reg2.isFpDiv = true ∨ s.reg2.isFpSqrt = true)
  · obtain ⟨hfma, hone⟩ := hdivs
    cases hd : s.reg2.isFpDiv with
    | true =>
      have hdone : s.fdiv.done = true := by simpa [hd] using hstall.1
      simp only [Reg2.fpResult, hfma, hd, if_true, Bool.false_eq_true, if_false]
      exact (hu.fdiv hval).done hdone
    | false =>
      have hq : s.reg2.isFpSqrt = true := by simpa [hd] using hone
      have hdone : s.fsqrt.done = true := by simpa [hq] using hstall.2
      simp only [Reg2.fpResult, hfma, hd, hq, if_true, Bool.false_eq_true, if_false]
      exact (hu.fsqrt hval).done hdone
  · -- neither iterative result is selected
    have hsel : ∀ o d q d' q', s.reg2.fpResult o s.csr.frm d q =
        s.reg2.fpResult o s.csr.frm d' q' := by
      intro o d q d' q'
      unfold Reg2.fpResult
      cases hfma : s.reg2.isFma with
      | true => rfl
      | false =>
        simp only [hfma, true_and, not_or, Bool.not_eq_true] at hdivs
        simp [hdivs.1, hdivs.2]
    have hone : s.reg2.singleCycle := by
      refine ⟨isDivRem_of_float hdec hfp, ?_⟩
      cases hfma : s.reg2.isFma with
      | true =>
        have hop := Reg2.isOpFp_of_isFma hfma
        exact ⟨by simp [Reg2.isFpDiv, hop], by simp [Reg2.isFpSqrt, hop]⟩
      | false => simpa [hfma] using hdivs
    rw [← Reg2.fpResult_mask _ _ _ _ hfp, hmask hone, Reg2.fpResult_mask _ _ _ _ hfp]
    exact hsel _ _ _ _ _

/-- What EX hands on of an instruction with operands `o`, the value of a CSR and the address of
an access aside. -/
theorem UnitsFor.exResult_eq {o : Operands w} (hdec : s.reg2.Decoded) (hu : UnitsFor s o)
    (hval : s.reg2.valid = true)
    (hmask : s.reg2.singleCycle → (s.reg2.ctl.memRead || s.reg2.ctl.memWrite) = false →
      s.reg2.mask (operands P s) = s.reg2.mask o)
    (hdivs : divStall s = false) (hfps : fpStall s = false) :
    exResult P s =
      if s.reg2.isOpFp || s.reg2.isFma then (s.reg2.fpValue o s.csr.frm).result.setWidth w
      else if s.reg2.ctl.isCsr then csrOldVal s
      else if s.reg2.isDivRem then s.reg2.divValue o
      else if s.reg2.ctl.memRead || s.reg2.ctl.memWrite then memPaddr P s
      else s.reg2.aluOut o := by
  unfold exResult
  cases hfp : s.reg2.isOpFp || s.reg2.isFma with
  | true =>
    have hmem : (s.reg2.ctl.memRead || s.reg2.ctl.memWrite) = false := by
      rcases hdec.ctl_float hfp with h | h | h <;> simp [h]
    rw [if_pos rfl, if_pos rfl,
      hu.fpResult_eq hdec hval (fun hone ↦ hmask hone hmem) hfp hfps]
  | false =>
    simp only [Bool.false_eq_true, if_false]
    cases hc : s.reg2.ctl.isCsr with
    | true => rfl
    | false =>
      simp only [Bool.false_eq_true, if_false]
      cases hd : s.reg2.isDivRem with
      | true =>
        have hdone : s.div.done = true := by simpa [divStall, hd] using hdivs
        have hout := (hu.div hval).done hdone
        simp only [if_true, Reg2.divValue, ← hout]
      | false =>
        simp only [Bool.false_eq_true, if_false]
        split_ifs with hmem
        · rfl
        · have halu := congrArg s.reg2.aluOut
            (hmask (Reg2.singleCycle_of_not_float hd hfp) (Bool.eq_false_of_not_eq_true hmem))
          exact halu

theorem Sim.fpResult_eq (hdec : s.reg2.Decoded) (h : Sim P s a) (hval : s.reg2.valid = true)
    (hfp : (s.reg2.isOpFp || s.reg2.isFma) = true) (hstall : fpStall s = false) :
    RvPipeline.fpResult P s = (a.issued P).fpValue (a.operands P) a.csr.frm := by
  rw [h.units.fpResult_eq hdec hval (h.mask_eq hval) hfp hstall, ← h.ex hval, Reg2.fpValue_strip,
    h.csr_fields.1]

/-- EX hands on what the sequential machine computes. -/
theorem Sim.exResult_eq (hdec : s.reg2.Decoded) (h : Sim P s a) (hsafe : Safe P s i)
    (hval : s.reg2.valid = true) (hhold : reg2Hold P s i = false) :
    exResult P s = (a.issued P).value (a.operands P) a.csr (pending s) := by
  rw [h.reg2Hold_eq hsafe, Bool.or_eq_false_iff, Bool.or_eq_false_iff] at hhold
  obtain ⟨⟨hdivs, hfps⟩, -⟩ := hhold
  have hr := h.ex hval
  rw [h.units.exResult_eq hdec hval (fun hone _ ↦ h.mask_eq hval hone) hdivs hfps, ← hr, Reg2.value_strip, Reg2.value]
  cases hfp : s.reg2.isOpFp || s.reg2.isFma with
  | true => rw [if_pos rfl, if_pos rfl, h.csr_fields.1]
  | false =>
    have hcsr : s.csr = a.csr := by
      apply h.csr_eq
      have hfp' : ((a.issued P).isOpFp || (a.issued P).isFma) = false := by
        rw [← hr]
        exact hfp
      simp [Arch.flags, hfp']
    simp only [Bool.false_eq_true, if_false]
    cases hc : s.reg2.ctl.isCsr with
    | true =>
      simp only [if_true, csrOldVal, Csr.rdata, hsafe.counter hc, Bool.false_eq_true, if_false, hcsr]
    | false =>
      simp only [Bool.false_eq_true, if_false]
      cases hd : s.reg2.isDivRem with
      | true => rfl
      | false =>
        have halu := h.aluOut_eq hval (Reg2.singleCycle_of_not_float hd hfp)
        rw [Arch.address, ← hr, Reg2.aluOut_strip] at halu
        simp only [Bool.false_eq_true, if_false, memPaddr_of_bare h.idle hsafe.bare, halu, ite_self]

end RvPipeline
