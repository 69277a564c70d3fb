import RvPipeline.Refine.Commit

/-!
# Fetch, ID and the units of EX

The parts of `Sim` that one cycle keeps on the way into EX: the words in ID, the bubbles, the
operands and the iterative units.
-/

namespace RvPipeline

variable {w k : ℕ} {P : Params} {s : State w k} {a : Arch w} {i : Inputs}

/-! ## Fetch and ID -/

/-- An instruction that is in EX after EX has moved came from ID, unflushed. -/
theorem step_reg2_of_enter (hhold : reg2Hold P s i = false)
    (hval : (step P s i).reg2.valid = true) :
    (step P s i).reg2 = reg2Next s ∧ branchTaken P s i = false ∧ reg2Flush P s i = false := by
  cases hbt : branchTaken P s i with
  | true => simp [step, Reg2.step, hhold, hbt, Reg2.squashed] at hval
  | false =>
    cases hflush : reg2Flush P s i with
    | true => simp [step, Reg2.step, hhold, hbt, hflush, Reg2.flushed] at hval
    | false => exact ⟨by simp [step, Reg2.step, hhold, hbt, hflush], rfl, rfl⟩

section Front

variable (h : Sim P s a) (hsafe : Safe P s i)

include h hsafe

theorem Sim.id_step (hmode : P.cacheMode = .none) (hid : (step P s i).idBubble = false) :
    (step P s i).reg1.inst = instAt P (step P s i).reg1.pc ∧
      (step P s i).reg1.isCompressed = isCompressedWord (imemRead P (step P s i).reg1.pc) := by
  change (if branchTaken P s i || s.redirectSquashExtend then true
    else if pcStall P s i then s.idBubble else false) = false at hid
  change (s.reg1.step _ _ _).inst = instAt P (s.reg1.step _ _ _).pc ∧
    (s.reg1.step _ _ _).isCompressed = isCompressedWord (imemRead P (s.reg1.step _ _ _).pc)
  have hfetch : fetchInst P s = imemRead P (imemReadAddr P s) := by
    simp [fetchInst, hmode, imemPhysAddr_of_bare hsafe.bare]
  unfold Reg1.step
  split_ifs at hid ⊢ with hsq hst
  · exact h.id hid
  · exact ⟨by simp [reg1Next, instFinal, hfetch, instAt], by simp [reg1Next, isCompressed, hfetch]⟩

theorem Sim.fault_step :
    (step P s i).reg1.ifetchFault = false ∧ (step P s i).reg2.ctx.ifetchFault = false := by
  constructor
  · change (s.reg1.step _ _ _).ifetchFault = false
    unfold Reg1.step
    split_ifs
    · rfl
    · exact h.fault.1
    · exact ifetchFaultIf_of_bare h.idle hsafe.bare
  · change (s.reg2.step _ _ _ _).ctx.ifetchFault = false
    unfold Reg2.step
    split_ifs
    · exact h.fault.2
    · rfl
    · exact h.fault.1
    · exact h.fault.1

theorem Sim.amo_step : (step P s i).reg3.isAmo = false ∧ (step P s i).reg4.isAmo = false := by
  constructor
  · change (s.reg3.step _ _).isAmo = false
    unfold Reg3.step
    split_ifs
    · exact h.amo.1
    · simp [reg3Next, hsafe.amo]
  · change (s.reg4.step _ _).isAmo = false
    unfold Reg4.step
    split_ifs
    · exact h.amo.2
    · exact h.amo.1

/-- Behind an empty EX the fetch stages hold the next instruction. -/
theorem Sim.front (hreach : Reachable P s) (hval : s.reg2.valid = false) : Stream P s a.pc := by
  rcases h.order.front hval with hs | hr
  · exact hs
  · rw [h.not_redirect_of_bubble hreach hsafe hval] at hr
    exact Bool.noConfusion hr

omit h hsafe in
theorem Stream.extend_of_full {e : BitVec w} (hs : Stream P s e) (hid : s.idBubble = false) :
    s.redirectSquashExtend = false ∧ s.reg1.pc = e := by
  unfold Stream at hs
  cases hprof : P.pipelineProfile with
  | fiveStage =>
    simp only [hprof] at hs
    rcases hs with ⟨hext, ⟨hb, -⟩ | ⟨-, he, -⟩⟩
    · rw [hid] at hb
      exact Bool.noConfusion hb
    · exact ⟨hext, he⟩
  | splitFetch =>
    simp only [hprof] at hs
    rcases hs with ⟨-, hb, -⟩ | ⟨hext, ⟨hb, -⟩ | ⟨-, he, -⟩⟩
    · rw [hid] at hb
      exact Bool.noConfusion hb
    · rw [hid] at hb
      exact Bool.noConfusion hb
    · exact ⟨hext, he⟩

/-- Behind an empty EX, with no interrupt, a full ID that does not advance stays. -/
theorem Sim.id_stays (hreach : Reachable P s) (hval : s.reg2.valid = false)
    (hint : interruptTaken P s i = false) (hid : s.idBubble = false)
    (hstall : pcStall P s i = true) :
    (step P s i).idBubble = false ∧ (step P s i).reg1 = s.reg1 := by
  have hbt : branchTaken P s i = false := by
    simp [branchTaken, h.not_redirect_of_bubble hreach hsafe hval, hint]
  obtain ⟨hext, -⟩ := (h.front hsafe hreach hval).extend_of_full hid
  simp [step, Reg1.step, hbt, hext, hstall, hid]

omit h hsafe in
theorem interruptTaken_of_hold (hhold : reg2Hold P s i = true) : interruptTaken P s i = false := by
  by_contra hne
  rw [reg2Hold_of_interruptTaken (by simpa using hne)] at hhold
  exact Bool.noConfusion hhold

theorem Sim.bubble_step (hreach : Reachable P s) (hval : (step P s i).reg2.valid = false)
    (hf : ((step P s i).reg2.isOpFp || (step P s i).reg2.isFma ||
      (step P s i).reg2.isLoadFp) = true) :
    (step P s i).idBubble = false ∧ (step P s i).reg2.inst = (step P s i).reg1.inst := by
  have hnop : s.idBubble = true → ((reg2Next s).isOpFp || (reg2Next s).isFma ||
      (reg2Next s).isLoadFp) = false := by
    intro hid
    have hinst : (reg2Next s).inst = nopInst := by
      change s.reg1.inst = nopInst
      rw [(bubbleInv hreach).id hid]
      rfl
    simp only [Reg2.isOpFp, Reg2.isFma, Reg2.isLoadFp, Reg2.opcode, hinst]
    rfl
  cases hhold : reg2Hold P s i with
  | true =>
    have hreg2 := step_reg2_of_hold hhold
    rw [hreg2] at hval hf
    obtain ⟨hid, hinst⟩ := h.bubble hval hf
    obtain ⟨hid', hreg1⟩ := h.id_stays hsafe hreach hval (interruptTaken_of_hold hhold) hid
      (pcStall_of_reg2Hold hhold)
    exact ⟨hid', by rw [hreg2, hreg1, hinst]⟩
  | false =>
    cases hbt : branchTaken P s i with
    | true =>
      have hreg2 : (step P s i).reg2 = .squashed w := by simp [step, Reg2.step, hhold, hbt]
      simp [hreg2] at hf
    | false =>
      cases hflush : reg2Flush P s i with
      | false =>
        have hreg2 : (step P s i).reg2 = reg2Next s := by
          simp [step, Reg2.step, hhold, hbt, hflush]
        rw [hreg2] at hval hf
        rw [hnop (by simpa [reg2Next] using hval)] at hf
        exact Bool.noConfusion hf
      | true =>
        have hreg2 : (step P s i).reg2 = (reg2Next s).flushed := by
          simp [step, Reg2.step, hhold, hbt, hflush]
        have hstall : pcStall P s i = true := by simp [pcStall_eq, hflush]
        have hid : s.idBubble = false := by
          by_contra hne
          rw [hreg2] at hf
          have hno := hnop (by simpa using hne)
          exact Bool.noConfusion (hno.symm.trans hf)
        have hno := hbt
        simp only [branchTaken, Bool.or_eq_false_iff] at hno
        have hext : s.redirectSquashExtend = false := by
          have hstream := h.order.stream_of_advance (h.orderly hreach hsafe) hhold hno.1 hno.2
          exact (hstream.extend_of_full hid).1
        have hreg1 : (step P s i).reg1 = s.reg1 := by
          simp [step, Reg1.step, hbt, hext, hstall]
        refine ⟨by simp [step, hbt, hext, hstall, hid], ?_⟩
        rw [hreg2, hreg1]
        rfl

omit hsafe in
/-- What enters EX is the instruction the sequential machine executes next. -/
theorem Sim.strip_reg2Next (hid : s.idBubble = false) :
    (reg2Next s).strip = issue P s.reg1.pc := by
  obtain ⟨hinst, hcomp⟩ := h.id hid
  unfold Reg2.strip reg2Next issue issueWord
  simp only [hid, hcomp, h.fault.1, Bool.not_false]
  rw [← hinst]

end Front

/-! ## The operands in EX -/

theorem memOp_of_memHold (hmode : P.cacheMode = .none) (hamo : s.reg3.isAmo = false)
    (hmem : memHold P s = true) : memOp s = true := by
  have hstall : amoStall s = false := by simp [amoStall, amoActive, hamo]
  simp only [memHold, hstall, Bool.or_false, memStall, memTrigger, hmode, Bool.and_eq_true,
    Bool.or_eq_true] at hmem
  rcases hmem.1 with hr | ⟨hw, -⟩ <;> simp [memOp, *]

theorem memOp_of_silent (h : s.reg3.Silent) : memOp s = false := by
  simp [memOp, h.read, h.write]

theorem memHold_of_silent (hmode : P.cacheMode = .none) (h : s.reg3.Silent) :
    memHold P s = false := by
  by_contra hne
  have hop := memOp_of_memHold hmode h.amo (by simpa using hne)
  rw [memOp_of_silent h] at hop
  exact Bool.noConfusion hop

section Units

variable (hmode : P.cacheMode = .none) (hreach : Reachable P s) (h : Sim P s a)
  (hsafe : Safe P s i)

include h hsafe

/-- EX is held by a unit, and MEM moves on. -/
theorem Sim.stall_of_hold (hhold : reg2Hold P s i = true) (hmem : memHold P s = false) :
    divStall s = true ∨ fpStall s = true := by
  rw [h.reg2Hold_eq hsafe, hmem, Bool.or_false, Bool.or_eq_true] at hhold
  exact hhold

theorem Sim.silent_of_stall (hhold : reg2Hold P s i = true) (hmem : memHold P s = false) :
    (step P s i).reg3.Silent := by
  rw [step_reg3_of_move hmem]
  apply reg3Next_silent
  rcases h.stall_of_hold hsafe hhold hmem with hd | hd <;> simp [reg3Bubble, hd]

omit h hsafe in
/-- A unit that holds EX has taken its operands by the next cycle. -/
theorem captured_of_stall (hhold : reg2Hold P s i = true)
    (hstall : divStall s = true ∨ fpStall s = true) : Captured (step P s i) := by
  unfold Captured
  rw [step_reg2_of_hold hhold]
  rcases hstall with hd | hd
  · simp only [divStall, Bool.and_eq_true, Bool.not_eq_true'] at hd
    exact .inl ⟨hd.1, (Divider.unitStep _ _ _ _ _).work hd.1 hd.2⟩
  · simp only [fpStall, Bool.or_eq_true, Bool.and_eq_true, Bool.not_eq_true'] at hd
    rcases hd with hd | hd
    · exact .inr (.inl ⟨hd.1, (Fp.FDivider.unitStep _ _ _ _ _).work hd.1 hd.2⟩)
    · exact .inr (.inr ⟨hd.1, (Fp.FSqrt.unitStep _ _ _ _).work hd.1 hd.2⟩)

include hmode hreach

omit hsafe in
theorem Sim.fresh_of_memHold (hmem : memHold P s = true) (hhold : reg2Hold P s i = true)
    (hfresh : Fresh P s) : Fresh P (step P s i) := by
  have hreg2 := step_reg2_of_hold hhold
  have hacc := reg3_oneAccess hreach
  have hreg3 := reg3_memtoReg hreach
  have hops : RvPipeline.operands P (step P s i) = RvPipeline.operands P s :=
    operands_of_memHold (by simp [h.amo]) hmem hreg2
  have hdrain : drainOperands (step P s i) = drainOperands s := by
    rw [drainOperands, drainOperands, drainX_of_memHold hmode h.idle hacc h.amo hmem hreg3,
      drainF_of_memHold hmode h.idle hacc h.amo hmem hreg3, hreg2]
  unfold Fresh at hfresh ⊢
  rw [hreg2, hops, hdrain, hfresh]

theorem Sim.operands_step (hval : (step P s i).reg2.valid = true) :
    Fresh P (step P s i) ∨ (Captured (step P s i) ∧ memOp (step P s i) = false) := by
  cases hhold : reg2Hold P s i with
  | true =>
    cases hmem : memHold P s with
    | true =>
      rw [step_reg2_of_hold hhold] at hval
      rcases h.operands hval with hfresh | ⟨-, hop⟩
      · exact .inl (h.fresh_of_memHold hmode hreach hmem hhold hfresh)
      · rw [memOp_of_memHold hmode h.amo.1 hmem] at hop
        exact Bool.noConfusion hop
    | false =>
      exact .inr ⟨captured_of_stall hhold (h.stall_of_hold hsafe hhold hmem),
        memOp_of_silent (h.silent_of_stall hsafe hhold hmem)⟩
  | false =>
    have hmem := memHold_eq_false_of_reg2Hold hhold
    obtain ⟨hreg2, hbt, hflush⟩ := step_reg2_of_enter hhold hval
    have hhaz := hflush
    simp only [reg2Flush, hbt, Bool.or_eq_false_iff] at hhaz
    have hamo := (h.amo_step hsafe).1
    refine .inl ?_
    rw [Fresh, drainOperands_eq hamo]
    refine settled_of_enter (reg2_decoded hreach) hmem hreg2 hhaz.1.1.1.1 hhaz.1.1.1.2 ?_ _
    intro hP hf hl heq
    rw [hsafe.fma hP hf hl heq] at hflush
    exact Bool.noConfusion hflush

end Units

/-! ## The iterative units -/

theorem Reg2.isFpSqrt_of_isFpDiv {r : Reg2 w} (h : r.isFpDiv = true) : r.isFpSqrt = false := by
  simp only [Reg2.isFpDiv, Bool.and_eq_true, beq_iff_eq] at h
  simp [Reg2.isFpSqrt, h.2, funct5Fdiv, funct5Fsqrt]

theorem Reg2.isDivRem_of_fp {r : Reg2 w} (hdec : r.Decoded)
    (h : r.isFpDiv = true ∨ r.isFpSqrt = true) : r.isDivRem = false := by
  apply isDivRem_of_float hdec
  rcases h with h | h
  · simp only [Reg2.isFpDiv, Bool.and_eq_true] at h
    simp [h.1]
  · simp only [Reg2.isFpSqrt, Bool.and_eq_true] at h
    simp [h.1]

namespace UnitsFor

variable {o : Operands w}

/-- A unit is at rest again once the instruction it works for has left EX. -/
theorem idle_of_leave (hu : UnitsFor s o) (hhold : reg2Hold P s i = false) :
    ((step P s i).div.busy = false ∧ (step P s i).div.done = false) ∧
      ((step P s i).fdiv.busy = false ∧ (step P s i).fdiv.done = false) ∧
      ((step P s i).fsqrt.busy = false ∧ (step P s i).fsqrt.done = false) := by
  simp only [reg2Hold, reg2HoldOf, Bool.or_eq_false_iff] at hhold
  obtain ⟨⟨⟨⟨hdiv, -⟩, hfp⟩, -⟩, -⟩ := hhold
  simp only [fpStall, Bool.or_eq_false_iff, Bool.and_eq_false_iff, Bool.not_eq_false'] at hfp
  simp only [divStall, Bool.and_eq_false_iff, Bool.not_eq_false'] at hdiv
  refine ⟨?_, ?_, ?_⟩
  · apply (Divider.unitStep _ _ _ _ _).rest hdiv
    rcases hdiv with hd | hd
    · exact (hu.divIdle hd).1
    · by_contra hne
      rw [hu.divOne (by simpa using hne)] at hd
      exact Bool.noConfusion hd
  · apply (Fp.FDivider.unitStep _ _ _ _ _).rest hfp.1
    rcases hfp.1 with hd | hd
    · exact (hu.fdivIdle hd).1
    · by_contra hne
      rw [hu.fdivOne (by simpa using hne)] at hd
      exact Bool.noConfusion hd
  · apply (Fp.FSqrt.unitStep _ _ _ _).rest hfp.2
    rcases hfp.2 with hd | hd
    · exact (hu.fsqrtIdle hd).1
    · by_contra hne
      rw [hu.fsqrtOne (by simpa using hne)] at hd
      exact Bool.noConfusion hd

theorem step_leave (hu : UnitsFor s o) (hhold : reg2Hold P s i = false) (o' : Operands w) :
    UnitsFor (step P s i) o' := by
  obtain ⟨⟨hb, hd⟩, ⟨hb1, hd1⟩, ⟨hb2, hd2⟩⟩ := hu.idle_of_leave hhold
  exact
    { divIdle := fun _ ↦ ⟨hb, hd⟩
      fdivIdle := fun _ ↦ ⟨hb1, hd1⟩
      fsqrtIdle := fun _ ↦ ⟨hb2, hd2⟩
      divOne := fun _ ↦ hd
      fdivOne := fun _ ↦ hd1
      fsqrtOne := fun _ ↦ hd2
      div := fun _ ↦ Divider.tracks_of_idle hb hd
      fdiv := fun _ ↦ Fp.FDivider.tracks_of_idle hb1 hd1
      fsqrt := fun _ ↦ Fp.FSqrt.tracks_of_idle hb2 hd2 }

/-- A unit that starts takes the operands in EX, so these have to be `o` while it is at rest. -/
theorem step_hold (hdec : s.reg2.Decoded) (hu : UnitsFor s o) (hhold : reg2Hold P s i = true)
    (hmask : s.reg2.valid = true → ¬Captured s → ¬s.reg2.singleCycle →
      s.reg2.mask (operands P s) = s.reg2.mask o) : UnitsFor (step P s i) o := by
  have hreg2 := step_reg2_of_hold hhold
  have hcsr := step_csr_of_hold hhold
  have hdiv := Divider.unitStep s.reg2.isDivRem s.reg2.isDivSigned
    (s.reg2.divDividend (operands P s)) (s.reg2.divDivisor (operands P s)) s.div
  have hfdiv := Fp.FDivider.unitStep s.reg2.isFpDiv (s.reg2.fpuRm s.csr.frm)
    (low32 (s.reg2.fpuOperandA (operands P s))) (low32 (operands P s).fb) s.fdiv
  have hfsqrt := Fp.FSqrt.unitStep s.reg2.isFpSqrt (s.reg2.fpuRm s.csr.frm)
    (low32 (s.reg2.fpuOperandA (operands P s))) s.fsqrt
  have hdivIdle := fun hs ↦ hdiv.rest (.inl hs) (hu.divIdle hs).1
  have hfdivIdle := fun hs ↦ hfdiv.rest (.inl hs) (hu.fdivIdle hs).1
  have hfsqrtIdle := fun hs ↦ hfsqrt.rest (.inl hs) (hu.fsqrtIdle hs).1
  refine ⟨?_, ?_, ?_, hdiv.one, hfdiv.one, hfsqrt.one, ?_, ?_, ?_⟩
  · rwa [hreg2]
  · rwa [hreg2]
  · rwa [hreg2]
  · intro hval
    rw [hreg2] at hval ⊢
    cases hs : s.reg2.isDivRem with
    | false =>
      obtain ⟨hb, hd⟩ := hdivIdle hs
      exact Divider.tracks_of_idle hb hd
    | true =>
      change Divider.Tracks _ _ _ (s.div.step s.reg2.isDivRem _ _ _)
      rw [hs]
      apply (hu.div hval).step
      intro hb hd
      have hsame := hmask hval (by
        rintro (hc | hc | hc)
        · simp [hb, hd] at hc
        · simp [Reg2.isDivRem_of_fp hdec (.inl hc.1)] at hs
        · simp [Reg2.isDivRem_of_fp hdec (.inr hc.1)] at hs)
        (fun hone ↦ Bool.noConfusion (hs.symm.trans hone.1))
      have hx := congrArg s.reg2.divDividend hsame
      have hy := congrArg s.reg2.divDivisor hsame
      exact ⟨hx, hy⟩
  · intro hval
    rw [hreg2] at hval ⊢
    rw [hcsr]
    cases hs : s.reg2.isFpDiv with
    | false =>
      obtain ⟨hb, hd⟩ := hfdivIdle hs
      exact Fp.FDivider.tracks_of_idle hb hd
    | true =>
      change Fp.FDivider.Tracks _ _ _ (s.fdiv.step s.reg2.isFpDiv _ _ _)
      rw [hs]
      apply (hu.fdiv hval).step
      intro hb hd
      have hsame := hmask hval (by
        rintro (hc | hc | hc)
        · simp [Reg2.isDivRem_of_fp hdec (.inl hs)] at hc
        · simp [hb, hd] at hc
        · simp [Reg2.isFpSqrt_of_isFpDiv hs] at hc)
        (fun hone ↦ Bool.noConfusion (hs.symm.trans hone.2.1))
      have hfp : (s.reg2.isOpFp || s.reg2.isFma) = true := by
        simp only [Reg2.isFpDiv, Bool.and_eq_true] at hs
        simp [hs.1]
      rw [← Reg2.fpuOperandA_mask, hsame, Reg2.fpuOperandA_mask, ← Reg2.fb_mask _ hfp, hsame,
        Reg2.fb_mask _ hfp]
      exact ⟨rfl, rfl⟩
  · intro hval
    rw [hreg2] at hval ⊢
    rw [hcsr]
    cases hs : s.reg2.isFpSqrt with
    | false =>
      obtain ⟨hb, hd⟩ := hfsqrtIdle hs
      exact Fp.FSqrt.tracks_of_idle hb hd
    | true =>
      change Fp.FSqrt.Tracks _ _ (s.fsqrt.step s.reg2.isFpSqrt _ _)
      rw [hs]
      apply (hu.fsqrt hval).step
      intro hb hd
      have hsame := hmask hval (by
        rintro (hc | hc | hc)
        · simp [Reg2.isDivRem_of_fp hdec (.inr hs)] at hc
        · simp [Reg2.isFpSqrt_of_isFpDiv hc.1] at hs
        · simp [hb, hd] at hc)
        (fun hone ↦ Bool.noConfusion (hs.symm.trans hone.2.2))
      rw [← Reg2.fpuOperandA_mask, hsame, Reg2.fpuOperandA_mask]

end UnitsFor

/-- With the unit of the instruction at rest, EX sees the architectural operands. -/
theorem Sim.mask_of_idle (h : Sim P s a) (hval : s.reg2.valid = true) (hcap : ¬Captured s) :
    s.reg2.mask (RvPipeline.operands P s) = s.reg2.mask (a.operands P) := by
  rw [h.operands_eq hval]
  rcases h.operands hval with hfresh | ⟨hc, -⟩
  · exact hfresh
  · exact absurd hc hcap

end RvPipeline
