import RvPipeline.Refine.Equiv

/-!
# Programs that stop

A core whose program has come to `jal x0, .` with interrupts and translation off, and with no
access left in MEM, executes this one instruction for ever, and each of its cycles is safe, with
the dynamic predictor once it predicts the jump.  So a run that ends so is safe if its first
cycles are.
-/

namespace RvPipeline

variable {w k : ℕ} {P : Params} {s : State 32 k} {a : Arch 32} {i : Inputs} {p : Pending}

/-! ## The sequential machine -/

/-- `jal x0, .` -/
abbrev parkWord : BitVec 32 := 0x0000006F#32

/-- The next instruction is `jal x0, .`, no interrupt is enabled, and addresses are physical. -/
structure Arch.AtPark (P : Params) (a : Arch 32) : Prop where
  word : instAt P a.pc = parkWord
  even : a.pc.getLsbD 0 = false
  mie : a.csr.mie = 0
  satp : a.csr.satp = 0

theorem decodeControl_parkWord :
    decodeControl 32 parkWord = { regWrite := true, jump := true } := by
  decide

namespace Arch.AtPark

variable (h : a.AtPark P)

include h

theorem ctl : (a.issued P).ctl = { regWrite := true, jump := true } := by
  rw [← decodeControl_parkWord, ← h.word]
  rfl

theorem not_traps (priv : BitVec 2) : (a.issued P).exceptionTaken priv false = false := by
  have hfault : (a.issued P).ctx.ifetchFault = false := rfl
  simp [Reg2.exceptionTaken, Reg2.illegal, Reg2.aluCtl, h.ctl, aluCtrl, Reg2.csrPrivViolation,
    Reg2.mretPrivViolation, Reg2.sretPrivViolation, Reg2.sfencePrivViolation, hfault]

theorem immSum (o : Operands 32) : (a.issued P).immSum o = a.pc := by
  have himm : (a.issued P).ctx.imm = 0 := by
    change immGen 32 (instAt P a.pc) = 0
    rw [h.word]
    decide
  have hpc : (a.issued P).ctx.pc = a.pc := rfl
  have hto : putBit (a.pc + shiftLeftOne 0#32) 0 false = a.pc := by
    rw [show shiftLeftOne 0#32 = 0#32 by decide, BitVec.add_zero]
    apply BitVec.eq_of_getLsbD_eq
    intro j hj
    rw [getLsbD_putBit hj]
    split_ifs with h0
    · rw [h0, h.even]
    · rfl
  simp [Reg2.immSum, h.ctl, himm, hpc, hto]

theorem pcAfter : (a.exec P p).pc = a.pc := by
  change (a.issued P).pcAfter (a.operands P) a.csr = a.pc
  simp [Reg2.pcAfter, h.not_traps, Reg2.mretReal, Reg2.sretReal, h.ctl, Reg2.resolvedNext,
    Reg2.desiredTaken, h.immSum]

theorem exec : (a.exec P p).AtPark P := by
  have hkeep : (a.exec P p).csr.mie = a.csr.mie ∧ (a.exec P p).csr.satp = a.csr.satp := by
    change ((a.issued P).csrAfter (a.operands P) a.csr p).mie = _ ∧
      ((a.issued P).csrAfter (a.operands P) a.csr p).satp = _
    simp [Reg2.csrAfter, Csr.nextWith, Reg2.csrPort, h.ctl]
  exact
    { word := by rw [h.pcAfter, h.word]
      even := by rw [h.pcAfter, h.even]
      mie := hkeep.1.trans h.mie
      satp := hkeep.2.trans h.satp }

end Arch.AtPark

/-! ## The core -/

/-- The jump at `pc` is in every stage up to EX, predicted to itself. -/
structure Steady (P : Params) (s : State 32 k) (pc : BitVec 32) : Prop where
  ex : s.reg2.valid = true ∧ s.reg2.ctx.predictTaken = true ∧ s.reg2.ctx.predictTarget = pc
  id : s.idBubble = false ∧ s.reg1.inst = parkWord ∧ s.reg1.predictTaken = true ∧
    s.reg1.predictTarget = pc
  fetch : s.pc = pc ∧ s.redirectSquashExtend = false
  counter : s.bht.predictTaken pc = true
  target : s.btb.hit pc = true ∧ s.btb.target pc = pc
  latency : P.memLatencyI = 0

/-- The core has nothing left to do but to execute `jal x0, .`. -/
structure Parked (P : Params) (s : State 32 k) (a : Arch 32) : Prop where
  sim : Sim P s a
  park : a.AtPark P
  read : s.reg3.memRead = false
  write : s.reg3.memWrite = false
  steady : P.branchPredictor = .dynamicBhtBtb → Steady P s a.pc

section Cycle

variable (hprof : P.pipelineProfile = .fiveStage) (hmode : P.cacheMode = .none)
  (hreach : Reachable P s) (h : Parked P s a)

include h

theorem Parked.bare : translateEnable s = false := by
  obtain ⟨early, hcsr, -, -⟩ := h.sim.csr
  apply translateEnable_of_satp
  rw [hcsr]
  exact h.park.satp

theorem Parked.quiet : interruptTaken P s i = false := by
  obtain ⟨early, hcsr, -, -⟩ := h.sim.csr
  have hmie : s.csr.mie = 0 := by
    rw [hcsr]
    exact h.park.mie
  simp [interruptTaken, interruptRequest_of_mie hmie]

/-- A predicted jump to itself redirects nothing. -/
theorem Parked.branchTaken (hP : P.branchPredictor = .dynamicBhtBtb) :
    branchTaken P s i = false := by
  have hs := h.steady hP
  have hex := h.sim.ex hs.ex.1
  have hctl : s.reg2.ctl = { regWrite := true, jump := true } :=
    (congrArg Reg2.ctl hex).trans h.park.ctl
  have himm : s.reg2.immSum (RvPipeline.operands P s) = a.pc := by
    have hsum := h.park.immSum (RvPipeline.operands P s)
    rw [← hex] at hsum
    exact hsum
  have htraps : s.reg2.exceptionTaken s.csr.privMode false = false := by
    have hno := h.park.not_traps s.csr.privMode
    rw [← hex] at hno
    exact hno
  have hredir : branchOrJumpRedirect P s = false := by
    simp [branchOrJumpRedirect, hP, mispredict, Reg2.mispredict, Reg2.desiredTaken, hctl, hs.ex,
      himm]
  simp [RvPipeline.branchTaken, h.quiet, otherRedirectTaken, hredir, exceptionTaken,
    dtlbPageFault_of_bare h.sim.idle h.bare, htraps, mretReal, sretReal, Reg2.mretReal,
    Reg2.sretReal, hctl]

theorem Parked.predictionKept (hP : P.branchPredictor = .dynamicBhtBtb) :
    PredictionKept P s i := by
  refine ⟨fun hbt ↦ ?_, fun hval ↦ ?_⟩
  · rw [h.branchTaken hP] at hbt
    exact Bool.noConfusion hbt
  · rw [(h.steady hP).ex.1] at hval
    exact Bool.noConfusion hval

include hreach

/-- EX holds the instruction or nothing. -/
theorem Parked.ctl : s.reg2.ctl.isAmo = false ∧ s.reg2.ctl.isCsr = false ∧
    s.reg2.ctl.memRead = false ∧ s.reg2.ctl.memWrite = false := by
  cases hval : s.reg2.valid with
  | true =>
    have hctl : s.reg2.ctl = _ := (congrArg Reg2.ctl (h.sim.ex hval)).trans h.park.ctl
    simp [hctl]
  | false =>
    rcases (bubble_cases (reg2_decoded hreach) (bubbleInv hreach) hval).1 with hc | hc <;>
      simp [hc]

/-- A word with float bits would be the instruction itself. -/
theorem Parked.notFloat : (s.reg2.isOpFp || s.reg2.isFma || s.reg2.isLoadFp) = false := by
  by_contra hne
  have hbits := Bool.eq_true_of_not_eq_false hne
  have hinst : s.reg2.inst = parkWord := by
    cases hval : s.reg2.valid with
    | true => exact (h.sim.inst_eq hval).trans h.park.word
    | false =>
      obtain ⟨hid, hinst⟩ := h.sim.bubble hval hbits
      have hother := h.sim.not_redirect_of_bare hreach h.bare
        (fun hP ↦ (h.predictionKept (i := {}) hP).2 hval) hval
      have hstream : Stream P s a.pc := by
        rcases h.sim.order.front hval with hs | hr
        · exact hs
        · rw [hother] at hr
          exact Bool.noConfusion hr
      rw [hinst, (h.sim.id hid).1, (hstream.extend_of_full hid).2, h.park.word]
  have hop : s.reg2.opcode = opcodeOf parkWord := congrArg opcodeOf hinst
  rw [Reg2.isOpFp, Reg2.isFma, Reg2.isLoadFp, hop] at hbits
  exact absurd hbits (by decide)

include hprof

theorem Parked.safe : Safe P s i := by
  obtain ⟨hamo, hcsr, hr, hw⟩ := h.ctl hreach
  have hfloat := h.notFloat hreach
  rw [Bool.or_eq_false_iff] at hfloat
  exact
    { bare := h.bare
      amo := hamo
      counter := fun hc ↦ by simp [hcsr] at hc
      load := fun hl ↦ by simp [h.read] at hl
      store := fun hs ↦ by simp [h.write] at hs
      flags := fun _ hf ↦ by simp [hfloat.1] at hf
      predict := h.predictionKept
      fma := fun _ _ hl ↦ by simp [hfloat.2] at hl
      latency := fun _ hmem hl ↦ by
        rw [step_reg3_of_move hmem] at hl
        simp [reg3Next, hr] at hl
      split := fun hP ↦ PipelineProfile.noConfusion (hprof.symm.trans hP)
      interrupt := fun hint ↦ by simp [h.quiet] at hint }

include hmode

omit hprof in
/-- Nothing stalls a predicted jump to itself. -/
theorem Parked.pcStall (hP : P.branchPredictor = .dynamicBhtBtb) : pcStall P s i = false := by
  have hs := h.steady hP
  have hbt := h.branchTaken (i := i) hP
  obtain ⟨hamo, -, hr, hw⟩ := h.ctl hreach
  have hfloat := h.notFloat hreach
  simp only [Bool.or_eq_false_iff] at hfloat
  have hex := h.sim.ex hs.ex.1
  have hctl : s.reg2.ctl = { regWrite := true, jump := true } :=
    (congrArg Reg2.ctl hex).trans h.park.ctl
  have hrd : s.reg2.writeToReg = 0 := by
    have hrd' : s.reg2.writeToReg = rdOf (instAt P a.pc) := congrArg Reg2.writeToReg hex
    rw [hrd', h.park.word]
    decide
  have hhaz : hazardStall P s false = false := by
    have h1 : rs1Of parkWord = 0 := by decide
    have h2 : rs2Of parkWord = 0 := by decide
    unfold hazardStall
    cases hH : P.hazardStrategy with
    | forwarding => simp [hazard, hr, hamo]
    | noForward =>
      simp only [hazardNoForward, hrd, hs.id.2.1, h1, h2]
      by_cases h0 : s.reg3.writeToReg = 0#5 <;> simp [h0]
  have hdiv : s.reg2.isDivRem = false := by
    by_contra hne
    have hop := aluOp_of_isDivRem (by simpa using hne)
    simp [hctl] at hop
  simp [RvPipeline.pcStall, hbt, pcStallOf, hhaz, divStall, hdiv, memStall, memTrigger, hmode,
    h.read, h.write, fpStall, Reg2.isFpDiv, Reg2.isFpSqrt, hfloat, floatLoadUseHazard,
    itlbMiss_of_bare h.bare, dtlbMiss_of_bare h.bare, icacheMiss, icacheHit, imemWait,
    imemLatencyAdded, hs.latency, amoStall, amoActive, h.sim.amo]

theorem Parked.steady_step (hP : P.branchPredictor = .dynamicBhtBtb) :
    Steady P (RvPipeline.step P s i) a.pc := by
  have hs := h.steady hP
  have hbt := h.branchTaken (i := i) hP
  have hstall := h.pcStall (i := i) hmode hreach hP
  have hhold := reg2Hold_eq_false_of_pcStall hstall
  have hflush : reg2Flush P s i = false := by
    rw [pcStall_eq, Bool.or_eq_false_iff] at hstall
    exact hstall.2
  have hctl : s.reg2.ctl = { regWrite := true, jump := true } :=
    (congrArg Reg2.ctl (h.sim.ex hs.ex.1)).trans h.park.ctl
  have hpc : s.reg2.ctx.pc = a.pc := h.sim.order.ex hs.ex.1
  have himm : s.reg2.immSum (RvPipeline.operands P s) = a.pc := by
    have hsum := h.park.immSum (RvPipeline.operands P s)
    rw [← h.sim.ex hs.ex.1] at hsum
    exact hsum
  have hread : imemReadAddr P s = a.pc := by simp [imemReadAddr, hprof, hs.fetch.1]
  have hpredict : predictTakenIf P s = true ∧ predictTargetIf P s = a.pc := by
    simp [predictTakenIf, predictTargetIf, hP, hs.fetch.1, hs.counter, hs.target]
  have hreg2 : (RvPipeline.step P s i).reg2 = reg2Next s := by
    simp [RvPipeline.step, Reg2.step, hhold, hbt, hflush]
  have hreg1 : (RvPipeline.step P s i).reg1 = reg1Next P s := by
    simp [RvPipeline.step, Reg1.step, hbt, hs.fetch.2, hstall]
  have hupdate : bpUpdateValid P s i = true := by simp [bpUpdateValid, hctl, hhold]
  have htaken : RvPipeline.desiredTaken P s = true := by
    simp [RvPipeline.desiredTaken, Reg2.desiredTaken, hctl]
  refine ⟨?_, ?_, ?_, ?_, ?_, hs.latency⟩
  · rw [hreg2]
    exact ⟨by simp [reg2Next, hs.id.1], hs.id.2.2.1, hs.id.2.2.2⟩
  · rw [hreg1]
    refine ⟨by simp [RvPipeline.step, hbt, hs.fetch.2, hstall], ?_, ?_, ?_⟩
    · have hinst : instFinal P s = instAt P a.pc := by
        simp [instFinal, fetchInst, hmode, imemPhysAddr_of_bare h.bare, hread, instAt]
      exact hinst.trans h.park.word
    · simp [reg1Next, predictTakenFetch, hprof, hpredict]
    · simp [reg1Next, predictTargetFetch, hprof, hpredict]
  · refine ⟨?_, by simp [RvPipeline.step, hbt]⟩
    simp [RvPipeline.step, pcStep, hstall, pcFinal, hbt, pcSpeculative, hpredict]
  · have hbump : ∀ c : BitVec 2, c.getLsbD 1 = true → (Bht.bump true c).getLsbD 1 = true := by
      decide
    have hold := hs.counter
    change (Bht.step _ _ _ s.bht).predictTaken a.pc = true
    rw [hupdate, htaken, hpc]
    simp only [Bht.predictTaken] at hold ⊢
    simpa [Bht.step] using hbump _ hold
  · change (Btb.step _ _ _ s.btb).hit a.pc = true ∧ (Btb.step _ _ _ s.btb).target a.pc = a.pc
    rw [hupdate, htaken, hpc, himm]
    simp [Btb.step, Btb.hit, Btb.target]

theorem Parked.step : Parked P (step P s i) (cycleArch P s i a) := by
  obtain ⟨hamo, hcsr, hr, hw⟩ := h.ctl hreach
  have hpc : (cycleArch P s i a).pc = a.pc ∧ (cycleArch P s i a).AtPark P := by
    rw [cycleArch, cycleActions, h.quiet, if_neg Bool.false_ne_true, List.append_nil]
    split_ifs
    · exact ⟨h.park.pcAfter, h.park.exec⟩
    · exact ⟨rfl, h.park⟩
  refine ⟨h.sim.cycle hmode hreach (h.safe hprof hreach), hpc.2, ?_, ?_, fun hP ↦ ?_⟩
  · change (Reg3.step _ _ _).memRead = false
    unfold Reg3.step
    split_ifs
    · exact h.read
    · simp [reg3Next, hr]
  · change (Reg3.step _ _ _).memWrite = false
    unfold Reg3.step
    split_ifs
    · exact h.write
    · simp [reg3Next, hw]
  · rw [hpc.1]
    exact h.steady_step hprof hmode hreach hP

end Cycle

/-! ## Runs -/

section Runs

variable {s₀ : State 32 k} {ins : ℕ → Inputs} {N : ℕ} (hmode : P.cacheMode = .none)
  (hprof : P.pipelineProfile = .fiveStage)

include hmode hprof

/-- A core that is parked after some cycle stays so. -/
theorem parked_run (hpark : Parked P (run P s₀ ins N) a) (n : ℕ) (hn : N ≤ n) :
    ∃ b, Parked P (run P s₀ ins n) b := by
  obtain ⟨d, rfl⟩ := Nat.exists_eq_add_of_le hn
  clear hn
  induction d with
  | zero => exact ⟨a, hpark⟩
  | succ d ih =>
    obtain ⟨b, hb⟩ := ih
    exact ⟨_, hb.step hprof hmode (run_reachable P s₀ ins (N + d))⟩

end Runs

/-! ## A core that starts afresh -/

/-- EX and the stages before it are empty, the units and the walker rest, and MEM does not use the
memory. -/
structure Emptied (s : State w k) : Prop where
  ex : s.reg2.valid = false ∧ s.reg2.ctx.predictTaken = false ∧ s.reg2.ctx.ifetchFault = false ∧
    (s.reg2.isOpFp || s.reg2.isFma || s.reg2.isLoadFp) = false
  id : s.idBubble = true ∧ s.redirectSquashExtend = false ∧ s.reg1.ifetchFault = false
  predict : s.reg1a.predictTaken = false ∧ s.reg1.predictTaken = false
  mem : s.reg3.memRead = false ∧ s.reg3.memWrite = false ∧ s.reg3.isAmo = false ∧
    s.memStallDone = false
  wb : s.reg4.isAmo = false
  div : s.div.busy = false ∧ s.div.done = false
  fdiv : s.fdiv.busy = false ∧ s.fdiv.done = false
  fsqrt : s.fsqrt.busy = false ∧ s.fsqrt.done = false
  walker : s.ptw.state = .idle ∧ s.ptw.busy = false ∧ s.ptw.done = false ∧ s.dtlbMissR = false
  x0 : drainX s 0 = 0

instance {s : State w k} : Decidable (Emptied s) :=
  decidable_of_iff ((s.reg2.valid = false ∧ s.reg2.ctx.predictTaken = false ∧
        s.reg2.ctx.ifetchFault = false ∧
        (s.reg2.isOpFp || s.reg2.isFma || s.reg2.isLoadFp) = false) ∧
      (s.idBubble = true ∧ s.redirectSquashExtend = false ∧ s.reg1.ifetchFault = false) ∧
      (s.reg1a.predictTaken = false ∧ s.reg1.predictTaken = false) ∧
      (s.reg3.memRead = false ∧ s.reg3.memWrite = false ∧ s.reg3.isAmo = false ∧
        s.memStallDone = false) ∧ s.reg4.isAmo = false ∧
      (s.div.busy = false ∧ s.div.done = false) ∧ (s.fdiv.busy = false ∧ s.fdiv.done = false) ∧
      (s.fsqrt.busy = false ∧ s.fsqrt.done = false) ∧
      (s.ptw.state = .idle ∧ s.ptw.busy = false ∧ s.ptw.done = false ∧ s.dtlbMissR = false) ∧
      drainX s 0 = 0)
    ⟨fun ⟨h1, h2, h3, h4, h5, h6, h7, h8, h9, h10⟩ ↦ ⟨h1, h2, h3, h4, h5, h6, h7, h8, h9, h10⟩,
      fun h ↦ ⟨h.ex, h.id, h.predict, h.mem, h.wb, h.div, h.fdiv, h.fsqrt, h.walker, h.x0⟩⟩

/-- What such a core drains to. -/
def drainArch (P : Params) (s : State w k) : Arch w :=
  { pc := s.pc, regs := drainX s, fregs := drainF s, mem := drainM P s, csr := s.csr }

theorem Emptied.sim {s : State w k} (hprof : P.pipelineProfile = .fiveStage) (h : Emptied s) :
    Sim P s (drainArch P s) := by
  have hnot : ¬s.reg2.valid = true := by simp [h.ex.1]
  have hstream : Stream P s s.pc := by
    unfold Stream
    rw [hprof]
    exact ⟨h.id.2.1, .inl ⟨h.id.1, rfl⟩⟩
  exact
    { order :=
        { ex := fun hv ↦ absurd hv hnot
          behind := fun hv ↦ absurd hv hnot
          front := fun _ ↦ .inl hstream
          static := fun _ ↦ ⟨h.predict.1, h.predict.2, h.ex.2.1⟩ }
      regs := rfl
      fregs := rfl
      mem := rfl
      x0 := h.x0
      csr := ⟨0, by simp [drainArch], by simp, fun _ _ ↦ rfl⟩
      id := fun hid ↦ by simp [h.id.1] at hid
      fault := ⟨h.id.2.2, h.ex.2.2.1⟩
      ex := fun hv ↦ absurd hv hnot
      bubble := fun _ hf ↦ absurd (h.ex.2.2.2.symm.trans hf) Bool.false_ne_true
      operands := fun hv ↦ absurd hv hnot
      units :=
        { divIdle := fun _ ↦ h.div
          fdivIdle := fun _ ↦ h.fdiv
          fsqrtIdle := fun _ ↦ h.fsqrt
          divOne := fun _ ↦ h.div.2
          fdivOne := fun _ ↦ h.fdiv.2
          fsqrtOne := fun _ ↦ h.fsqrt.2
          div := fun hv ↦ absurd hv hnot
          fdiv := fun hv ↦ absurd hv hnot
          fsqrt := fun hv ↦ absurd hv hnot }
      amo := ⟨h.mem.2.2.1, h.wb⟩
      load := fun hd ↦ by simp [h.mem.2.2.2] at hd
      waiting := fun _ hr ↦ by simp [h.mem.1] at hr
      idle := ⟨h.walker.1, h.walker.2.1, h.walker.2.2.1, h.walker.2.2.2⟩ }

/-- Whatever a core with the static predictor has done before. -/
theorem parked_of_emptied (hprof : P.pipelineProfile = .fiveStage)
    (hpred : P.branchPredictor = .static) (h : Emptied s) (hpark : (drainArch P s).AtPark P) :
    Parked P s (drainArch P s) :=
  ⟨h.sim hprof, hpark, h.mem.1, h.mem.2.1,
    fun hP ↦ BranchPredictor.noConfusion (hpred.symm.trans hP)⟩

/-! ## Programs whose first cycles can be checked -/

/-- What can be checked of a cycle of the five-stage pipeline. -/
structure Checked (P : Params) (s : State 32 k) (i : Inputs) : Prop where
  ordinary : Ordinary P s
  quiet : interruptTaken P s i = false
  lines : s.reg2.readsLines = false
  flags : FlagsOwn P s i
  predict : P.branchPredictor = .dynamicBhtBtb → PredictionKept P s i
  fma : FmaApart P s i
  latency : LoadRecognised P s i

instance : Decidable (Checked P s i) :=
  decidable_of_iff (Ordinary P s ∧ interruptTaken P s i = false ∧ s.reg2.readsLines = false ∧
      FlagsOwn P s i ∧ (P.branchPredictor = .dynamicBhtBtb → PredictionKept P s i) ∧
      FmaApart P s i ∧ LoadRecognised P s i)
    ⟨fun h ↦ ⟨h.1, h.2.1, h.2.2.1, h.2.2.2.1, h.2.2.2.2.1, h.2.2.2.2.2.1, h.2.2.2.2.2.2⟩,
      fun h ↦ ⟨h.ordinary, h.quiet, h.lines, h.flags, h.predict, h.fma, h.latency⟩⟩

theorem Checked.safe (hprof : P.pipelineProfile = .fiveStage) (h : Checked P s i) : Safe P s i :=
  { h.ordinary with
    flags := h.flags
    predict := h.predict
    fma := fun _ ↦ h.fma
    latency := fun _ ↦ h.latency
    split := fun hP ↦ PipelineProfile.noConfusion (hprof.symm.trans hP)
    interrupt := fun hint ↦ absurd (h.quiet.symm.trans hint) Bool.false_ne_true }

section Stops

variable {s₀ : State 32 k} {ins : ℕ → Inputs} {N : ℕ} (hmode : P.cacheMode = .none)
  (hprof : P.pipelineProfile = .fiveStage)
  (hfirst : ∀ n < N, Checked P (run P s₀ ins n) (ins n))
  (hpark : ((Arch.reset P s₀).runActions P (actions P s₀ ins N)).AtPark P)
  (hread : (run P s₀ ins N).reg3.memRead = false)
  (hwrite : (run P s₀ ins N).reg3.memWrite = false)
  (hsteady : P.branchPredictor = .dynamicBhtBtb → Steady P (run P s₀ ins N)
    ((Arch.reset P s₀).runActions P (actions P s₀ ins N)).pc)

include hmode hprof hfirst hpark hread hwrite hsteady

theorem parked_of_checked (n : ℕ) (hn : N ≤ n) : ∃ b, Parked P (run P s₀ ins n) b :=
  parked_run hmode hprof
    ⟨sim_run hmode N fun m hm ↦ (hfirst m hm).safe hprof, hpark, hread, hwrite, hsteady⟩ n hn

/-- A run whose first cycles can be checked, and that has come to `jal x0, .` after them, is
repeatable for ever. -/
theorem repeatable_of_checked (n : ℕ) : Repeatable P (run P s₀ ins n) (ins n) := by
  have hreach := run_reachable P s₀ ins n
  by_cases hn : n < N
  · have hc := hfirst n hn
    exact { hc.safe hprof with
      quiet := hc.quiet
      lines := fun _ hl ↦ absurd (hc.lines.symm.trans hl) Bool.false_ne_true }
  · obtain ⟨b, hp⟩ := parked_of_checked hmode hprof hfirst hpark hread hwrite hsteady n
      (Nat.not_lt.mp hn)
    exact { hp.safe hprof hreach with
      quiet := hp.quiet
      lines := fun _ hl ↦ by simp [Reg2.readsLines, (hp.ctl hreach).2.1] at hl }

end Stops

/-! ## The sequential machine -/

/-- A safe run commits exactly what the sequential machine writes for the instructions executed and
the interrupts taken, and executes without end. -/
theorem core_refines_sequential {s₀ : State w k} {ins : ℕ → Inputs}
    (hmode : P.cacheMode = .none) (hsafe : ∀ n, Safe P (run P s₀ ins n) (ins n)) :
    SameLimit (commitLog P s₀ ins)
      (fun n ↦ (Arch.reset P s₀).logActions P (actions P s₀ ins n)) ∧
    (∀ c, ∃ n, c ≤ (actions P s₀ ins n).length) ∧
    ∀ n, drainX (run P s₀ ins n) = ((Arch.reset P s₀).runActions P (actions P s₀ ins n)).regs ∧
      drainF (run P s₀ ins n) = ((Arch.reset P s₀).runActions P (actions P s₀ ins n)).fregs ∧
      drainM P (run P s₀ ins n) = ((Arch.reset P s₀).runActions P (actions P s₀ ins n)).mem := by
  refine ⟨⟨fun n ↦ ⟨n, ?_⟩, ?_⟩, ?_, fun n ↦ ?_⟩
  · exact commitLog_le hmode n fun m _ ↦ hsafe m
  · exact commitLog_overtakes hmode hsafe
  · exact actions_unbounded hmode hsafe
  · have hsim := sim_always hmode hsafe n
    exact ⟨hsim.regs, hsim.fregs, hsim.mem⟩

/-- Integer and float results used by the next instruction, from EX, from MEM and from loads. -/
def dependProgram : List (BitVec 32) :=
  [0x3f8000b7,  -- lui    x1, 0x3f800
   0x04102023,  -- sw     x1, 64(x0)
   0x04002183,  -- lw     x3, 64(x0)
   0x00118213,  -- addi   x4, x3, 1
   0x023202b3,  -- mul    x5, x4, x3
   0x04002087,  -- flw    f1, 64(x0)
   0x00108153,  -- fadd.s f2, f1, f1
   0x0000006f]  -- j      .

def dependParams : Params := { insts := instsOfWords dependProgram }

theorem depend_refines_sequential :
    SameLimit (commitLog dependParams (default : State 32 0) fun _ ↦ {})
      (fun n ↦ (Arch.reset dependParams (default : State 32 0)).logActions dependParams
        (actions dependParams (default : State 32 0) (fun _ ↦ {}) n)) ∧
    ∀ c, ∃ n, c ≤ (actions dependParams (default : State 32 0) (fun _ ↦ {}) n).length := by
  have hrep : ∀ n, Repeatable dependParams
      (run dependParams (default : State 32 0) (fun _ ↦ {}) n) {} :=
    repeatable_of_checked (N := 24) rfl rfl (by decide +kernel)
      ⟨by decide +kernel, by decide +kernel, by decide +kernel, by decide +kernel⟩
      (by decide +kernel) (by decide +kernel) fun hP ↦ BranchPredictor.noConfusion hP
  have h := core_refines_sequential rfl fun n ↦ (hrep n).toSafe
  exact ⟨h.1, h.2.1⟩

end RvPipeline
