import RvPipeline.Core.Invariants

/-!
# Program order

`programPc` follows the instruction stream as EX resolves it: the fall-through or target of
each instruction executed, the vector of each trap, the saved address of each return.  The
instructions in EX, in ID and in the fetch stages are the next ones of that stream, or EX is
about to redirect; the resume address of an interrupt is one of them.
-/

namespace RvPipeline

variable {w k : ℕ} {P : Params} {s : State w k} {i : Inputs} {e e' : BitVec w}

/-! ## Bubbles -/

/-- An empty ID holds the squash word; an empty EX has no control bits or those of `nop`. -/
structure BubbleInv (s : State w k) : Prop where
  id : s.idBubble = true → s.reg1 = .bubble w
  ex : s.reg2.valid = false →
    s.reg2.ctl = {} ∨ (s.reg2.inst = nopInst ∧ s.reg2.ctl = decodeControl w nopInst)

theorem decodeControl_nopInst :
    decodeControl w nopInst = { aluOp := .itype, aluSrc := true, regWrite := true } := rfl

theorem BubbleInv.step (h : BubbleInv s) : BubbleInv (step P s i) := by
  constructor
  · intro hbub
    change (if branchTaken P s i || s.redirectSquashExtend then true
      else if pcStall P s i then s.idBubble else false) = true at hbub
    change s.reg1.step _ _ _ = _
    unfold Reg1.step
    split_ifs with hsq hst
    · rfl
    · rw [if_neg hsq, if_pos hst] at hbub
      exact h.id hbub
    · rw [if_neg hsq, if_neg hst] at hbub
      exact absurd hbub Bool.false_ne_true
  · intro hval
    change (s.reg2.step (reg2Hold P s i) (branchTaken P s i) (reg2Flush P s i)
      (reg2Next s)).valid = false at hval
    change (s.reg2.step _ _ _ _).ctl = _ ∨ (s.reg2.step _ _ _ _).inst = _ ∧
      (s.reg2.step _ _ _ _).ctl = _
    unfold Reg2.step at hval ⊢
    split_ifs at hval ⊢ with hhold hbt hflush
    · exact h.ex hval
    · exact .inl rfl
    · exact .inl rfl
    · have hid : s.idBubble = true := by simpa [reg2Next] using hval
      have hinst : s.reg1.inst = nopInst := by rw [h.id hid]; rfl
      right
      simp [reg2Next, hinst]

theorem bubbleInv (h : Reachable P s) : BubbleInv s := by
  refine h.invariant BubbleInv ?_ fun s i hs ↦ hs.step
  rintro _ ⟨s₀, rfl⟩
  exact ⟨fun _ ↦ rfl, fun _ ↦ .inl rfl⟩

/-- Control bits and ALU operation of an empty EX. -/
theorem bubble_cases (hdec : s.reg2.Decoded) (hbub : BubbleInv s) (hval : s.reg2.valid = false) :
    (s.reg2.ctl = {} ∨ s.reg2.ctl = { aluOp := .itype, aluSrc := true, regWrite := true }) ∧
      s.reg2.aluCtl = .add := by
  rcases hbub.ex hval with h | ⟨hinst, h⟩
  · exact ⟨.inl h, by simp [Reg2.aluCtl, h, aluCtrl]⟩
  · rw [decodeControl_nopInst] at h
    have h3 : s.reg2.ctx.funct3 = 0 := by
      rw [hdec.fields.funct3, hinst]
      rfl
    exact ⟨.inr h, by simp [Reg2.aluCtl, h, h3, aluCtrl]⟩

theorem desiredTaken_of_bubble (hdec : s.reg2.Decoded) (hbub : BubbleInv s)
    (hval : s.reg2.valid = false) (o : Operands w) : s.reg2.desiredTaken o = false := by
  rcases (bubble_cases hdec hbub hval).1 with h | h <;> simp [Reg2.desiredTaken, h]

theorem mretReal_of_bubble (hdec : s.reg2.Decoded) (hbub : BubbleInv s)
    (hval : s.reg2.valid = false) : mretReal s = false ∧ sretReal s = false := by
  rcases (bubble_cases hdec hbub hval).1 with h | h <;>
    simp [mretReal, sretReal, Reg2.mretReal, Reg2.sretReal, h]

/-! ## The stream of instructions -/

/-- Where fetch went after the instruction in ID. -/
def Reg1.predictedNext (r : Reg1 w) : BitVec w :=
  if r.predictTaken then r.predictTarget else r.pc + (if r.isCompressed then 2 else 4)

/-- Where fetch went after the instruction in EX. -/
def Reg2.predictedNext (r : Reg2 w) : BitVec w :=
  if r.ctx.predictTaken then r.ctx.predictTarget else r.pcPlus4

/-- Where the instruction itself goes, traps and returns aside. -/
def Reg2.resolvedNext (r : Reg2 w) (o : Operands w) : BitVec w :=
  if r.desiredTaken o then r.immSum o else r.pcPlus4

/-- The vector `trap_target_is_s` selects. -/
def trapVector (P : Params) (s : State w k) (i : Inputs) : BitVec w :=
  if trapTargetIsS P s i then s.csr.stvec else s.csr.mtvec

/-- The next instruction in program order after this cycle, `e` being the next one before. -/
def programNext (P : Params) (s : State w k) (i : Inputs) (e : BitVec w) : BitVec w :=
  if reg2Hold P s i then e
  else if exceptionTaken P s || interruptTaken P s i then trapVector P s i
  else if !s.reg2.valid then e
  else if mretReal s then s.csr.mepc
  else if sretReal s then s.csr.sepc
  else s.reg2.resolvedNext (operands P s)

/-- The first instruction in program order that EX has not executed by cycle `n`. -/
def programPc (P : Params) (s₀ : State w k) (ins : ℕ → Inputs) : ℕ → BitVec w
  | 0 => 0
  | n + 1 => programNext P (run P s₀ ins n) (ins n) (programPc P s₀ ins n)

/-- Where fetch goes after the address in the extra fetch register. -/
def fetchedNext (P : Params) (r : Reg1a w) : BitVec w :=
  if r.predictTaken then r.predictTarget
  else r.pc + (if isCompressedWord (imemRead P r.pc) then 2 else 4)

/-- What a split fetch needs beside: fetch takes the length of the word it reads for the one
at the PC, squashes one cycle too few if that cycle stalls, starts with its first address in
both stages, and resumes one instruction late out of the second empty cycle. -/
structure SplitOrderly (P : Params) (s : State w k) (i : Inputs) : Prop where
  plain : P.cacheMode = .none ∧ translateEnable s = false
  length : pcStall P s i = false → branchTaken P s i = false → predictTakenIf P s = false →
    isCompressedWord (imemRead P s.reg1a.pc) = isCompressedWord (imemRead P s.pc)
  extend : s.redirectSquashExtend = true → branchTaken P s i = false → pcStall P s i = false
  double : s.reg2.valid = true → s.idBubble = false → s.reg1.pc = s.reg2.ctx.pc →
    otherRedirectTaken P s = true ∨ s.reg2.predictedNext = s.reg2.ctx.pc
  resume : interruptTaken P s i = true → s.idBubble = true → s.redirectSquashExtend = true

/-- What keeps a cycle from losing or inventing an instruction. -/
structure Orderly (P : Params) (s : State w k) (i : Inputs) : Prop where
  /-- a redirect that EX leaves with is not swallowed by a stall -/
  taken : branchTaken P s i = true → reg2Hold P s i = false → pcStall P s i = false
  /-- a bubble carries no prediction -/
  bubble : s.reg2.valid = false → s.reg2.ctx.predictTaken = false
  /-- a redirect that is held is not a data page fault, and waits behind no two AMOs -/
  held : otherRedirectTaken P s = true → reg2Hold P s i = true →
    dtlbPageFault P s = false ∧ (s.reg3.isAmo && s.reg4.isAmo) = false
  split : P.pipelineProfile = .splitFetch → SplitOrderly P s i

/-- ID and the fetch PC hold the stream from `e`. -/
def StreamFive (s : State w k) (e : BitVec w) : Prop :=
  s.redirectSquashExtend = false ∧
    ((s.idBubble = true ∧ s.pc = e) ∨
      (s.idBubble = false ∧ s.reg1.pc = e ∧ s.reg1.predictedNext = s.pc))

/-- ID, the extra fetch register and the fetch PC hold the stream from `e`; out of reset the
first address is in both fetch stages. -/
def StreamSplit (P : Params) (s : State w k) (e : BitVec w) : Prop :=
  (s.redirectSquashExtend = true ∧ s.idBubble = true ∧ s.pc = e) ∨
    (s.redirectSquashExtend = false ∧
      ((s.idBubble = true ∧ s.reg1a.pc = e ∧ (fetchedNext P s.reg1a = s.pc ∨ s.pc = e)) ∨
        (s.idBubble = false ∧ s.reg1.pc = e ∧
          (s.reg1.predictedNext = s.reg1a.pc ∨ s.reg1a.pc = e) ∧
          fetchedNext P s.reg1a = s.pc)))

/-- The stages before EX hold the stream from `e`. -/
def Stream (P : Params) (s : State w k) (e : BitVec w) : Prop :=
  match P.pipelineProfile with
  | .fiveStage => StreamFive s e
  | .splitFetch => StreamSplit P s e

/-- The instructions in flight continue the stream from `e`. -/
structure InOrder (P : Params) (s : State w k) (e : BitVec w) : Prop where
  ex : s.reg2.valid = true → s.reg2.ctx.pc = e
  behind : s.reg2.valid = true → Stream P s s.reg2.predictedNext ∨
    otherRedirectTaken P s = true ∨
    (P.pipelineProfile = .splitFetch ∧ s.idBubble = false ∧ Stream P s s.reg2.ctx.pc)
  front : s.reg2.valid = false → Stream P s e ∨ otherRedirectTaken P s = true
  static : P.branchPredictor = .static → s.reg1a.predictTaken = false ∧
    s.reg1.predictTaken = false ∧ s.reg2.ctx.predictTaken = false

theorem InOrder.init (s₀ : State w k) : InOrder P (reset P s₀) 0 where
  ex h := absurd h Bool.false_ne_true
  behind h := absurd h Bool.false_ne_true
  front _ := by
    unfold Stream
    cases P.pipelineProfile with
    | fiveStage => exact .inl ⟨rfl, .inl ⟨rfl, rfl⟩⟩
    | splitFetch => exact .inl (.inr ⟨rfl, .inl ⟨rfl, rfl, .inr rfl⟩⟩)
  static _ := ⟨rfl, rfl, rfl⟩

/-! ## The stages before EX -/

/-- A stalled cycle changes nothing before EX. -/
theorem Stream.stall (h : Stream P s e) (hok : Orderly P s i) (hbt : branchTaken P s i = false)
    (hstall : pcStall P s i = true) : Stream P (step P s i) e := by
  have hpc : (step P s i).pc = s.pc := by simp [step, pcStep, hstall]
  have hreg1a : (step P s i).reg1a = s.reg1a := by simp [step, Reg1a.step, hstall]
  have hnoext : s.redirectSquashExtend = false := by
    by_contra hne
    have hext : s.redirectSquashExtend = true := by simpa using hne
    unfold Stream at h
    cases hprof : P.pipelineProfile with
    | fiveStage =>
      simp only [hprof] at h
      exact hne h.1
    | splitFetch =>
      have hno := (hok.split hprof).extend hext hbt
      rw [hstall] at hno
      exact Bool.noConfusion hno
  have hreg1 : (step P s i).reg1 = s.reg1 := by simp [step, Reg1.step, hbt, hnoext, hstall]
  have hid : (step P s i).idBubble = s.idBubble := by simp [step, hbt, hnoext, hstall]
  have hext : (step P s i).redirectSquashExtend = s.redirectSquashExtend := by
    simp [step, hbt, hnoext]
  unfold Stream at h ⊢
  cases hprof : P.pipelineProfile with
  | fiveStage =>
    simp only [hprof, StreamFive] at h ⊢
    rwa [hpc, hreg1, hid, hext]
  | splitFetch =>
    simp only [hprof, StreamSplit] at h ⊢
    rwa [hpc, hreg1, hid, hext, hreg1a]

/-- A redirect restarts the stream at its target. -/
theorem Stream.redirect (hbt : branchTaken P s i = true) (hstall : pcStall P s i = false) :
    Stream P (step P s i) (redirectTarget P s i) := by
  have hpc : (step P s i).pc = redirectTarget P s i := by
    simp [step, pcStep, hstall, pcFinal, hbt]
  have hid : (step P s i).idBubble = true := by simp [step, hbt]
  unfold Stream
  cases hprof : P.pipelineProfile with
  | fiveStage => exact ⟨by simp [step, hprof], .inl ⟨hid, hpc⟩⟩
  | splitFetch => exact .inl ⟨by simp [step, hprof, hbt], hid, hpc⟩

theorem StreamFive.advance (h : StreamFive s e) (hprof : P.pipelineProfile = .fiveStage)
    (hbt : branchTaken P s i = false) (hstall : pcStall P s i = false) :
    (s.idBubble = true → StreamFive (step P s i) e) ∧
      (s.idBubble = false → s.reg1.pc = e ∧ StreamFive (step P s i) s.reg1.predictedNext) := by
  obtain ⟨hext, hcase⟩ := h
  have hreg1 : (step P s i).reg1 = reg1Next P s := by simp [step, Reg1.step, hbt, hext, hstall]
  have hid : (step P s i).idBubble = false := by simp [step, hbt, hext, hstall]
  have hpc : (step P s i).pc = pcSpeculative P s := by simp [step, pcStep, hstall, pcFinal, hbt]
  have hat : (step P s i).reg1.pc = s.pc := by simp [hreg1, reg1Next, imemReadAddr, hprof]
  have hnext : (step P s i).reg1.predictedNext = (step P s i).pc := by
    rw [hreg1, hpc]
    simp [Reg1.predictedNext, reg1Next, pcSpeculative, predictTakenFetch, predictTargetFetch,
      imemReadAddr, pcNew, hprof]
  have hnoext : (step P s i).redirectSquashExtend = false := by simp [step, hprof]
  rcases hcase with ⟨hb, he⟩ | ⟨hb, he, hp⟩
  · refine ⟨fun _ ↦ ⟨hnoext, .inr ⟨hid, hat.trans he, hnext⟩⟩, fun hb' ↦ ?_⟩
    rw [hb] at hb'
    exact Bool.noConfusion hb'
  · refine ⟨fun hb' ↦ ?_, fun _ ↦ ⟨he, hnoext, .inr ⟨hid, hat.trans hp.symm, hnext⟩⟩⟩
    rw [hb] at hb'
    exact Bool.noConfusion hb'

theorem StreamSplit.advance (h : StreamSplit P s e) (hprof : P.pipelineProfile = .splitFetch)
    (hok : SplitOrderly P s i) (hbt : branchTaken P s i = false)
    (hstall : pcStall P s i = false) :
    (s.idBubble = true → StreamSplit P (step P s i) e) ∧
      (s.idBubble = false → s.reg1.pc = e ∧
        (StreamSplit P (step P s i) s.reg1.predictedNext ∨
          ((step P s i).idBubble = false ∧ StreamSplit P (step P s i) e))) := by
  obtain ⟨hmode, hbare⟩ := hok.plain
  have hfetch : fetchInst P s = imemRead P s.reg1a.pc := by
    simp [fetchInst, hmode, imemPhysAddr, hbare, imemReadAddr, hprof]
  have hreg1a : (step P s i).reg1a =
      { pc := s.pc, predictTaken := predictTakenIf P s, predictTarget := predictTargetIf P s } := by
    simp [step, Reg1a.step, hstall]
  have hpc : (step P s i).pc = pcSpeculative P s := by simp [step, pcStep, hstall, pcFinal, hbt]
  -- the increment uses the word in the extra fetch stage
  have hnext : fetchedNext P (step P s i).reg1a = (step P s i).pc := by
    rw [hreg1a, hpc]
    cases hpt : predictTakenIf P s with
    | true => simp [fetchedNext, pcSpeculative, hpt]
    | false =>
      have hlen := hok.length hstall hbt hpt
      simp [fetchedNext, pcSpeculative, hpt, pcNew, isCompressed, hfetch, hlen]
  have hnoext : (step P s i).redirectSquashExtend = false := by simp [step, hbt]
  have hat : (step P s i).reg1a.pc = s.pc := by rw [hreg1a]
  rcases h with ⟨hext, hb, he⟩ | ⟨hext, hcase⟩
  · have hid : (step P s i).idBubble = true := by simp [step, hext]
    refine ⟨fun _ ↦ .inr ⟨hnoext, .inl ⟨hid, hat.trans he, .inl hnext⟩⟩, fun hb' ↦ ?_⟩
    rw [hb] at hb'
    exact Bool.noConfusion hb'
  · have hreg1 : (step P s i).reg1 = reg1Next P s := by simp [step, Reg1.step, hbt, hext, hstall]
    have hid : (step P s i).idBubble = false := by simp [step, hbt, hext, hstall]
    have hat1 : (step P s i).reg1.pc = s.reg1a.pc := by
      simp [hreg1, reg1Next, imemReadAddr, hprof]
    have hpred : (step P s i).reg1.predictedNext = fetchedNext P s.reg1a := by
      rw [hreg1]
      simp [Reg1.predictedNext, reg1Next, predictTakenFetch, predictTargetFetch, imemReadAddr,
        hprof, fetchedNext, isCompressed, hfetch]
    rcases hcase with ⟨hb, he, hp⟩ | ⟨hb, he, hp, hq⟩
    · have hlink : (step P s i).reg1.predictedNext = (step P s i).reg1a.pc ∨
          (step P s i).reg1a.pc = e := by
        rw [hpred, hat]
        exact hp
      refine ⟨fun _ ↦ .inr ⟨hnoext, .inr ⟨hid, hat1.trans he, hlink, hnext⟩⟩, fun hb' ↦ ?_⟩
      rw [hb] at hb'
      exact Bool.noConfusion hb'
    · have hlink : (step P s i).reg1.predictedNext = (step P s i).reg1a.pc := by
        rw [hpred, hat]
        exact hq
      refine ⟨fun hb' ↦ ?_, fun _ ↦ ⟨he, ?_⟩⟩
      · rw [hb] at hb'
        exact Bool.noConfusion hb'
      · rcases hp with hp | hp
        · exact .inl (.inr ⟨hnoext, .inr ⟨hid, hat1.trans hp.symm, .inl hlink, hnext⟩⟩)
        · exact .inr ⟨hid, .inr ⟨hnoext, .inr ⟨hid, hat1.trans hp, .inl hlink, hnext⟩⟩⟩

/-- A cycle that moves: what was in ID goes on to EX with the stream behind it. -/
theorem Stream.advance (h : Stream P s e) (hok : Orderly P s i) (hbt : branchTaken P s i = false)
    (hstall : pcStall P s i = false) :
    (s.idBubble = true → Stream P (step P s i) e) ∧
      (s.idBubble = false → s.reg1.pc = e ∧
        (Stream P (step P s i) s.reg1.predictedNext ∨
          (P.pipelineProfile = .splitFetch ∧ (step P s i).idBubble = false ∧
            Stream P (step P s i) e))) := by
  unfold Stream at h ⊢
  cases hprof : P.pipelineProfile with
  | fiveStage =>
    simp only [hprof] at h ⊢
    obtain ⟨hempty, hfull⟩ := h.advance hprof hbt hstall
    exact ⟨hempty, fun hb ↦ ⟨(hfull hb).1, .inl (hfull hb).2⟩⟩
  | splitFetch =>
    simp only [hprof] at h ⊢
    obtain ⟨hempty, hfull⟩ := h.advance hprof (hok.split hprof) hbt hstall
    refine ⟨hempty, fun hb ↦ ⟨(hfull hb).1, ?_⟩⟩
    rcases (hfull hb).2 with hs | hs
    · exact .inl hs
    · exact .inr ⟨trivial, hs⟩

/-- An interrupt resumes at the head of the stream. -/
theorem Stream.interruptMepc_eq (h : Stream P s e) (hok : Orderly P s i)
    (hint : interruptTaken P s i = true) : interruptMepc s = e := by
  unfold Stream at h
  cases hprof : P.pipelineProfile with
  | fiveStage =>
    simp only [hprof] at h
    rcases h.2 with ⟨hb, he⟩ | ⟨hb, he, -⟩ <;> simp [interruptMepc, hb, he]
  | splitFetch =>
    simp only [hprof] at h
    rcases h with ⟨-, hb, he⟩ | ⟨hext, ⟨hb, -, -⟩ | ⟨hb, he, -⟩⟩
    · simp [interruptMepc, hb, he]
    · have hno := (hok.split hprof).resume hint hb
      rw [hext] at hno
      exact Bool.noConfusion hno
    · simp [interruptMepc, hb, he]

/-! ## Redirects -/

/-- Without a redirect the prediction was right. -/
theorem resolvedNext_of_not_redirect (hstatic : P.branchPredictor = .static →
      s.reg2.ctx.predictTaken = false) (h : branchOrJumpRedirect P s = false) :
    s.reg2.resolvedNext (operands P s) = s.reg2.predictedNext := by
  unfold branchOrJumpRedirect at h
  cases hP : P.branchPredictor with
  | static =>
    simp only [hP, desiredTaken] at h
    simp [Reg2.resolvedNext, Reg2.predictedNext, h, hstatic hP]
  | dynamicBhtBtb =>
    simp only [hP, mispredict, Reg2.mispredict, Bool.or_eq_false_iff, bne_eq_false_iff_eq] at h
    cases hd : s.reg2.desiredTaken (operands P s) with
    | false => simp [Reg2.resolvedNext, Reg2.predictedNext, h.1, hd]
    | true =>
      have htarget : s.reg2.ctx.predictTarget = s.reg2.immSum (operands P s) := by
        simpa [hd] using h.2
      simp [Reg2.resolvedNext, Reg2.predictedNext, h.1, hd, htarget]

/-- With one, fetch is sent where the instruction goes. -/
theorem branchOrJumpTarget_of_redirect (h : branchOrJumpRedirect P s = true) :
    branchOrJumpTarget P s = s.reg2.resolvedNext (operands P s) := by
  unfold branchOrJumpRedirect at h
  cases hP : P.branchPredictor with
  | static =>
    simp only [hP, desiredTaken] at h
    simp [branchOrJumpTarget, hP, Reg2.resolvedNext, h]
  | dynamicBhtBtb =>
    cases hd : s.reg2.desiredTaken (operands P s) <;>
      simp [branchOrJumpTarget, hP, desiredTaken, Reg2.resolvedNext, hd]

theorem otherRedirectTaken_cases (h : otherRedirectTaken P s = true) :
    branchOrJumpRedirect P s = true ∨ exceptionTaken P s = true ∨ mretReal s = true ∨
      sretReal s = true := by
  simp only [otherRedirectTaken, Bool.or_eq_true] at h
  tauto

/-- A redirect in an empty EX is a fetch fault or an interrupt. -/
theorem redirect_of_bubble (hdec : s.reg2.Decoded) (hbub : BubbleInv s) (hok : Orderly P s i)
    (hval : s.reg2.valid = false) (h : otherRedirectTaken P s = true) :
    exceptionTaken P s = true := by
  obtain ⟨hm, hs⟩ := mretReal_of_bubble hdec hbub hval
  have hd := desiredTaken_of_bubble hdec hbub hval (operands P s)
  have hredir : branchOrJumpRedirect P s = false := by
    unfold branchOrJumpRedirect
    cases P.branchPredictor <;>
      simp [desiredTaken, mispredict, Reg2.mispredict, hd, hok.bubble hval]
  simpa [otherRedirectTaken, hredir, hm, hs] using h

/-- EX leaves with the address `programNext` names. -/
theorem redirectTarget_eq_programNext (hdec : s.reg2.Decoded) (hbub : BubbleInv s)
    (hok : Orderly P s i) (hhold : reg2Hold P s i = false) (hbt : branchTaken P s i = true) :
    redirectTarget P s i = programNext P s i e := by
  unfold redirectTarget programNext
  simp only [hhold, Bool.false_eq_true, if_false]
  cases htrap : exceptionTaken P s || interruptTaken P s i with
  | true => simp [trapVector]
  | false =>
    have hno : exceptionTaken P s = false ∧ interruptTaken P s i = false := by simpa using htrap
    have hother : otherRedirectTaken P s = true := by simpa [branchTaken, hno.2] using hbt
    have hval : s.reg2.valid = true := by
      by_contra hne
      rw [redirect_of_bubble hdec hbub hok (by simpa using hne) hother] at hno
      exact Bool.noConfusion hno.1
    cases hm : mretReal s with
    | true => simp [hval]
    | false =>
      cases hsr : sretReal s with
      | true => simp [hval]
      | false =>
        have hredir : branchOrJumpRedirect P s = true := by
          simpa [otherRedirectTaken, hno.1, hm, hsr] using hother
        simp [hval, branchOrJumpTarget_of_redirect hredir]

/-! ## One cycle -/

/-- While MEM and WB are held, EX sees the same operands. -/
theorem operands_of_memHold (hamo : (s.reg3.isAmo && s.reg4.isAmo) = false)
    (hmem : memHold P s = true) (hreg2 : (step P s i).reg2 = s.reg2) :
    operands P (step P s i) = operands P s := by
  have hreg3 : (step P s i).reg3 = s.reg3 := by simp [step, Reg3.step, hmem]
  have hreg4 : (step P s i).reg4 = s.reg4 := by simp [step, Reg4.step, hmem]
  have hwb : writeDataWb (step P s i) = writeDataWb s := by
    cases h4 : s.reg4.isAmo with
    | false => simp [writeDataWb, hreg4, h4]
    | true =>
      -- the AMO in WB has MEM's sequencer at rest behind it
      have h3 : s.reg3.isAmo = false := by simpa [h4] using hamo
      have hcap : (step P s i).amo.capturedRead = s.amo.capturedRead := by
        simp [step, amoNext, amoActive, h3]
      simp [writeDataWb, hreg4, h4, hcap]
  simp [operands, forwarded, fforwarded, exmemFwdVal, hreg2, hreg3, hreg4, hwb]

/-- Only an R-type operation divides. -/
theorem aluOp_of_isDivRem {r : Reg2 w} (h : r.isDivRem = true) : r.ctl.aluOp = .rtype := by
  cases hop : r.ctl.aluOp with
  | rtype => rfl
  | loadStore => simp [Reg2.isDivRem, Reg2.aluCtl, hop, aluCtrl] at h
  | branch =>
    simp only [Reg2.isDivRem, Reg2.aluCtl, hop, aluCtrl] at h
    split_ifs at h <;> simp at h
  | itype =>
    simp only [Reg2.isDivRem, Reg2.aluCtl, hop, aluCtrl] at h
    split_ifs at h <;> simp at h

theorem control_rtype : ∀ c ∈ ({} :: controlValues : List Control), c.aluOp = .rtype →
    c = { aluOp := .rtype, regWrite := true } := by
  decide

/-- A division and a float operation are neither branches nor jumps. -/
theorem desiredTaken_of_iterative {r : Reg2 w} (hdec : r.Decoded)
    (h : r.isDivRem = true ∨ (r.isOpFp || r.isFma) = true) (o : Operands w) :
    r.desiredTaken o = false := by
  rcases h with h | h
  · have hctl := control_rtype _ hdec.ctl_mem (aluOp_of_isDivRem h)
    simp [Reg2.desiredTaken, hctl]
  · rcases hdec.ctl_float h with hctl | hctl | hctl <;> simp [Reg2.desiredTaken, hctl]

theorem iterative_of_stall (h : divStall s = true ∨ fpStall s = true) :
    s.reg2.isDivRem = true ∨ (s.reg2.isOpFp || s.reg2.isFma) = true := by
  rcases h with h | h
  · simp only [divStall, Bool.and_eq_true] at h
    exact .inl h.1
  · simp only [fpStall, Reg2.isFpDiv, Reg2.isFpSqrt, Bool.or_eq_true, Bool.and_eq_true] at h
    rcases h with h | h <;> simp [h.1.1]

/-- A redirect that EX has to hold is still there in the next cycle. -/
theorem otherRedirectTaken_of_hold (hdec : s.reg2.Decoded) (hok : Orderly P s i)
    (hhold : reg2Hold P s i = true) (h : otherRedirectTaken P s = true) :
    otherRedirectTaken P (step P s i) = true := by
  obtain ⟨hfault, hamo⟩ := hok.held h hhold
  have hreg2 := step_reg2_of_hold hhold
  have hcsr := step_csr_of_hold hhold
  rcases otherRedirectTaken_cases h with hredir | hexc | hm | hs
  · have hbt : branchTaken P s i = true := by simp [branchTaken, h]
    have hcause : memHold P s = true ∨ divStall s = true ∨ fpStall s = true := by
      simp only [reg2Hold, reg2HoldOf, hbt, dtlbMiss, Bool.or_eq_true] at hhold
      simp only [memHold, Bool.or_eq_true]
      simp at hhold
      tauto
    have hsame : branchOrJumpRedirect P (step P s i) = branchOrJumpRedirect P s := by
      rcases hcause with hmem | hiter
      · have hops := operands_of_memHold (i := i) hamo hmem hreg2
        simp [branchOrJumpRedirect, mispredict, desiredTaken, hreg2, hops]
      · have hd := desiredTaken_of_iterative hdec (iterative_of_stall hiter)
        simp [branchOrJumpRedirect, mispredict, Reg2.mispredict, desiredTaken, hreg2, hd]
    simp [otherRedirectTaken, hsame, hredir]
  · have hown : s.reg2.exceptionTaken s.csr.privMode false = true := by
      simpa [exceptionTaken, hfault] using hexc
    have hexc' : exceptionTaken P (step P s i) = true := by
      simp only [Reg2.exceptionTaken, Bool.or_false] at hown
      simp [exceptionTaken, Reg2.exceptionTaken, hreg2, hcsr, hown]
    simp [otherRedirectTaken, hexc']
  · simp [otherRedirectTaken, mretReal, hreg2, hcsr, show s.reg2.mretReal s.csr.privMode = true from hm]
  · simp [otherRedirectTaken, sretReal, hreg2, hcsr, show s.reg2.sretReal s.csr.privMode = true from hs]

/-- `pc_stall` is the hold of EX or the flush of ID. -/
theorem pcStall_eq : pcStall P s i = (reg2Hold P s i || reg2Flush P s i) := by
  rw [Bool.eq_iff_iff]
  simp only [pcStall, pcStallOf, reg2Hold, reg2HoldOf, reg2Flush, Bool.or_eq_true]
  tauto

/-- Every term of `pc_stall` that waits for `branch_taken` drops out under a redirect. -/
theorem pcStall_of_branchTaken (hbt : branchTaken P s i = true) (hhold : reg2Hold P s i = false)
    (hhaz : hazardStall P s true = false) (hflu : floatLoadUseHazard s = false) :
    pcStall P s i = false := by
  simp only [reg2Hold, reg2HoldOf, hbt, Bool.or_eq_false_iff] at hhold
  simp [pcStall, pcStallOf, hbt, hhaz, hflu, hhold, itlbMiss, dtlbMiss, icacheMiss, imemWait]

/-- Behind an instruction that does not redirect is the one it was predicted to go to. -/
theorem InOrder.stream_behind (h : InOrder P s e) (hok : Orderly P s i)
    (hval : s.reg2.valid = true) (hother : otherRedirectTaken P s = false) :
    Stream P s s.reg2.predictedNext := by
  rcases h.behind hval with hs | hr | ⟨hprof, hid, hs⟩
  · exact hs
  · rw [hother] at hr
    exact Bool.noConfusion hr
  · -- the double fetch out of reset: such an instruction redirects, or loops onto itself
    have hat : s.reg1.pc = s.reg2.ctx.pc := by
      have hs' := hs
      simp only [Stream, hprof] at hs'
      rcases hs' with ⟨-, hb, -⟩ | ⟨-, ⟨hb, -⟩ | ⟨-, he, -⟩⟩
      · rw [hid] at hb
        exact Bool.noConfusion hb
      · rw [hid] at hb
        exact Bool.noConfusion hb
      · exact he
    rcases (hok.split hprof).double hval hid hat with hr | hp
    · rw [hother] at hr
      exact Bool.noConfusion hr
    · rwa [hp]

/-- EX moves on without a redirect: the stream continues in the stages before it. -/
theorem InOrder.stream_of_advance (h : InOrder P s e) (hok : Orderly P s i)
    (hhold : reg2Hold P s i = false) (hother : otherRedirectTaken P s = false)
    (hint : interruptTaken P s i = false) : Stream P s (programNext P s i e) := by
  have hother' := hother
  simp only [otherRedirectTaken, Bool.or_eq_false_iff] at hother'
  obtain ⟨⟨⟨hredir, hexc⟩, hm⟩, hs⟩ := hother'
  unfold programNext
  simp only [hhold, hexc, hint, hm, hs, Bool.or_self, Bool.false_eq_true, if_false]
  cases hval : s.reg2.valid with
  | false => simpa [hother] using h.front hval
  | true =>
    rw [resolvedNext_of_not_redirect (fun hP ↦ (h.static hP).2.2) hredir]
    exact h.stream_behind hok hval hother

theorem InOrder.step_hold (hdec : s.reg2.Decoded) (h : InOrder P s e) (hok : Orderly P s i)
    (hhold : reg2Hold P s i = true) : InOrder P (step P s i) e := by
  have hreg2 := step_reg2_of_hold hhold
  have hstall := pcStall_of_reg2Hold hhold
  have hreg1a : (step P s i).reg1a = s.reg1a := by simp [step, Reg1a.step, hstall]
  have hint : interruptTaken P s i = false := by
    by_contra hne
    rw [reg2Hold_of_interruptTaken (by simpa using hne)] at hhold
    exact Bool.noConfusion hhold
  have hstatic : P.branchPredictor = .static → (step P s i).reg1a.predictTaken = false ∧
      (step P s i).reg1.predictTaken = false ∧
      (step P s i).reg2.ctx.predictTaken = false := by
    intro hP
    obtain ⟨h1a, h1, h2⟩ := h.static hP
    refine ⟨by rw [hreg1a, h1a], ?_, by rw [hreg2, h2]⟩
    change (s.reg1.step _ _ _).predictTaken = false
    unfold Reg1.step
    split_ifs
    · rfl
    · exact h1
  cases hother : otherRedirectTaken P s with
  | true =>
    -- ID is squashed early; the redirect itself waits
    have hredir := otherRedirectTaken_of_hold hdec hok hhold hother
    refine ⟨fun hval ↦ ?_, fun _ ↦ .inr (.inl hredir), fun _ ↦ .inr hredir, hstatic⟩
    rw [hreg2] at hval ⊢
    exact h.ex hval
  | false =>
    have hbt : branchTaken P s i = false := by simp [branchTaken, hother, hint]
    refine ⟨fun hval ↦ ?_, fun hval ↦ ?_, fun hval ↦ ?_, hstatic⟩
    · rw [hreg2] at hval ⊢
      exact h.ex hval
    · rw [hreg2] at hval ⊢
      exact .inl ((h.stream_behind hok hval hother).stall hok hbt hstall)
    · rw [hreg2] at hval
      have hfront : Stream P s e := by simpa [hother] using h.front hval
      exact .inl (hfront.stall hok hbt hstall)

theorem InOrder.step_redirect (hdec : s.reg2.Decoded) (hbub : BubbleInv s)
    (hok : Orderly P s i) (hhold : reg2Hold P s i = false) (hbt : branchTaken P s i = true) :
    InOrder P (step P s i) (programNext P s i e) := by
  have hstall := hok.taken hbt hhold
  have hreg2 : (step P s i).reg2 = .squashed w := by simp [step, Reg2.step, hhold, hbt]
  have hstream := Stream.redirect hbt hstall
  rw [redirectTarget_eq_programNext (e := e) hdec hbub hok hhold hbt] at hstream
  refine ⟨fun hval ↦ ?_, fun hval ↦ ?_, fun _ ↦ .inl hstream, fun hP ↦ ⟨?_, ?_, ?_⟩⟩
  · simp [hreg2, Reg2.squashed] at hval
  · simp [hreg2, Reg2.squashed] at hval
  · simp [step, Reg1a.step, hstall, predictTakenIf, hP]
  · simp [step, Reg1.step, hbt, Reg1.bubble]
  · simp [hreg2, Reg2.squashed, DecodeContext.zero]

theorem InOrder.step_advance (h : InOrder P s e) (hok : Orderly P s i)
    (hstream : Stream P s e') (hhold : reg2Hold P s i = false)
    (hbt : branchTaken P s i = false) : InOrder P (step P s i) e' := by
  cases hflush : reg2Flush P s i with
  | true =>
    -- ID stays behind and EX becomes a bubble
    have hstall : pcStall P s i = true := by simp [pcStall_eq, hflush]
    have hreg2 : (step P s i).reg2 = (reg2Next s).flushed := by
      simp [step, Reg2.step, hhold, hbt, hflush]
    refine ⟨fun hval ↦ ?_, fun hval ↦ ?_, fun _ ↦ .inl (hstream.stall hok hbt hstall),
      fun hP ↦ ⟨?_, ?_, ?_⟩⟩
    · simp [hreg2, Reg2.flushed] at hval
    · simp [hreg2, Reg2.flushed] at hval
    · simp [step, Reg1a.step, hstall, (h.static hP).1]
    · change (s.reg1.step _ _ _).predictTaken = false
      unfold Reg1.step
      split_ifs
      · rfl
      · exact (h.static hP).2.1
    · rw [hreg2]
      exact (h.static hP).2.1
  | false =>
    have hstall : pcStall P s i = false := by simp [pcStall_eq, hflush, hhold]
    have hreg2 : (step P s i).reg2 = reg2Next s := by simp [step, Reg2.step, hhold, hbt, hflush]
    have hpred : (reg2Next s).predictedNext = s.reg1.predictedNext := rfl
    obtain ⟨hempty, hfull⟩ := hstream.advance hok hbt hstall
    refine ⟨fun hval ↦ ?_, fun hval ↦ ?_, fun hval ↦ ?_, fun hP ↦ ⟨?_, ?_, ?_⟩⟩
    · rw [hreg2] at hval ⊢
      exact (hfull (by simpa [reg2Next] using hval)).1
    · rw [hreg2] at hval ⊢
      obtain ⟨hat, hs | ⟨hprof, hid, hs⟩⟩ := hfull (by simpa [reg2Next] using hval)
      · rw [hpred]
        exact .inl hs
      · refine .inr (.inr ⟨hprof, hid, ?_⟩)
        change Stream P (step P s i) s.reg1.pc
        rwa [hat]
    · rw [hreg2] at hval
      exact .inl (hempty (by simpa [reg2Next] using hval))
    · simp [step, Reg1a.step, hstall, predictTakenIf, hP]
    · change (s.reg1.step _ _ (reg1Next P s)).predictTaken = false
      unfold Reg1.step
      split_ifs
      · rfl
      · exact (h.static hP).2.1
      · cases hprof : P.pipelineProfile <;>
          simp [reg1Next, predictTakenFetch, predictTakenIf, hprof, hP, (h.static hP).1]
    · rw [hreg2]
      exact (h.static hP).2.1

/-- One cycle keeps the instructions in flight in program order. -/
theorem InOrder.step (hdec : s.reg2.Decoded) (hbub : BubbleInv s) (h : InOrder P s e)
    (hok : Orderly P s i) : InOrder P (step P s i) (programNext P s i e) := by
  cases hhold : reg2Hold P s i with
  | true =>
    have hsame : programNext P s i e = e := by simp [programNext, hhold]
    rw [hsame]
    exact h.step_hold hdec hok hhold
  | false =>
    cases hbt : branchTaken P s i with
    | true => exact InOrder.step_redirect hdec hbub hok hhold hbt
    | false =>
      have hno := hbt
      simp only [branchTaken, Bool.or_eq_false_iff] at hno
      exact h.step_advance hok (h.stream_of_advance hok hhold hno.1 hno.2) hhold hbt

/-- As long as a run is orderly, its pipeline holds the stream of instructions. -/
theorem inOrder_run {s₀ : State w k} {ins : ℕ → Inputs} (n : ℕ)
    (hok : ∀ m < n, Orderly P (run P s₀ ins m) (ins m)) :
    InOrder P (run P s₀ ins n) (programPc P s₀ ins n) := by
  induction n with
  | zero => exact InOrder.init s₀
  | succ n ih =>
    have hreach : Reachable P (run P s₀ ins n) := (core P w k).reachable_run ⟨s₀, rfl⟩ ins n
    have hprev := ih fun m hm ↦ hok m (Nat.lt_succ_of_lt hm)
    exact hprev.step (reg2_decoded hreach) (bubbleInv hreach) (hok n (Nat.lt_succ_self n))

/-! ## Where an interrupt resumes -/

/-- The instruction after the one in EX; `e` is the next one if EX is empty. -/
def resumePc (P : Params) (s : State w k) (e : BitVec w) : BitVec w :=
  if s.reg2.valid then s.reg2.resolvedNext (operands P s) else e

theorem InOrder.interruptMepc_eq (h : InOrder P s e) (hok : Orderly P s i)
    (hint : interruptTaken P s i = true) : interruptMepc s = resumePc P s e := by
  obtain ⟨-, hother, -⟩ := interruptTaken_spec hint
  have hredir : branchOrJumpRedirect P s = false := by
    have hother' := hother
    simp only [otherRedirectTaken, Bool.or_eq_false_iff] at hother'
    exact hother'.1.1.1
  unfold resumePc
  cases hval : s.reg2.valid with
  | false =>
    have hfront : Stream P s e := by simpa [hother] using h.front hval
    simpa using hfront.interruptMepc_eq hok hint
  | true =>
    have hpred := resolvedNext_of_not_redirect (fun hP ↦ (h.static hP).2.2) hredir
    rw [hpred]
    simpa using (h.stream_behind hok hval hother).interruptMepc_eq hok hint

end RvPipeline
