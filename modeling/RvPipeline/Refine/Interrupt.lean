import RvPipeline.Refine.Settled

/-!
# Precise interrupts

In the cycle in which an interrupt is taken the instruction in EX goes on to MEM.  Once MEM and
WB have drained, the core is in the state in which the sequential machine is that executes this
instruction after those before it and then takes the interrupt, if the instruction writes no CSR
the trap reads: with caches, translation, AMOs and any predictor.
-/

namespace RvPipeline

variable {w k : ℕ} {P : Params} {s : State w k} {i : Inputs} {e v : BitVec w}

/-! ## The sequential machine -/

/-- With the RAM's own answers and without translation, AMOs and counters, the surroundings add
nothing to the architectural state. -/
theorem Arch.execIn_eq_exec {a : Arch w} {x : Surroundings w} (htranslate : ∀ va, x.translate va = va)
    (hamo : (a.issued P).ctl.isAmo = false)
    (hcounter : (a.issued P).ctl.isCsr = true → Csr.isCounterAddr (a.issued P).csrAddr = false)
    (hanswer : (a.issued P).ctl.memtoReg = true → x.answer =
      loadExtend (a.issued P).ctx.funct3 (a.mem.rawWord (a.address P)))
    (htraps : a.traps P = false) : a.execIn P (a.issued P) x = a.exec P x.lines := by
  have hvalue : (a.issued P).outcome (a.operands P) a.csr x =
      (a.issued P).value (a.operands P) a.csr x.lines := by
    unfold Reg2.outcome Reg2.value
    split_ifs with hf hc
    · rfl
    · rw [Csr.rdata, hcounter hc, if_neg Bool.false_ne_true]
    · rfl
    · exact htranslate _
    · rfl
  have hwritten : (a.issued P).written (a.operands P) a.csr x = a.result P x.lines := by
    unfold Reg2.written Arch.result
    rw [hamo, hvalue, if_neg Bool.false_ne_true]
    split_ifs with hj hm
    · rfl
    · exact hanswer hm
    · rfl
  have hcsr : a.csr.nextWith ((a.issued P).csrPort (a.operands P) a.csr)
      (Csr.newVal ((a.issued P).ctx.funct3.extractLsb' 0 2)
        (a.csr.rdata x.counters x.lines (a.issued P).csrAddr)
        ((a.issued P).csrWdata (a.operands P))) =
      (a.issued P).csrAfter (a.operands P) a.csr x.lines := by
    refine Csr.nextWith_agree ⟨rfl, rfl, fun hw ↦ ?_, rfl, fun _ ↦ rfl, fun _ ↦ rfl, fun _ ↦ rfl,
      fun _ ↦ rfl, rfl, rfl, rfl, fun _ ↦ rfl⟩
    have hc : (a.issued P).ctl.isCsr = true := by
      simp only [Reg2.csrPort, Bool.and_eq_true] at hw
      exact hw.1
    rw [Csr.rdata, hcounter hc, if_neg Bool.false_ne_true]
  have hmem : afterAccess P a.mem x.answer (a.issued P).ctl.memWrite (a.issued P).ctl.isAmo
      ((a.issued P).outcome (a.operands P) a.csr x) ((a.issued P).storeData (a.operands P))
      (a.issued P).ctx.funct3 (a.issued P).ctx.funct7 = (a.exec P x.lines).mem := by
    simp only [afterAccess, hamo, Bool.false_eq_true, if_false, Arch.exec, Arch.stores, htraps,
      Bool.not_false, Bool.true_and, hvalue]
    split_ifs with hw
    · rw [(Arch.value_of_access Arch.issued_decoded (.inr hw)).1]
    · rfl
  change Arch.mk _ (a.regs.write (a.issued P).ctl.regWrite _
      ((a.issued P).written (a.operands P) a.csr x)) (a.fregs.fwrite (a.issued P).ctl.fRegWrite _
      ((a.issued P).written (a.operands P) a.csr x)) _ _ = _
  rw [hwritten]
  have hx : a.writesX P = (a.issued P).ctl.regWrite := by simp [Arch.writesX, htraps]
  have hf : a.writesF P = (a.issued P).ctl.fRegWrite := by simp [Arch.writesF, htraps]
  rw [← hx, ← hf]
  exact congrArg₂ (Arch.mk _ _ _) hmem hcsr

/-! ## The two states -/

/-- The translation of a data address, by the entry the TLB has for it. -/
def dataTranslation (s : State w k) (va : BitVec w) : BitVec w :=
  if translateEnable s && s.tlb.hit va then physAddr (s.tlb.entry va).ppn va else va

/-- What the instruction in EX finds, if the memory answers `v` to it. -/
def surroundings (s : State w k) (v : BitVec w) : Surroundings w :=
  { counters := s.counters, lines := pending s, translate := dataTranslation s, answer := v }

/-- The state before the instruction in EX: the older ones are done, those in MEM and WB with the
values they have, and have left `m` in memory; `e` is the next instruction in program order. -/
def beforeEx (P : Params) (s : State w k) (e : BitVec w) (m : Ram w) : Arch w :=
  { pc := e, regs := settledX (memAnswer P s) s, fregs := settledF (memAnswer P s) s, mem := m
    csr := s.csr }

/-- The state after the instruction in EX, if there is one. -/
def afterEx (P : Params) (s : State w k) (e : BitVec w) (m : Ram w) (v : BitVec w) : Arch w :=
  if s.reg2.valid then
    (beforeEx P s e m).execIn P (issueWord e s.reg2.inst s.reg2.ctx.isCompressed)
      (surroundings s v)
  else beforeEx P s e m

/-- The state of a core that is empty behind MEM, once MEM and WB have drained: MEM finds `m` in
memory, which answers `v`. -/
def drained (P : Params) (s : State w k) (m : Ram w) (v : BitVec w) : Arch w :=
  { pc := s.pc, regs := settledX v s, fregs := settledF v s
    mem := afterAccess P m v s.reg3.memWrite s.reg3.isAmo s.reg3.aluOut s.reg3.readData2
      s.reg3.funct3 s.reg3.funct7
    csr := s.csr }

/-- The instructions up to the one in EX complete, and the trap is taken after them. -/
structure InterruptPrecise (P : Params) (s : State w k) (i : Inputs) (e : BitVec w) : Prop where
  /-- draining leaves the state of the sequential machine, whatever is in memory and whatever the
  memory answers -/
  sequential : ∀ m v, drained P (step P s i) m v =
    (afterEx P s e m v).interrupt (interruptCause s)
  /-- a load or store in EX has its translation -/
  translated : dtlbNeeded s = true → lsHit P s = true
  /-- a store in MEM is in the RAM, unless a cache or the walker is in its way -/
  store : P.cacheMode = .none → s.ptw.busy = false → (step P s i).ram.dataMemory = drainM P s
  /-- nothing younger stays in the pipeline -/
  younger : (step P s i).reg1 = .bubble w ∧ (step P s i).reg2 = .squashed w

/-! ## The instruction in EX -/

/-- A full EX holds the record of its instruction word. -/
theorem Reg2.strip_eq_issueWord {r : Reg2 w} (hdec : r.Decoded) (hval : r.valid = true)
    (hfetch : r.ctx.ifetchFault = false) :
    r.strip = issueWord r.ctx.pc r.inst r.ctx.isCompressed := by
  obtain ⟨⟨h7, h3, himm, h1, h2, h3'⟩, ⟨-, -, hno⟩ | ⟨hctl, hrd⟩⟩ := hdec
  · rw [hval] at hno
    exact Bool.noConfusion hno
  · simp only [Reg2.strip, issueWord, ← hctl, ← hrd, ← h7, ← h3, ← himm, ← h1, ← h2, ← h3', hfetch,
      ← hval]

theorem Reg2.singleCycle_of_isAmo {r : Reg2 w} (hdec : r.Decoded) (h : r.ctl.isAmo = true) :
    r.singleCycle := by
  have hctl := control_amo _ hdec.ctl_mem h
  apply Reg2.singleCycle_of_not_float
  · by_contra hne
    have hop := aluOp_of_isDivRem (by simpa using hne)
    simp [hctl] at hop
  · by_contra hne
    rcases hdec.ctl_float (Bool.eq_true_of_not_eq_false hne) with hc | hc | hc <;>
      simp [hctl] at hc

section Ex

variable (hdec : s.reg2.Decoded) (hwait : WaitInv P s) (h : OperandsSettled P s v)
  (hval : s.reg2.valid = true)

include h hval

include hwait in
theorem mask_eq_of_no_access (hone : s.reg2.singleCycle)
    (hacc : (s.reg2.ctl.memRead || s.reg2.ctl.memWrite) = false) :
    s.reg2.mask (operands P s) = s.reg2.mask (settledOperands v s) := by
  apply h.mask_eq hval hone
  by_contra hne
  rw [hwait.access (by simpa using hne)] at hacc
  exact Bool.noConfusion hacc

include hdec

/-- The address of an access is that of the registers, captured or not. -/
theorem dtlbVaddr_eq (hacc : (s.reg2.ctl.memRead || s.reg2.ctl.memWrite) = true) :
    dtlbVaddr P s = s.reg2.aluOut (settledOperands v s) := by
  unfold dtlbVaddr
  cases hmiss : s.dtlbMissR with
  | true => exact (h.latched hval hmiss).1
  | false =>
    have haddr := congrArg s.reg2.aluOut
      (h.mask_eq hval (Reg2.singleCycle_of_access hdec hacc) hmiss)
    exact haddr

/-- What a store or an AMO carries to MEM is in the registers. -/
theorem dtlbStoreData_eq (hw : s.reg2.ctl.memWrite = true ∨ s.reg2.ctl.isAmo = true) :
    dtlbStoreData P s = s.reg2.storeData (settledOperands v s) := by
  have hone : s.reg2.singleCycle := by
    rcases hw with hw | hw
    · exact Reg2.singleCycle_of_access hdec (by simp [hw])
    · exact Reg2.singleCycle_of_isAmo hdec hw
  unfold dtlbStoreData
  cases hmiss : s.dtlbMissR with
  | true => exact (h.latched hval hmiss).2
  | false =>
    rw [if_neg Bool.false_ne_true, ← s.reg2.storeData_mask, h.mask_eq hval hone hmiss,
      s.reg2.storeData_mask]

include hwait

/-- EX hands on what the sequential machine computes. -/
theorem exResult_eq_outcome (hhold : reg2Hold P s i = false) (u : BitVec w) :
    exResult P s = s.reg2.outcome (settledOperands v s) s.csr (surroundings s u) := by
  simp only [reg2Hold, reg2HoldOf, Bool.or_eq_false_iff] at hhold
  obtain ⟨⟨⟨⟨hdivs, -⟩, hfps⟩, -⟩, -⟩ := hhold
  rw [h.units.exResult_eq hdec hval (mask_eq_of_no_access hwait h hval) hdivs hfps]
  unfold Reg2.outcome
  split_ifs with hf hc hd hacc
  · rfl
  · rfl
  · rfl
  · have haddr := dtlbVaddr_eq hdec h hval hacc
    simp only [surroundings, dataTranslation, memPaddr, lsHit, haddr]
  · rfl

/-- EX goes on to where the sequential machine goes. -/
theorem resolvedNext_eq_settled :
    s.reg2.resolvedNext (operands P s) = s.reg2.resolvedNext (settledOperands v s) := by
  by_cases hgo : s.reg2.ctl.branch = true ∨ s.reg2.ctl.jump = true
  · have hctl : ∀ c ∈ ({} :: controlValues : List Control), c.branch = true ∨ c.jump = true →
        (c.memRead || c.memWrite) = false ∧ c.aluOp ≠ .rtype ∧ c ≠ {} ∧
          c ≠ { fRegWrite := true } ∧ c ≠ { regWrite := true } := by
      decide
    obtain ⟨hacc, hop, h0, h1, h2⟩ := hctl _ hdec.ctl_mem hgo
    have hone : s.reg2.singleCycle := by
      apply Reg2.singleCycle_of_not_float
      · by_contra hne
        exact hop (aluOp_of_isDivRem (by simpa using hne))
      · by_contra hne
        rcases hdec.ctl_float (Bool.eq_true_of_not_eq_false hne) with hc | hc | hc
        · exact absurd hc h0
        · exact absurd hc (by assumption)
        · exact absurd hc (by assumption)
    have hnext := congrArg s.reg2.resolvedNext (mask_eq_of_no_access hwait h hval hone hacc)
    exact hnext
  · rw [not_or] at hgo
    simp [Reg2.resolvedNext, Reg2.desiredTaken, hgo.1, hgo.2]

/-- The CSR file after the instruction in EX is that of the sequential machine. -/
theorem csrAfterEx_eq_settled (hint : interruptTaken P s i = true) :
    csrAfterEx P s i = s.csr.nextWith (s.reg2.csrPort (settledOperands v s) s.csr)
      (Csr.newVal (s.reg2.ctx.funct3.extractLsb' 0 2)
        (s.csr.rdata s.counters (pending s) s.reg2.csrAddr)
        (s.reg2.csrWdata (settledOperands v s))) := by
  have hhold := reg2Hold_of_interruptTaken hint
  obtain ⟨-, hother, -⟩ := interruptTaken_spec hint
  simp only [otherRedirectTaken, exceptionTaken, Bool.or_eq_false_iff] at hother
  obtain ⟨⟨⟨-, hexc⟩, hm⟩, hsr⟩ := hother
  have htrap : s.reg2.exceptionTaken s.csr.privMode false = false := by
    simp only [Reg2.exceptionTaken, Bool.or_eq_false_iff] at hexc
    simp [Reg2.exceptionTaken, hexc.1]
  apply Csr.nextWith_agree
  refine
    { write := by simp [csrIn, hhold, Reg2.csrPort]
      addr := rfl
      value := fun hw ↦ ?_
      trap := htrap.symm
      trapPc := fun ht ↦ Bool.noConfusion ht
      cause := fun ht ↦ Bool.noConfusion ht
      isInterrupt := fun ht ↦ Bool.noConfusion ht
      trapValue := fun ht ↦ Bool.noConfusion ht
      mret := by simp [csrIn, hhold, Reg2.csrPort, mretReal]
      sret := by simp [csrIn, hhold, Reg2.csrPort, sretReal]
      flagsWe := by simp [csrIn, fpFlagsWe, hhold, Reg2.csrPort]
      flagsIn := fun hw ↦ ?_ }
  · have hc : s.reg2.ctl.isCsr = true := by
      simp only [csrIn, Bool.and_eq_true] at hw
      exact hw.1.1
    have hacc : (s.reg2.ctl.memRead || s.reg2.ctl.memWrite) = false := by
      have hctl : ∀ c ∈ ({} :: controlValues : List Control), c.isCsr = true →
          (c.memRead || c.memWrite) = false := by
        decide
      exact hctl _ hdec.ctl_mem hc
    have ha := congrArg Operands.a
      (mask_eq_of_no_access hwait h hval (Reg2.singleCycle_of_isCsr hdec hc) hacc)
    change (operands P s).a = (settledOperands v s).a at ha
    simp only [csrIn, Reg2.csrWdata, ha]
  · have hfp : (s.reg2.isOpFp || s.reg2.isFma) = true := by
      simp only [csrIn, fpFlagsWe, Bool.and_eq_true] at hw
      exact hw.1
    have hacc : (s.reg2.ctl.memRead || s.reg2.ctl.memWrite) = false := by
      rcases hdec.ctl_float hfp with hc | hc | hc <;> simp [hc]
    simp only [reg2Hold, reg2HoldOf, Bool.or_eq_false_iff] at hhold
    have hres := h.units.fpResult_eq hdec hval
      (fun hone ↦ mask_eq_of_no_access hwait h hval hone hacc) hfp hhold.1.1.2
    simp [csrIn, Reg2.csrPort, hres]

/-- What goes on to MEM is the sequential machine's register write and access. -/
theorem settled_of_retire (hhold : reg2Hold P s i = false) (hreg3 : (step P s i).reg3 = exRecord P s)
    (hans : v = memAnswer P s) (m : Ram w) (u : BitVec w) :
    settledX u (step P s i) = (settledX v s).write s.reg2.ctl.regWrite s.reg2.writeToReg
        (s.reg2.written (settledOperands v s) s.csr (surroundings s u)) ∧
      settledF u (step P s i) = (settledF v s).fwrite s.reg2.ctl.fRegWrite s.reg2.writeToReg
        (s.reg2.written (settledOperands v s) s.csr (surroundings s u)) ∧
      (drained P (step P s i) m u).mem = afterAccess P m u s.reg2.ctl.memWrite s.reg2.ctl.isAmo
        (s.reg2.outcome (settledOperands v s) s.csr (surroundings s u))
        (s.reg2.storeData (settledOperands v s)) s.reg2.ctx.funct3 s.reg2.ctx.funct7 := by
  subst hans
  have hmem := memHold_eq_false_of_reg2Hold hhold
  have hres := exResult_eq_outcome hdec hwait h hval hhold u
  have hvalue : answeredValue u (step P s i) =
      s.reg2.written (settledOperands (memAnswer P s) s) s.csr (surroundings s u) := by
    simp only [answeredValue, hreg3, exRecord, Reg2.written, hres]
    rfl
  obtain ⟨hx, hf⟩ := settled_of_leave (i := i) hmem u
  refine ⟨by rw [hx, hvalue, hreg3]; rfl, by rw [hf, hvalue, hreg3]; rfl, ?_⟩
  simp only [drained, hreg3, exRecord, hres, afterAccess]
  cases hamo : s.reg2.ctl.isAmo with
  | true => rw [dtlbStoreData_eq hdec h hval (.inr hamo)]
  | false =>
    cases hw : s.reg2.ctl.memWrite with
    | true => rw [dtlbStoreData_eq hdec h hval (.inl hw)]
    | false => rfl

end Ex

/-! ## An empty EX -/

/-- An empty EX with the bits of a float instruction raises no flag that is not set. -/
def BubbleQuiet (P : Params) (s : State w k) : Prop :=
  s.reg2.valid = false → (s.reg2.isOpFp || s.reg2.isFma) = true →
    s.csr.fflags ||| (fpResult P s).flags = s.csr.fflags

instance : Decidable (BubbleQuiet P s) := inferInstanceAs (Decidable (_ → _ → _))

theorem settledX_zero (h0 : s.regs 0 = 0) (v : BitVec w) : settledX v s 0 = 0 := by
  unfold settledX RegFile.write
  split_ifs with h1 h2 h3 h4
  · rfl
  · simp only [Bool.and_eq_true, beq_iff_eq] at h1
    exact absurd h1.2.symm h2
  · rfl
  · simp only [Bool.and_eq_true, beq_iff_eq] at h3
    exact absurd h3.2.symm h4
  · exact h0

section Bubble

variable (hdec : s.reg2.Decoded) (hbub : BubbleInv s) (hval : s.reg2.valid = false)

include hdec hbub hval

/-- An empty EX writes no CSR. -/
theorem csrAfterEx_of_empty (hquiet : BubbleQuiet P s) : csrAfterEx P s i = s.csr := by
  have hctl := (bubble_cases hdec hbub hval).1
  obtain ⟨hm, hsr⟩ := mretReal_of_bubble hdec hbub hval
  have hc : s.reg2.ctl.isCsr = false := by rcases hctl with hc | hc <;> simp [hc]
  cases hwe : fpFlagsWe P s i with
  | false => exact Csr.next_idle (by simp [csrIn, hc]) rfl (by simp [csrIn, hm]) (by simp [csrIn, hsr]) hwe
  | true =>
    have hfp : (s.reg2.isOpFp || s.reg2.isFma) = true := by
      simp only [fpFlagsWe, Bool.and_eq_true] at hwe
      exact hwe.1
    have hnext := Csr.nextWith_flags (c := s.csr)
      (q := { csrIn P s i with trapTaken := false, trapIsInterrupt := false })
      (v := Csr.newVal (csrIn P s i).csrOp (csrOldVal s) (csrIn P s i).csrWdata)
      (by simp [csrIn, hc]) rfl (by simp [csrIn, hm]) (by simp [csrIn, hsr]) hwe
    change s.csr.nextWith _ _ = s.csr
    refine hnext.trans ?_
    simp only [csrIn, hquiet hval hfp]

/-- An empty EX hands nothing on. -/
theorem settled_of_empty (hwait : WaitInv P s) (hmem : memHold P s = false) (m : Ram w)
    (u : BitVec w) :
    settledX u (step P s i) = settledX (memAnswer P s) s ∧
      settledF u (step P s i) = settledF (memAnswer P s) s ∧
      (drained P (step P s i) m u).mem = m := by
  have hsilent := reg3Next_silent_of_bubble (P := P) (i := i) hdec hbub hval
  have h3 := step_reg3_of_move (i := i) hmem
  obtain ⟨hx, hf⟩ := settled_of_leave (i := i) hmem u
  rw [hx, hf, h3]
  refine ⟨RegFile.write_silent (settledX_zero hwait.x0 _) hsilent.x, ?_, ?_⟩
  · rw [hsilent.f]
    rfl
  · simp [drained, afterAccess, h3, hsilent.write, hsilent.amo]

end Bubble

/-! ## The cycle of the interrupt -/

/-- A store that leaves MEM has been written. -/
theorem step_dataMemory_of_leave (hmode : P.cacheMode = .none) (hbusy : s.ptw.busy = false)
    (hacc : s.reg3.OneAccess) (hmem : memHold P s = false) :
    (step P s i).ram.dataMemory = drainM P s := by
  simp only [memHold, amoStall, amoActive, Bool.or_eq_false_iff] at hmem
  have hbus : busReq P s = lsuReq s := by simp [busReq, hmode, hbusy]
  have hhit : ramHit P s = wbHit 0 P.memSizeBytes s.reg3.aluOut := by simp [ramHit, hbus, lsuReq]
  change (if RamPort.memWrite (ramReq P s) then _ else _) = _
  unfold drainM storeTo RamPort.memWrite ramReq BusReq.select
  rw [hhit, hbus]
  cases hamo : s.reg3.isAmo with
  | true =>
    -- the sequencer has done both halves
    have hdone : s.amo.writeDone = true := by simpa [hamo] using hmem.2
    have hw : s.reg3.memWrite = false := by
      by_contra hne
      rw [(hacc.write (by simpa using hne)).2] at hamo
      exact Bool.noConfusion hamo
    simp [lsuReq, lsuCyc, effMemRead, effMemWrite, amoActive, hamo, hdone, hw]
  | false =>
    cases hw : s.reg3.memWrite with
    | false => simp [lsuReq, effMemWrite, amoActive, hamo, hw]
    | true =>
      cases hh : wbHit 0 P.memSizeBytes s.reg3.aluOut <;>
        simp [lsuReq, lsuCyc, effMemWrite, amoActive, hamo, hw]

/-- The condition on a cycle: program order and the operands are kept, and an interrupt taken in
it is clear and finds no flags of an instruction that is not there. -/
structure InterruptSafe (P : Params) (s : State w k) (i : Inputs) : Prop where
  orderly : Orderly P s i
  kept : OperandsKept P s i
  clear : interruptTaken P s i = true → InterruptClear P s i ∧ BubbleQuiet P s

/-- What the instruction in EX does, if there is one, and where it leaves the program. -/
theorem afterEx_spec (hreach : Reachable P s) (hwait : WaitInv P s)
    (hset : ∀ v, OperandsSettled P s v) (hord : InOrder P s e) (hquiet : BubbleQuiet P s)
    (hint : interruptTaken P s i = true) (m : Ram w) (v : BitVec w) :
    settledX v (step P s i) = (afterEx P s e m v).regs ∧
      settledF v (step P s i) = (afterEx P s e m v).fregs ∧
      (drained P (step P s i) m v).mem = (afterEx P s e m v).mem ∧
      csrAfterEx P s i = (afterEx P s e m v).csr ∧
      resumePc P s e = (afterEx P s e m v).pc := by
  have hdec := reg2_decoded hreach
  have hhold := reg2Hold_of_interruptTaken hint
  obtain ⟨-, hother, -⟩ := interruptTaken_spec hint
  simp only [otherRedirectTaken, Bool.or_eq_false_iff] at hother
  obtain ⟨⟨⟨-, hexc⟩, hm⟩, hsr⟩ := hother
  unfold afterEx resumePc
  cases hval : s.reg2.valid with
  | false =>
    obtain ⟨hx, hf, hmem⟩ := settled_of_empty (i := i) hdec (bubbleInv hreach) hval hwait
      (memHold_eq_false_of_reg2Hold hhold) m v
    exact ⟨hx, hf, hmem, csrAfterEx_of_empty hdec (bubbleInv hreach) hval hquiet, rfl⟩
  | true =>
    have hexc' := hexc
    simp only [exceptionTaken, Reg2.exceptionTaken, Bool.or_eq_false_iff] at hexc'
    have htrap : s.reg2.exceptionTaken s.csr.privMode false = false := by
      simp [Reg2.exceptionTaken, hexc'.1]
    have hstrip := Reg2.strip_eq_issueWord hdec hval hexc'.1.2
    rw [hord.ex hval] at hstrip
    rw [← hstrip]
    obtain ⟨hx, hf, hmem⟩ := settled_of_retire hdec hwait (hset _) hval hhold
      (step_reg3_of_retire hhold hexc) rfl m v
    refine ⟨hx, hf, hmem, csrAfterEx_eq_settled hdec hwait (hset _) hval hint, ?_⟩
    have hpc : s.reg2.pcAfter (settledOperands (memAnswer P s) s) s.csr =
        s.reg2.resolvedNext (settledOperands (memAnswer P s) s) := by
      simp only [mretReal, sretReal] at hm hsr
      simp [Reg2.pcAfter, htrap, hm, hsr]
    exact (resolvedNext_eq_settled hdec hwait (hset _) hval).trans hpc.symm

/-- Opens `mie.MTIE` and `mstatus.MIE` with the timer pending, then stores the old `mstatus`. -/
def timerParams : Params :=
  { insts := instsOfWords
      [0x08000093,  -- addi   x1, x0, 0x80
       0x30409073,  -- csrrw  x0, mie, x1
       0x300462f3,  -- csrrsi x5, mstatus, 8
       0x00502023,  -- sw     x5, 0(x0)
       0x00000013] }

end RvPipeline
