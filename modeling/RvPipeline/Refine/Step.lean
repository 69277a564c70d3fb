import RvPipeline.Refine.Front

/-!
# One cycle against the sequential machine

In every cycle the sequential machine executes the instruction that leaves EX, if there is
one, and takes the interrupt, if one is taken.  `Sim` is kept, and so is the log: what has been
written back, followed by what is in MEM and WB, is what the sequential machine has done.
-/

namespace RvPipeline

variable {w k : ℕ} {P : Params} {s : State w k} {a : Arch w} {i : Inputs}

/-! ## What a cycle does -/

/-- The instruction reads the interrupt lines, through `mip` or `sip`. -/
def Reg2.readsLines (r : Reg2 w) : Bool :=
  r.ctl.isCsr && (r.csrAddr == csrAddrMip || r.csrAddr == csrAddrSip)

/-- The interrupt lines at reset: the timer compares at zero. -/
def resetLines : Pending := { msip := false, timer := true, ext := false }

/-- The lines the instruction in EX reads, if it does. -/
def lines (s : State w k) : Pending := if s.reg2.readsLines then pending s else resetLines

/-- An instruction leaves EX. -/
def executes (P : Params) (s : State w k) (i : Inputs) : Bool :=
  s.reg2.valid && !reg2Hold P s i

def cycleActions (P : Params) (s : State w k) (i : Inputs) : List (Action w) :=
  (if executes P s i then [.exec (lines s)] else []) ++
    (if interruptTaken P s i then [.interrupt (interruptCause s)] else [])

/-- What the cycle adds to the log: the register write of the instruction leaving WB, the store
leaving MEM, and what retires or is interrupted in EX. -/
def cycleLog (P : Params) (s : State w k) (i : Inputs) : Log w :=
  { x := if memHold P s then [] else xEntry s.reg4.regWrite s.reg4.writeToReg (writeDataWb s)
    f := if memHold P s then [] else fEntry s.reg4.fRegWrite s.reg4.writeToReg (writeDataWb s)
    m :=
      if memHold P s then []
      else mEntry s.reg3.memWrite s.reg3.aluOut s.reg3.readData2 s.reg3.funct3
    c :=
      (if executes P s i then
        [.instr s.reg2.ctx.pc
          (if interruptTaken P s i then csrAfterEx P s i else (step P s i).csr)]
        else []) ++
        (if interruptTaken P s i then [.interrupt (interruptMepc s) (step P s i).csr] else []) }

/-- What the instructions in WB and MEM will still add. -/
def inFlight (s : State w k) : Log w :=
  { x := xEntry s.reg4.regWrite s.reg4.writeToReg (writeDataWb s) ++
      xEntry s.reg3.regWrite s.reg3.writeToReg (value3 s)
    f := fEntry s.reg4.fRegWrite s.reg4.writeToReg (writeDataWb s) ++
      fEntry s.reg3.fRegWrite s.reg3.writeToReg (value3 s)
    m := mEntry s.reg3.memWrite s.reg3.aluOut s.reg3.readData2 s.reg3.funct3
    c := [] }

/-- The sequential machine after the cycle. -/
def cycleArch (P : Params) (s : State w k) (i : Inputs) (a : Arch w) : Arch w :=
  a.runActions P (cycleActions P s i)

/-! ## The lines an instruction does not read -/

theorem archRdata_lines {c : Csr w} {addr : BitVec 12} (p p' : Pending)
    (h : (addr == csrAddrMip || addr == csrAddrSip) = false) :
    c.archRdata p addr = c.archRdata p' addr := by
  simp only [Bool.or_eq_false_iff, beq_eq_false_iff_ne] at h
  simp [Csr.archRdata, h]

/-- Unless the instruction reads them, the lines make no difference. -/
theorem Arch.exec_lines {p p' : Pending} (h : (a.issued P).readsLines = false) :
    a.exec P p = a.exec P p' ∧ a.result P p = a.result P p' := by
  have hval : (a.issued P).value (a.operands P) a.csr p =
      (a.issued P).value (a.operands P) a.csr p' := by
    unfold Reg2.value
    cases hc : (a.issued P).ctl.isCsr with
    | false => simp
    | true => rw [archRdata_lines p p' (by simpa [Reg2.readsLines, hc] using h)]
  have hres : a.result P p = a.result P p' := by simp only [Arch.result, hval]
  refine ⟨?_, hres⟩
  have hcsr : (a.issued P).csrAfter (a.operands P) a.csr p =
      (a.issued P).csrAfter (a.operands P) a.csr p' := by
    unfold Reg2.csrAfter
    apply Csr.nextWith_agree
    refine ⟨rfl, rfl, ?_, rfl, fun _ ↦ rfl, fun _ ↦ rfl, fun _ ↦ rfl, fun _ ↦ rfl, rfl, rfl, rfl,
      fun _ ↦ rfl⟩
    intro hw
    have hc : (a.issued P).ctl.isCsr = true := by
      simp only [Reg2.csrPort, Bool.and_eq_true] at hw
      exact hw.1
    rw [archRdata_lines p p' (by simpa [Reg2.readsLines, hc] using h)]
  simp only [Arch.exec, hres, hcsr]

theorem Sim.exec_pending (h : Sim P s a) (hval : s.reg2.valid = true) :
    a.exec P (lines s) = a.exec P (pending s) ∧
      a.result P (lines s) = a.result P (pending s) := by
  unfold lines
  cases hl : s.reg2.readsLines with
  | true => simp
  | false =>
    apply Arch.exec_lines
    rw [← h.ex hval]
    exact hl

/-! ## MEM and WB -/

section Drain

variable (hmode : P.cacheMode = .none) (hreach : Reachable P s) (h : Sim P s a)

theorem Arch.exec_x0 {p : Pending} (h0 : a.regs 0 = 0) : (a.exec P p).regs 0 = 0 := by
  change (a.regs.write _ _ _) 0 = 0
  unfold RegFile.write
  split_ifs with hr hd
  · rfl
  · simp only [Bool.and_eq_true, beq_iff_eq] at hr
    exact absurd hr.2.symm hd
  · exact h0

include hmode hreach h

/-- A load leaves MEM with its value. -/
theorem Sim.load_of_leave (hmem : memHold P s = false) (hr : s.reg3.memtoReg = true) :
    readData P s = loadValue s := by
  rw [reg3_memtoReg hreach] at hr
  exact (h.load (memStallDone_of_load_leaves hmode hr hmem)).2

theorem Sim.drain_of_silent (hmem : memHold P s = false) (hs : (step P s i).reg3.Silent) :
    drainX (step P s i) = a.regs ∧ drainF (step P s i) = a.fregs ∧
      drainM P (step P s i) = a.mem := by
  have hload := h.load_of_leave hmode hreach hmem
  refine ⟨?_, ?_, ?_⟩
  · rw [drainX_of_move hmode h.amo hmem hload, h.regs]
    exact RegFile.write_silent h.x0 hs.x
  · rw [drainF_of_move hmode h.amo hmem hload, h.fregs, hs.f]
    rfl
  · rw [drainM, hs.write, if_neg Bool.false_ne_true, step_dataMemory hmode h.idle h.amo.1, h.mem]

theorem Sim.drain_of_memHold (hmem : memHold P s = true) :
    drainX (step P s i) = a.regs ∧ drainF (step P s i) = a.fregs ∧
      drainM P (step P s i) = a.mem := by
  have hacc := reg3_oneAccess hreach
  have hreg3 := reg3_memtoReg hreach
  refine ⟨?_, ?_, ?_⟩
  · rw [drainX_of_memHold hmode h.idle hacc h.amo hmem hreg3, h.regs]
  · rw [drainF_of_memHold hmode h.idle hacc h.amo hmem hreg3, h.fregs]
  · rw [drainM_of_memHold hmode h.idle h.amo hmem, h.mem]

theorem Sim.drain_of_commit (hsafe : Safe P s i) (hval : s.reg2.valid = true)
    (hhold : reg2Hold P s i = false) :
    drainX (step P s i) = (a.exec P (pending s)).regs ∧
      drainF (step P s i) = (a.exec P (pending s)).fregs ∧
      drainM P (step P s i) = (a.exec P (pending s)).mem := by
  have hmem := memHold_eq_false_of_reg2Hold hhold
  have hdec := reg2_decoded hreach
  have hload := h.load_of_leave hmode hreach hmem
  cases ht : a.traps P with
  | true =>
    have hs := h.step_silent_of_trap hval hsafe hhold ht
    obtain ⟨hx, hf, hm⟩ := h.drain_of_silent hmode hreach hmem hs
    simp only [hx, hf, hm, Arch.exec, Arch.writesX, Arch.writesF, Arch.stores, ht]
    exact ⟨rfl, rfl, rfl⟩
  | false =>
    obtain ⟨hx, hf, -, hrd, -, -, -⟩ := h.ctl_of_commit hsafe hval hhold ht
    have hv := h.value3_of_commit hmode hdec hsafe hval hhold ht
    refine ⟨?_, ?_, h.drainM_of_commit hmode hdec hsafe hval hhold ht⟩
    · rw [drainX_of_move hmode h.amo hmem hload, h.regs, hx, hrd, hv]
      rfl
    · rw [drainF_of_move hmode h.amo hmem hload, h.fregs, hf, hrd, hv]
      rfl

end Drain

/-! ## Loads -/

theorem ram_of_ramOnly (hram : ramOnly P (busReq P s).addr = true) :
    lsuAck P s = ramAck P s ∧ readData P s = ramData P s := by
  simp only [ramOnly, Bool.and_eq_true, Bool.not_eq_true'] at hram
  simp [lsuAck, readData, wbSelect, ramHit, uartHit, timerHit, hram]

/-- Once a load is acknowledged, its word is on the data wire. -/
theorem Sim.load_step (hmode : P.cacheMode = .none) (hreach : Reachable P s) (h : Sim P s a)
    (hsafe : Safe P s i) (hdone : (step P s i).memStallDone = true) :
    (step P s i).reg3.memRead = true ∧ readData P (step P s i) = loadValue (step P s i) := by
  obtain ⟨hr, -, hreg3⟩ := load_of_step_memStallDone hmode hdone
  have hstall : memStall P s = true ∧ lsuAck P s = true := by
    simpa [step, memAccessReady, hmode] using hdone
  have hopen : s.memStallDone = false := by
    have := hstall.1
    simp only [memStall, Bool.and_eq_true, Bool.not_eq_true'] at this
    exact this.2
  have hw := ((reg3_oneAccess hreach).read hr).1
  have hidle' : WalkerIdle (step P s i) := h.idle.step hsafe.bare
  have hbus := busReq_plain hmode h.idle h.amo.1
  have hbus' := busReq_plain hmode hidle' (h.amo_step hsafe).1
  have hram := hsafe.load hr
  have hown : busReq P s = ownRequest s := by rw [hbus]; simp [ownRequest, memOp, hr]
  have hmem := step_ram_of_read (i := i) hown hw hram
  have hsame : loadValue (step P s i) = loadValue s := by simp [loadValue, hreg3, hmem]
  refine ⟨by rw [hreg3, hr], ?_⟩
  have hdata := (ram_of_ramOnly (P := P) (s := step P s i) (by rw [hbus', hreg3]; exact hram)).2
  have hack := (ram_of_ramOnly (P := P) (s := s) (by rw [hbus]; exact hram)).1
  rw [hdata, hsame]
  by_cases hlat : P.memLatencyD = 0
  · rw [ramData, if_pos hlat, hmem]
    simp [RamPort.readData, loadValue]
  · -- the acknowledge is not one of another request, so the captured word is the load's own
    have hmodel : s.dmem.model.done = true := by
      rw [hack, ramAck, if_neg hlat] at hstall
      exact hstall.2
    rw [ramData, if_neg hlat]
    have hcond := h.waiting hlat hr hopen
    unfold Recognised at hcond
    change (if !dmemNewRequest P s && (ramAckRaw P s && !s.dmem.capturedThisReq) then
      s.ram.readData else s.dmem.capturedData) = loadValue s
    split_ifs at hcond with hnew hcap
    · rw [hmodel] at hcond
      exact Bool.noConfusion hcond
    · simpa [hcap] using hcond
    · simpa [hnew, hcap, hcond.1] using hcond.2

/-- A load that waits for the latency wrapper stays recognised. -/
theorem Sim.waiting_step (hmode : P.cacheMode = .none) (hreach : Reachable P s) (h : Sim P s a)
    (hsafe : Safe P s i) (hlat : P.memLatencyD ≠ 0) (hr : (step P s i).reg3.memRead = true)
    (hopen : (step P s i).memStallDone = false) : Recognised P (step P s i) := by
  cases hmem : memHold P s with
  | false => exact hsafe.latency hlat hmem hr
  | true =>
    have hreg3 := step_reg3_of_memHold (i := i) hmem
    rw [hreg3] at hr
    have hstall : memStall P s = true := by
      simpa [memHold, amoStall, amoActive, h.amo.1] using hmem
    have hopen' : s.memStallDone = false := by
      have := hstall
      simp only [memStall, Bool.and_eq_true, Bool.not_eq_true'] at this
      exact this.2
    have hw := ((reg3_oneAccess hreach).read hr).1
    have hram := hsafe.load hr
    have hbus := busReq_plain hmode h.idle h.amo.1
    have hbus' := busReq_plain hmode (h.idle.step hsafe.bare) (h.amo_step hsafe).1
    have hown : busReq P s = ownRequest s := by rw [hbus]; simp [ownRequest, memOp, hr]
    have hmem' := step_ram_of_read (i := i) hown hw hram
    have hsame : loadValue (step P s i) = loadValue s := by simp [loadValue, hreg3, hmem']
    -- not acknowledged, so the wrapper is still at it
    have hdone : s.dmem.model.done = false := by
      have hack := (ram_of_ramOnly (P := P) (s := s) (by rw [hbus]; exact hram)).1
      rw [ramAck, if_neg hlat] at hack
      rw [← hack]
      simpa [step, hstall, memAccessReady, hmode] using hopen
    have hhit : wbHit 0 P.memSizeBytes s.reg3.aluOut = true := by
      simp only [ramOnly, Bool.and_eq_true] at hram
      exact hram.1.1
    have hreq : ramReq P s = { ownRequest s with we := false } := by
      simp [ramReq, ramHit, hown, ownRequest, BusReq.select, hhit, hw]
    have hreq' : ramReq P (step P s i) = { ownRequest s with we := false } := by
      simp [ramReq, ramHit, hbus', ownRequest, BusReq.select, hreg3, hhit, hw, memOp, hr]
    have hack' : ramAckRaw P (step P s i) = true ∧
        (step P s i).ram.readData = loadValue (step P s i) := by
      rw [hsame]
      simp [ramAckRaw, RamPort.ack, RamPort.readData, hmem', loadValue]
    have hdm : (step P s i).dmem = dmemNext P s := rfl
    have hold : dmemNewRequest P (step P s i) = false := by
      unfold dmemNewRequest
      rw [hreq', hdm]
      unfold dmemNext
      cases hnew : dmemNewRequest P s with
      | true => simp [hreq, ownRequest]
      | false =>
        simp only [dmemNewRequest, hreq] at hnew
        simpa [hdone] using hnew
    have hwait := h.waiting hlat hr hopen'
    unfold Recognised at hwait ⊢
    rw [hold, if_neg Bool.false_ne_true, hdm]
    unfold dmemNext
    cases hnew : dmemNewRequest P s with
    | true => simpa [hnew] using hack'
    | false =>
      rw [hnew, if_neg Bool.false_ne_true] at hwait
      cases hcap : s.dmem.capturedThisReq with
      | true =>
        rw [hcap, if_pos rfl] at hwait
        simpa [hcap, hsame] using hwait
      | false =>
        rw [hcap, if_neg Bool.false_ne_true] at hwait
        simpa [hcap, hwait.1, hsame] using hwait.2

/-! ## The CSR file -/

theorem Reg2.fpValue_congr {r r' : Reg2 w} (hr : r.Fields) (hr' : r'.Fields)
    (hinst : r.inst = r'.inst) (o : Operands w) (frm : BitVec 3) :
    r.fpValue o frm = r'.fpValue o frm := by
  have h7 : r.ctx.funct7 = r'.ctx.funct7 := by rw [hr.funct7, hr'.funct7, hinst]
  have h3 : r.ctx.funct3 = r'.ctx.funct3 := by rw [hr.funct3, hr'.funct3, hinst]
  have h2 : r.ctx.readReg2 = r'.ctx.readReg2 := by rw [hr.readReg2, hr'.readReg2, hinst]
  have hop : r.opcode = r'.opcode := congrArg opcodeOf hinst
  have hrm : r.fpuRm frm = r'.fpuRm frm := by rw [Reg2.fpuRm, Reg2.fpuRm, h3]
  have h5 : r.funct5 = r'.funct5 := congrArg (BitVec.extractLsb' 2 5) h7
  have hfp : r.isOpFp = r'.isOpFp := by rw [Reg2.isOpFp, Reg2.isOpFp, hop]
  have hfma : r.isFma = r'.isFma := by rw [Reg2.isFma, Reg2.isFma, hop]
  have hdiv : r.isFpDiv = r'.isFpDiv := by rw [Reg2.isFpDiv, Reg2.isFpDiv, hfp, h5]
  have hsqrt : r.isFpSqrt = r'.isFpSqrt := by rw [Reg2.isFpSqrt, Reg2.isFpSqrt, hfp, h5]
  have hrs1 : r.rs1IsFloat = r'.rs1IsFloat := by rw [Reg2.rs1IsFloat, Reg2.rs1IsFloat, hfp, h5]
  have ha : r.fpuOperandA o = r'.fpuOperandA o := by
    rw [Reg2.fpuOperandA, Reg2.fpuOperandA, hrs1, hfma]
  rw [Reg2.fpValue, Reg2.fpValue, Reg2.fpResult, Reg2.fpResult, Reg2.fmaddResult,
    Reg2.fmaddResult, Reg2.faluResult, Reg2.faluResult, Reg2.fmaOp, Reg2.fmaOp, hop, hrm, h5,
    hfma, hdiv, hsqrt, ha, h2]

section Bubble

variable (hreach : Reachable P s) (h : Sim P s a) (hsafe : Safe P s i)
  (hval : s.reg2.valid = false)

include hreach h hsafe hval

/-- The word in ID behind an empty EX is the next instruction. -/
theorem Sim.inst_of_bubble (hid : s.idBubble = false) : s.reg1.inst = instAt P a.pc := by
  rw [(h.id hid).1, ((h.front hsafe hreach hval).extend_of_full hid).2]

/-- The flags of a float instruction behind its own bubble. -/
theorem Sim.flags_of_bubble (hf : (s.reg2.isOpFp || s.reg2.isFma) = true) :
    (s.reg2.fpValue (drainOperands s) s.csr.frm).flags = a.flags P := by
  obtain ⟨hid, hinst⟩ := h.bubble hval (by simp [hf])
  have hword : s.reg2.inst = (a.issued P).inst :=
    hinst.trans (h.inst_of_bubble hreach hsafe hval hid)
  have hops : drainOperands s = a.operands P := by
    rw [drainOperands, h.regs, h.fregs, hword]
    rfl
  have hf' : ((a.issued P).isOpFp || (a.issued P).isFma) = true := by
    simpa only [Reg2.isOpFp, Reg2.isFma, Reg2.opcode, hword] using hf
  rw [Arch.flags, if_pos hf', hops, h.csr_fields.1,
    Reg2.fpValue_congr (reg2_decoded hreach).fields Arch.issued_decoded.fields hword]

/-- What a bubble does to the CSR file. -/
theorem Sim.step_csr_of_bubble (hint : interruptTaken P s i = false)
    (hhold : reg2Hold P s i = false) :
    (step P s i).csr = if s.reg2.isOpFp || s.reg2.isFma then
      { s.csr with fflags := s.csr.fflags ||| (fpResult P s).flags } else s.csr := by
  have hdec := reg2_decoded hreach
  have hbub := bubbleInv hreach
  obtain ⟨hm, hs⟩ := mretReal_of_bubble hdec hbub hval
  have hexc : exceptionTaken P s = false := by
    have := h.not_redirect_of_bubble hreach hsafe hval
    simp only [otherRedirectTaken, Bool.or_eq_false_iff] at this
    exact this.1.1.2
  have hcsr : s.reg2.ctl.isCsr = false := by
    rcases (bubble_cases hdec hbub hval).1 with hc | hc <;> rw [hc]
  change s.csr.next s.counters (pending s) (csrIn P s i) = _
  cases hf : s.reg2.isOpFp || s.reg2.isFma with
  | true =>
    rw [Csr.next, Csr.nextWith_flags (by simp [csrIn, hcsr]) (by simp [csrIn, hexc, hint])
      (by simp [csrIn, hm]) (by simp [csrIn, hs]) (by simp [csrIn, fpFlagsWe, hf, hhold])]
    rfl
  | false =>
    exact Csr.next_idle (by simp [csrIn, hcsr]) (by simp [csrIn, hexc, hint])
      (by simp [csrIn, hm]) (by simp [csrIn, hs]) (by simp [csrIn, fpFlagsWe, hf])

/-- An interrupt over an empty EX finds the CSR files equal. -/
theorem Sim.csrAfterEx_of_bubble (hint : interruptTaken P s i = true) :
    csrAfterEx P s i = a.csr := by
  have hdec := reg2_decoded hreach
  have hbub := bubbleInv hreach
  obtain ⟨hm, hs⟩ := mretReal_of_bubble hdec hbub hval
  have hcsr : s.reg2.ctl.isCsr = false := by
    rcases (bubble_cases hdec hbub hval).1 with hc | hc <;> rw [hc]
  have hnot := (hsafe.interrupt hint).2 hval
  have hf : (s.reg2.isOpFp || s.reg2.isFma) = false := by
    by_contra hne
    have hf := Bool.eq_true_of_not_eq_false hne
    obtain ⟨hid, hinst⟩ := h.bubble hval (by rw [hf]; rfl)
    have hno := hnot hid
    rw [← hinst] at hno
    exact Bool.noConfusion (hno.symm.trans hf)
  have hsame : s.csr = a.csr := by
    cases hid : s.idBubble with
    | true =>
      obtain ⟨early, heq, -, hzero⟩ := h.csr
      simpa [hzero hval hid] using heq
    | false =>
      apply h.csr_eq
      have hno := hnot hid
      rw [h.inst_of_bubble hreach hsafe hval hid] at hno
      have hno' : ((a.issued P).isOpFp || (a.issued P).isFma) = false := hno
      simp [Arch.flags, hno']
  rw [← hsame]
  exact Csr.next_idle (by simp [csrIn, hcsr]) rfl (by simp [csrIn, hm]) (by simp [csrIn, hs])
    (by simp [csrIn, fpFlagsWe, hf])

end Bubble

/-! ## The sequential machine after the cycle -/

/-- The sequential machine after the instruction that leaves EX, before any interrupt. -/
def midArch (P : Params) (s : State w k) (i : Inputs) (a : Arch w) : Arch w :=
  if executes P s i then a.exec P (lines s) else a

theorem cycleArch_eq : cycleArch P s i a =
    if interruptTaken P s i then (midArch P s i a).interrupt (interruptCause s)
    else midArch P s i a := by
  unfold cycleArch cycleActions midArch Arch.runActions
  split_ifs <;> rfl

theorem executes_of_hold (hhold : reg2Hold P s i = true) : executes P s i = false := by
  simp [executes, hhold]

theorem executes_of_bubble (hval : s.reg2.valid = false) : executes P s i = false := by
  simp [executes, hval]

theorem executes_of_commit (hval : s.reg2.valid = true) (hhold : reg2Hold P s i = false) :
    executes P s i = true := by
  simp [executes, hval, hhold]

theorem cycleArch_of_hold (hhold : reg2Hold P s i = true) : cycleArch P s i a = a := by
  rw [cycleArch_eq, interruptTaken_of_hold hhold, midArch, executes_of_hold hhold]
  rfl

/-- Flags raised ahead that are among those already set or due. -/
theorem or_early {n : ℕ} {c e r f : BitVec n} (he : e ||| f = f)
    (hr : r ||| (c ||| e ||| f) = c ||| e ||| f) :
    c ||| e ||| r = c ||| (e ||| r &&& f) ∧ e ||| r &&& f ||| f = f := by
  have hbit : ∀ j, (e.getLsbD j = true → f.getLsbD j = true) ∧
      (r.getLsbD j = true → c.getLsbD j = true ∨ e.getLsbD j = true ∨ f.getLsbD j = true) := by
    intro j
    have he' := congrArg (fun v ↦ v.getLsbD j) he
    have hr' := congrArg (fun v ↦ v.getLsbD j) hr
    simp only [BitVec.getLsbD_or] at he' hr'
    cases hc : c.getLsbD j <;> cases h1 : e.getLsbD j <;> cases h2 : r.getLsbD j <;>
      cases h3 : f.getLsbD j <;> simp_all
  constructor <;> apply BitVec.eq_of_getLsbD_eq <;> intro j _ <;> obtain ⟨h1, h2⟩ := hbit j <;>
    simp only [BitVec.getLsbD_or, BitVec.getLsbD_and] <;>
    cases hc : c.getLsbD j <;> cases he : e.getLsbD j <;> cases hr : r.getLsbD j <;>
      cases hf : f.getLsbD j <;> simp_all

section Assemble

variable (hmode : P.cacheMode = .none) (hreach : Reachable P s) (h : Sim P s a)
  (hsafe : Safe P s i)

include h

theorem Sim.midArch_eq (hval : s.reg2.valid = true) (hhold : reg2Hold P s i = false) :
    midArch P s i a = a.exec P (pending s) := by
  rw [midArch, executes_of_commit hval hhold, if_pos rfl, (h.exec_pending hval).1]

include hreach hsafe

theorem Sim.csrAfterEx_mid (hint : interruptTaken P s i = true) :
    csrAfterEx P s i = (midArch P s i a).csr := by
  have hhold := reg2Hold_of_interruptTaken hint
  cases hval : s.reg2.valid with
  | true =>
    rw [h.midArch_eq hval hhold]
    exact h.csrAfterEx_eq (reg2_decoded hreach) hsafe hval hint
  | false =>
    rw [midArch, executes_of_bubble hval]
    exact h.csrAfterEx_of_bubble hreach hsafe hval hint

theorem Sim.interruptMepc_mid (hint : interruptTaken P s i = true) :
    interruptMepc s = (midArch P s i a).pc := by
  have hhold := reg2Hold_of_interruptTaken hint
  rw [h.order.interruptMepc_eq (h.orderly hreach hsafe) hint]
  unfold resumePc
  cases hval : s.reg2.valid with
  | false =>
    rw [midArch, executes_of_bubble hval]
    rfl
  | true =>
    obtain ⟨-, hother, -⟩ := interruptTaken_spec hint
    simp only [otherRedirectTaken, Bool.or_eq_false_iff] at hother
    obtain ⟨⟨⟨-, hexc⟩, hm⟩, hs⟩ := hother
    have hpriv := h.csr_fields.2.1
    rw [h.exceptionTaken_eq hsafe, hpriv] at hexc
    rw [RvPipeline.mretReal, hpriv] at hm
    rw [RvPipeline.sretReal, hpriv] at hs
    rw [if_pos rfl, h.midArch_eq hval hhold, h.exec_pc hval, Reg2.pcAfter, hexc, hm, hs]
    exact h.resolvedNext_operands (reg2_decoded hreach) hval

/-- The next instruction in program order is the sequential machine's. -/
theorem Sim.pc_step : programNext P s i a.pc = (cycleArch P s i a).pc := by
  cases hhold : reg2Hold P s i with
  | true =>
    rw [cycleArch_of_hold hhold]
    simp [programNext, hhold]
  | false =>
    rw [cycleArch_eq]
    cases hint : interruptTaken P s i with
    | true =>
      have hclear := (hsafe.interrupt hint).1
      have hvec : programNext P s i a.pc = trapVector P s i := by simp [programNext, hhold, hint]
      have htarget := trapTargetIsS_afterEx hint hclear 0
      rw [hvec, if_pos rfl, ← hclear.vector]
      change _ = (midArch P s i a).csr.interruptVector (interruptCause s)
      rw [← h.csrAfterEx_mid hreach hsafe hint, Csr.interruptVector, htarget]
    | false =>
      cases hval : s.reg2.valid with
      | true =>
        rw [if_neg Bool.false_ne_true, h.midArch_eq hval hhold]
        exact h.programNext_eq (reg2_decoded hreach) hsafe hval hhold hint _
      | false =>
        have hother := h.not_redirect_of_bubble hreach hsafe hval
        simp only [otherRedirectTaken, Bool.or_eq_false_iff] at hother
        rw [if_neg Bool.false_ne_true, midArch, executes_of_bubble hval]
        simp [programNext, hhold, hval, hint, hother]

/-- A bubble may raise flags of the instruction behind it, and no others. -/
theorem Sim.csrAhead_of_bubble (hval : s.reg2.valid = false) (hhold : reg2Hold P s i = false)
    (hint : interruptTaken P s i = false) : CsrAhead P (step P s i) a := by
  have hstep := h.step_csr_of_bubble hreach hsafe hval hint hhold
  obtain ⟨early, hcsr, hsub, hzero⟩ := h.csr
  have hbt : branchTaken P s i = false := by
    simp [branchTaken, h.not_redirect_of_bubble hreach hsafe hval, hint]
  cases hf : s.reg2.isOpFp || s.reg2.isFma with
  | false =>
    rw [hf, if_neg Bool.false_ne_true] at hstep
    refine ⟨early, hstep.trans hcsr, hsub, ?_⟩
    intro _ hid'
    apply hzero hval
    by_contra hne
    have hid : s.idBubble = false := by simpa using hne
    obtain ⟨hext, -⟩ := (h.front hsafe hreach hval).extend_of_full hid
    simp [step, hbt, hext, hid] at hid'
  | true =>
    rw [hf, if_pos rfl] at hstep
    have hflags := hsafe.flags hval hf hhold
    rw [h.flags_of_bubble hreach hsafe hval hf] at hflags
    rw [hcsr] at hflags
    obtain ⟨hor, hdue⟩ := or_early hsub hflags
    refine ⟨early ||| (fpResult P s).flags &&& a.flags P, ?_, hdue, ?_⟩
    · rw [hstep, hcsr]
      simp only [Csr.mk.injEq, true_and, and_true]
      exact hor
    · intro _ hid'
      obtain ⟨hid, -⟩ := h.bubble hval (by simp [hf])
      obtain ⟨hext, -⟩ := (h.front hsafe hreach hval).extend_of_full hid
      simp [step, hbt, hext, hid] at hid'

theorem Sim.csr_step : CsrAhead P (step P s i) (cycleArch P s i a) := by
  cases hhold : reg2Hold P s i with
  | true =>
    rw [cycleArch_of_hold hhold]
    obtain ⟨early, hcsr, hsub, hzero⟩ := h.csr
    refine ⟨early, (step_csr_of_hold hhold).trans hcsr, hsub, ?_⟩
    intro hval hid'
    rw [step_reg2_of_hold hhold] at hval
    apply hzero hval
    by_contra hne
    obtain ⟨hid, -⟩ := h.id_stays hsafe hreach hval (interruptTaken_of_hold hhold)
      (by simpa using hne) (pcStall_of_reg2Hold hhold)
    rw [hid] at hid'
    exact Bool.noConfusion hid'
  | false =>
    rw [cycleArch_eq]
    cases hint : interruptTaken P s i with
    | true =>
      have hclear := (hsafe.interrupt hint).1
      refine ⟨0, ?_, by simp, fun _ _ ↦ rfl⟩
      rw [step_csr_of_interrupt hint hclear, h.csrAfterEx_mid hreach hsafe hint,
        h.interruptMepc_mid hreach hsafe hint]
      simp [Arch.interrupt]
    | false =>
      cases hval : s.reg2.valid with
      | false =>
        rw [if_neg Bool.false_ne_true, midArch, executes_of_bubble hval]
        exact h.csrAhead_of_bubble hreach hsafe hval hhold hint
      | true =>
        rw [if_neg Bool.false_ne_true, h.midArch_eq hval hhold]
        refine ⟨0, ?_, by simp, fun _ _ ↦ rfl⟩
        rw [h.step_csr (reg2_decoded hreach) hsafe hval hhold hint]
        simp

include hmode

theorem Sim.drain_step :
    drainX (step P s i) = (cycleArch P s i a).regs ∧
      drainF (step P s i) = (cycleArch P s i a).fregs ∧
      drainM P (step P s i) = (cycleArch P s i a).mem := by
  have hmid : drainX (step P s i) = (midArch P s i a).regs ∧
      drainF (step P s i) = (midArch P s i a).fregs ∧
      drainM P (step P s i) = (midArch P s i a).mem := by
    cases hhold : reg2Hold P s i with
    | true =>
      rw [midArch, executes_of_hold hhold, if_neg Bool.false_ne_true]
      cases hmem : memHold P s with
      | true => exact h.drain_of_memHold hmode hreach hmem
      | false =>
        exact h.drain_of_silent hmode hreach hmem (h.silent_of_stall hsafe hhold hmem)
    | false =>
      have hmem := memHold_eq_false_of_reg2Hold hhold
      cases hval : s.reg2.valid with
      | true =>
        rw [h.midArch_eq hval hhold]
        exact h.drain_of_commit hmode hreach hsafe hval hhold
      | false =>
        rw [midArch, executes_of_bubble hval, if_neg Bool.false_ne_true]
        apply h.drain_of_silent hmode hreach hmem
        rw [step_reg3_of_move hmem]
        exact reg3Next_silent_of_bubble (reg2_decoded hreach) (bubbleInv hreach) hval
  rw [cycleArch_eq]
  split_ifs
  · exact hmid
  · exact hmid

omit hmode hreach hsafe in
theorem Sim.x0_step : (cycleArch P s i a).regs 0 = 0 := by
  have hmid : (midArch P s i a).regs 0 = 0 := by
    unfold midArch
    split_ifs
    · exact Arch.exec_x0 h.x0
    · exact h.x0
  rw [cycleArch_eq]
  split_ifs
  · exact hmid
  · exact hmid

omit hmode hreach hsafe in
theorem Sim.ex_step (hord : InOrder P (step P s i) (cycleArch P s i a).pc)
    (hval : (step P s i).reg2.valid = true) :
    (step P s i).reg2.strip = (cycleArch P s i a).issued P := by
  cases hhold : reg2Hold P s i with
  | true =>
    rw [step_reg2_of_hold hhold] at hval ⊢
    rw [cycleArch_of_hold hhold]
    exact h.ex hval
  | false =>
    have hpc := hord.ex hval
    obtain ⟨hreg2, -, -⟩ := step_reg2_of_enter hhold hval
    rw [hreg2] at hval hpc ⊢
    have hid : s.idBubble = false := by simpa [reg2Next] using hval
    rw [h.strip_reg2Next hid, Arch.issued, ← hpc]
    rfl

/-- One cycle of the pipeline is simulated by the actions it names. -/
theorem Sim.cycle : Sim P (step P s i) (cycleArch P s i a) := by
  have hdec := reg2_decoded hreach
  have hord : InOrder P (step P s i) (cycleArch P s i a).pc := by
    rw [← h.pc_step hreach hsafe]
    exact h.order.step hdec (bubbleInv hreach) (h.orderly hreach hsafe)
  obtain ⟨hx, hf, hm⟩ := h.drain_step (i := i) hmode hreach hsafe
  exact
    { order := hord
      regs := hx
      fregs := hf
      mem := hm
      x0 := h.x0_step
      csr := h.csr_step hreach hsafe
      id := h.id_step hsafe hmode
      fault := h.fault_step hsafe
      ex := h.ex_step hord
      bubble := h.bubble_step hsafe hreach
      operands := h.operands_step hmode hreach hsafe
      units := by
        cases hhold : reg2Hold P s i with
        | true =>
          rw [cycleArch_of_hold hhold]
          exact h.units.step_hold hdec hhold fun hval hcap _ ↦ h.mask_of_idle hval hcap
        | false => exact h.units.step_leave hhold _
      amo := h.amo_step hsafe
      load := h.load_step hmode hreach hsafe
      waiting := h.waiting_step hmode hreach hsafe
      idle := h.idle.step hsafe.bare }

end Assemble

/-! ## The log -/

theorem Reg3.Silent.entries {r : Reg3 w} (h : r.Silent) (v : BitVec w) :
    xEntry r.regWrite r.writeToReg v = [] ∧ fEntry r.fRegWrite r.writeToReg v = [] ∧
      mEntry r.memWrite r.aluOut r.readData2 r.funct3 = [] := by
  refine ⟨?_, by simp [fEntry, h.f], by simp [mEntry, h.write]⟩
  unfold xEntry
  cases hx : r.regWrite with
  | false => rfl
  | true => simp [h.x hx]

/-- The writes of a cycle's actions are those of the instruction that leaves EX. -/
theorem logActions_writes :
    (a.logActions P (cycleActions P s i)).x =
      (if executes P s i then (a.entries P (.exec (lines s))).x else []) ∧
    (a.logActions P (cycleActions P s i)).f =
      (if executes P s i then (a.entries P (.exec (lines s))).f else []) ∧
    (a.logActions P (cycleActions P s i)).m =
      (if executes P s i then (a.entries P (.exec (lines s))).m else []) := by
  unfold cycleActions
  split_ifs <;> simp [Arch.logActions, Arch.entries, Log.empty]

theorem logActions_retires :
    (a.logActions P (cycleActions P s i)).c =
      (if executes P s i then [.instr a.pc (midArch P s i a).csr] else []) ++
        (if interruptTaken P s i then
          [.interrupt (midArch P s i a).pc (cycleArch P s i a).csr] else []) := by
  rw [cycleArch_eq]
  unfold cycleActions midArch
  split_ifs <;> simp [Arch.logActions, Arch.entries, Arch.act, Log.empty]

section Log

variable (hmode : P.cacheMode = .none) (hreach : Reachable P s) (h : Sim P s a)
  (hsafe : Safe P s i)

include hmode hreach h hsafe

/-- What moves into MEM carries the writes of the instruction that leaves EX. -/
theorem Sim.writes_step (hmem : memHold P s = false) :
    xEntry (step P s i).reg3.regWrite (step P s i).reg3.writeToReg (value3 (step P s i)) =
        (a.logActions P (cycleActions P s i)).x ∧
      fEntry (step P s i).reg3.fRegWrite (step P s i).reg3.writeToReg (value3 (step P s i)) =
        (a.logActions P (cycleActions P s i)).f ∧
      mEntry (step P s i).reg3.memWrite (step P s i).reg3.aluOut (step P s i).reg3.readData2
          (step P s i).reg3.funct3 = (a.logActions P (cycleActions P s i)).m := by
  have hdec := reg2_decoded hreach
  obtain ⟨hx, hf, hm⟩ := logActions_writes (P := P) (s := s) (i := i) (a := a)
  rw [hx, hf, hm]
  cases hexe : executes P s i with
  | false =>
    have hs : (step P s i).reg3.Silent := by
      cases hhold : reg2Hold P s i with
      | true => exact h.silent_of_stall hsafe hhold hmem
      | false =>
        rw [step_reg3_of_move hmem]
        apply reg3Next_silent_of_bubble hdec (bubbleInv hreach)
        simpa [executes, hhold] using hexe
    simpa using hs.entries (value3 (step P s i))
  | true =>
    obtain ⟨hval, hhold⟩ : s.reg2.valid = true ∧ reg2Hold P s i = false := by
      simpa [executes] using hexe
    simp only [if_true, Arch.entries, (h.exec_pending hval).2]
    cases ht : a.traps P with
    | true =>
      have hs := h.step_silent_of_trap hval hsafe hhold ht
      simpa [Arch.writesX, Arch.writesF, Arch.stores, ht, xEntry, fEntry, mEntry] using
        hs.entries (value3 (step P s i))
    | false =>
      obtain ⟨hx, hf, hw, hrd, hf3, -, -⟩ := h.ctl_of_commit hsafe hval hhold ht
      rw [hx, hf, hw, hrd, hf3, h.value3_of_commit hmode hdec hsafe hval hhold ht]
      refine ⟨rfl, rfl, ?_⟩
      cases hst : a.stores P with
      | false => rfl
      | true =>
        have hwrite : (a.issued P).ctl.memWrite = true := by
          simp only [Arch.stores, Bool.and_eq_true] at hst
          exact hst.2
        obtain ⟨haddr, -, hone⟩ :=
          Arch.value_of_access (p := pending s) Arch.issued_decoded (.inr hwrite)
        have hone' : s.reg2.singleCycle := by
          rw [← h.ex hval] at hone
          exact hone
        have hdata : (step P s i).reg3.readData2 =
            s.reg2.storeData (RvPipeline.operands P s) := by
          rw [h.step_reg3_of_commit hval hsafe hhold ht]
          exact dtlbStoreData_of_idle h.idle
        rw [h.aluOut_of_commit hdec hsafe hval hhold ht, haddr, hdata, h.storeData_eq hval hone']

omit hmode in
/-- What retires in EX is what the sequential machine retires. -/
theorem Sim.retires_step : (cycleLog P s i).c = (a.logActions P (cycleActions P s i)).c := by
  rw [logActions_retires]
  unfold cycleLog
  have hdec := reg2_decoded hreach
  cases hint : interruptTaken P s i with
  | true =>
    have hclear := (hsafe.interrupt hint).1
    have hcsr := step_csr_of_interrupt hint hclear
    rw [h.csrAfterEx_mid hreach hsafe hint, h.interruptMepc_mid hreach hsafe hint] at hcsr
    rw [h.csrAfterEx_mid hreach hsafe hint, h.interruptMepc_mid hreach hsafe hint, hcsr,
      cycleArch_eq, hint]
    cases hexe : executes P s i with
    | false => rfl
    | true =>
      simp only [executes, Bool.and_eq_true] at hexe
      rw [h.order.ex hexe.1]
      rfl
  | false =>
    cases hexe : executes P s i with
    | false => rfl
    | true =>
      obtain ⟨hval, hhold⟩ : s.reg2.valid = true ∧ reg2Hold P s i = false := by
        simpa [executes] using hexe
      rw [h.midArch_eq hval hhold, ← h.step_csr hdec hsafe hval hhold hint, h.order.ex hval]
      rfl

/-- What is written back, followed by what is in flight, is what the sequential machine
writes. -/
theorem Sim.log_step : cycleLog P s i ++ inFlight (step P s i) =
    inFlight s ++ a.logActions P (cycleActions P s i) := by
  have hc := h.retires_step hreach hsafe
  cases hmem : memHold P s with
  | true =>
    have hhold : reg2Hold P s i = true := by
      rw [h.reg2Hold_eq hsafe, hmem, Bool.or_true]
    have hnone : cycleActions P s i = [] := by
      simp [cycleActions, executes_of_hold hhold, interruptTaken_of_hold hhold]
    have hwb := writeDataWb_of_memHold (i := i) h.amo hmem
    have hv := value3_of_memHold (i := i) hmode h.idle (reg3_oneAccess hreach) h.amo hmem
      (reg3_memtoReg hreach)
    rw [hnone] at hc ⊢
    ext1
    · simp [cycleLog, inFlight, hmem, hwb, hv, step_reg3_of_memHold hmem, step_reg4_of_memHold hmem,
        Arch.logActions, Log.empty]
    · simp [cycleLog, inFlight, hmem, hwb, hv, step_reg3_of_memHold hmem, step_reg4_of_memHold hmem,
        Arch.logActions, Log.empty]
    · simp [cycleLog, inFlight, hmem, step_reg3_of_memHold hmem, Arch.logActions, Log.empty]
    · simpa [inFlight] using hc
  | false =>
    obtain ⟨hx, hf, hm⟩ := h.writes_step hmode hreach hsafe hmem
    have hwb := writeDataWb_of_move (i := i) hmode h.amo hmem (h.load_of_leave hmode hreach hmem)
    ext1
    · simp only [Log.append_x, inFlight, hx, hwb, step_reg4_of_move hmode hmem]
      simp [cycleLog, hmem, Reg4.ofReg3]
    · simp only [Log.append_f, inFlight, hf, hwb, step_reg4_of_move hmode hmem]
      simp [cycleLog, hmem, Reg4.ofReg3]
    · simp only [Log.append_m, inFlight, hm]
      simp [cycleLog, hmem]
    · simpa [inFlight] using hc

end Log

end RvPipeline
