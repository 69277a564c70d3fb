import RvPipeline.Iss.Access
import RvPipeline.Iss.CsrFile

/-!
# System instructions

The CSR instructions, `ecall`, `ebreak` and `mret` in machine mode: the CSR file of the simulator
stays that of the sequential machine.  The simulator has no counters and no interrupt lines, so a
word that reads them is left out.
-/

namespace RvPipeline

/-! ## The dictionary as a whole -/

namespace Iss

variable {σ : Iss} {c : Csr 32}

theorem csrView_of_stores (h : σ.Stores c) : σ.csrView = c.view := by
  have hmstatus := toNat_of_bits (congrArg PrivState.mstatus h.privState)
  have hmie := toNat_of_bits (congrArg PrivState.mie h.privState)
  have hmip := toNat_of_bits (congrArg PrivState.mip h.privState)
  have hmideleg := toNat_of_bits (congrArg PrivState.mideleg h.privState)
  have hmedeleg := toNat_of_bits (congrArg PrivState.medeleg h.privState)
  have hpriv : σ.privMode = c.privMode := congrArg PrivState.priv h.privState
  change CsrView.mk [σ.csr csrAddrMstatus, σ.csr csrAddrMtvec, σ.csr csrAddrMscratch,
    σ.csr csrAddrMepc, σ.csr csrAddrMcause, σ.csr csrAddrSscratch, σ.csr csrAddrSepc,
    σ.csr csrAddrScause, σ.csr csrAddrStval, σ.csr csrAddrMtval, σ.csr csrAddrStvec,
    σ.csr csrAddrSatp, σ.csr csrAddrMideleg, σ.csr csrAddrMedeleg, σ.csr csrAddrMie,
    σ.csr csrAddrMip] σ.privMode σ.frm σ.fflags = _
  rw [hmstatus, hmie, hmip, hmideleg, hmedeleg, hpriv, h.mtvec, h.mscratch, h.mepc, h.mcause,
    h.sscratch, h.sepc, h.scause, h.stval, h.mtval, h.stvec, h.satp, h.frm, h.fflags]
  rfl

theorem stores_of_csrView (h : σ.csrView = c.view) : σ.Stores c := by
  have hbits : ∀ {n : ℕ} {v : BitVec 32}, n = v.toNat → n.testBit = v.getLsbD := by
    rintro n v rfl
    rfl
  have hkey : ∀ n : ℕ, (issCsrKeys.map σ.csr).getD n 0 = c.view.values.getD n 0 := fun n ↦
    congrArg (fun v : CsrView ↦ v.values.getD n 0) h
  exact ⟨PrivState.ext (congrArg CsrView.privMode h) (hbits (hkey 0)) (hbits (hkey 14))
    (hbits (hkey 15)) (hbits (hkey 12)) (hbits (hkey 13)), hkey 1, hkey 2, hkey 3, hkey 4, hkey 5,
    hkey 6, hkey 7, hkey 8, hkey 9, hkey 10, hkey 11, congrArg CsrView.frm h,
    congrArg CsrView.fflags h⟩

end Iss

/-! ## Words -/

/-- The word reads no counter and no interrupt line. -/
def timeFree (word : BitVec 32) : Bool :=
  opcodeOf word != opcodeSystem || funct3Of word == csrF3None ||
    (!Csr.isCounterAddr (csrImm12Of word) && csrImm12Of word != csrAddrMip)

/-- The function of a CSR instruction. -/
theorem fn_of_funct3 {f3 : BitVec 3} (h0 : f3 ≠ csrF3None) (h4 : f3 ≠ 0b100#3) :
    ∃ fn : CsrFn, f3.extractLsb' 0 2 = fn.code := by
  rcases funct3_cases f3 with rfl | rfl | rfl | rfl | rfl | rfl | rfl | rfl
  · exact absurd rfl h0
  · exact ⟨.write, rfl⟩
  · exact ⟨.set, rfl⟩
  · exact ⟨.clear, rfl⟩
  · exact absurd rfl h4
  · exact ⟨.write, rfl⟩
  · exact ⟨.set, rfl⟩
  · exact ⟨.clear, rfl⟩

theorem csrNewVal_eq {f3 : BitVec 3} {fn : CsrFn} (h : f3.extractLsb' 0 2 = fn.code)
    (old src : ℕ) : Iss.csrNewVal f3 old src = Iss.csrNewVal (0#1 ++ fn.code) old src := by
  have hcode : (0#1 ++ fn.code : BitVec 3).extractLsb' 0 2 = fn.code := by
    cases fn <;> rfl
  rw [Iss.csrNewVal, Iss.csrNewVal, h, hcode]

theorem Iss.csrWrite_frame (σ : Iss) (addr : BitVec 12) (v : ℕ) :
    (σ.csrWrite addr v).regs = σ.regs ∧ (σ.csrWrite addr v).mem = σ.mem ∧
      (σ.csrWrite addr v).trace = σ.trace ∧ (σ.csrWrite addr v).pc = σ.pc := by
  unfold Iss.csrWrite Iss.setCsr
  split_ifs <;> exact ⟨rfl, rfl, rfl, rfl⟩

theorem Iss.trap_frame (σ : Iss) (cause tval : ℕ) :
    (σ.trap cause tval).regs = σ.regs ∧ (σ.trap cause tval).mem = σ.mem ∧
      (σ.trap cause tval).trace = σ.trace := by
  unfold Iss.trap
  split_ifs <;> exact ⟨rfl, rfl, rfl⟩

theorem Iss.trap_pc {σ : Iss} (h : σ.privMode = privM) (cause tval : ℕ) :
    (σ.trap cause tval).pc = σ.csr csrAddrMtvec := by
  have hto : σ.trapToS cause = false := by simp [Iss.trapToS, h]
  rw [Iss.trap, hto, if_neg Bool.false_ne_true]
  rfl

/-! ## The sequential machine -/

/-- Without a write the address makes no difference. -/
theorem Csr.nextWith_addr {c : Csr 32} {q : CsrIn 32} (h : q.csrWriteEn = false)
    (addr : BitVec 12) (v : BitVec 32) :
    c.nextWith { q with csrAddr := addr } v = c.nextWith q v := by
  simp [Csr.nextWith, Csr.nextMstatus, Csr.nextPrivMode, Csr.trapTargetIsS, h]

/-- What the port of a system instruction shows: no flags, and a return only if it is one. -/
theorem Reg2.csrPort_system {r : Reg2 32} (hfp : r.isOpFp = false) (hfma : r.isFma = false)
    (hsret : r.ctl.isSret = false) (o : Operands 32) (c : Csr 32) :
    (r.csrPort o c).fpFlagsWe = false ∧ (r.csrPort o c).sretTaken = false ∧
      (r.ctl.isMret = false → (r.csrPort o c).mretTaken = false) := by
  refine ⟨?_, ?_, fun hmret ↦ ?_⟩
  · change (r.isOpFp || r.isFma) = false
    rw [hfp, hfma]
    rfl
  · change (r.ctl.isSret && _) = false
    rw [hsret]
    rfl
  · change (r.ctl.isMret && _) = false
    rw [hmret]
    rfl

theorem csrAddr_ofWord {word : BitVec 32} (hop : opcodeOf word = opcodeSystem) (pc : BitVec 32) :
    (Reg2.ofWord pc word).csrAddr = csrImm12Of word := by
  have himm : immGen 32 word = (word.extractLsb' 20 12).setWidth 32 := by
    have hop' : word.extractLsb' 0 7 = opcodeSystem := hop
    simp only [immGen, hop']
    rfl
  change (immGen 32 word).setWidth 12 = _
  rw [himm]
  exact BitVec.setWidth_setWidth_of_le _ (by decide)

theorem absurd_of_false {b : Bool} {q : Prop} (hb : b = false) (h : b = true) : q :=
  absurd (hb.symm.trans h) Bool.false_ne_true

section Machine

variable {P : Params} {p : Pending} {a : Arch 32} {word : BitVec 32}
  (hword : imemRead P a.pc = word) (hlegal : legalWord word = true)
  (hpriv : a.csr.privMode = privM)

include hword hlegal hpriv

/-- A CSR instruction. -/
theorem Arch.outcome_of_csr (hop : opcodeOf word = opcodeSystem)
    (hf : funct3Of word ≠ csrF3None) {fn : CsrFn}
    (hfn : (funct3Of word).extractLsb' 0 2 = fn.code) (k : Counters 32)
    (hcounter : Csr.isCounterAddr (csrImm12Of word) = false) :
    a.outcome P p =
      { wx := some (a.csr.rdata k p (csrImm12Of word))
        wm := none
        pc := a.pc + 4
        csr := a.csr.next k p (CsrOp.access fn (csrImm12Of word)
          (if (funct3Of word).getLsbD 2 then (rs1Of word).setWidth 32
            else a.regs.get (rs1Of word))).input } := by
  obtain ⟨hfp, hfma, -, -, -⟩ := not_float_of_legal hlegal a.pc
  have hiss := Arch.issued_of_legal hword hlegal
  have hops := Arch.operands_of_legal hword hlegal
  have hctl := decodeControl_csr hop hf
  have hctl' : (Reg2.ofWord a.pc word).ctl = { isCsr := true, regWrite := true } := hctl
  have hex : (Reg2.ofWord a.pc word).exceptionTaken privM false = false := by
    rw [exceptionTaken_ofWord, hctl]
    simp [Reg2.aluCtl, hctl', aluCtrl]
  have htraps : a.traps P = false := by rw [Arch.traps, hiss, hpriv, hex]
  have haddr := csrAddr_ofWord hop a.pc
  have hread : a.csr.rdata k p (csrImm12Of word) = a.csr.archRdata p (csrImm12Of word) := by
    rw [Csr.rdata, hcounter, if_neg Bool.false_ne_true]
  have hres : a.result P p = a.csr.rdata k p (csrImm12Of word) := by
    rw [Arch.result, hiss, Reg2.value, hfp, hfma, hctl', haddr, hread]
    rfl
  have hpc : (Reg2.ofWord a.pc word).pcAfter (readOperands a.regs a.fregs word) a.csr =
      a.pc + 4 := by
    simp [Reg2.pcAfter, hpriv, hex, Reg2.mretReal, Reg2.sretReal, Reg2.resolvedNext,
      Reg2.desiredTaken, hctl', Reg2.pcPlus4]
    rfl
  have hnlt : ∀ q : BitVec 2, ¬privM < q := by decide
  have hcsr : (Reg2.ofWord a.pc word).csrAfter (readOperands a.regs a.fregs word) a.csr p =
      a.csr.next k p (CsrOp.access fn (csrImm12Of word)
          (if (funct3Of word).getLsbD 2 then (rs1Of word).setWidth 32
            else a.regs.get (rs1Of word))).input := by
    unfold Reg2.csrAfter Csr.next
    apply Csr.nextWith_agree
    have hwe : ((Reg2.ofWord a.pc word).csrPort (readOperands a.regs a.fregs word)
        a.csr).csrWriteEn = true := by
      change ((Reg2.ofWord a.pc word).ctl.isCsr && !(Reg2.ofWord a.pc word).csrPrivViolation _) = _
      rw [hpriv, Reg2.csrPrivViolation, hctl', decide_eq_false (hnlt _)]
      rfl
    have htrap : ((Reg2.ofWord a.pc word).csrPort (readOperands a.regs a.fregs word)
        a.csr).trapTaken = false := by
      change (Reg2.ofWord a.pc word).exceptionTaken a.csr.privMode false = false
      rw [hpriv, hex]
    obtain ⟨hflags, hsret, hmret⟩ := Reg2.csrPort_system hfp hfma (by rw [hctl'])
      (readOperands a.regs a.fregs word) a.csr
    refine ⟨hwe, haddr, fun _ ↦ ?_, htrap, absurd_of_false htrap, absurd_of_false htrap,
      absurd_of_false htrap, absurd_of_false htrap, hmret (by rw [hctl']), hsret, hflags,
      absurd_of_false hflags⟩
    rw [haddr, ← hread]
    change Csr.newVal ((funct3Of word).extractLsb' 0 2) _ _ = _
    rw [hfn]
    rfl
  have hwx : a.writesX P = true := by
    rw [Arch.writesX, htraps, hiss, hctl']
    rfl
  have hst : a.stores P = false := by
    rw [Arch.stores, htraps, hiss, hctl']
    rfl
  rw [Arch.outcome, hwx, hst, hres, hiss, hops, hpc, hcsr]
  rfl

/-- `ecall` and `ebreak`. -/
theorem Arch.outcome_of_trap {ecall ebreak : Bool}
    (hctl : decodeControl 32 word = { isEcall := ecall, isEbreak := ebreak })
    (hone : (ecall || ebreak) = true) {cause : BitVec 31}
    (hcause : (Reg2.ofWord a.pc word).trapCause privM false = cause.setWidth 32)
    (k : Counters 32) :
    a.outcome P p =
      { wx := none
        wm := none
        pc := a.csr.mtvec
        csr := a.csr.next k p (CsrOp.trap false cause a.pc 0).input } := by
  obtain ⟨hfp, hfma, -, -, -⟩ := not_float_of_legal hlegal a.pc
  have hiss := Arch.issued_of_legal hword hlegal
  have hops := Arch.operands_of_legal hword hlegal
  have hctl' : (Reg2.ofWord a.pc word).ctl = { isEcall := ecall, isEbreak := ebreak } := hctl
  have hex : (Reg2.ofWord a.pc word).exceptionTaken privM false = true := by
    rw [exceptionTaken_ofWord, hctl]
    rw [Bool.or_assoc]
    simp [hone]
  have htraps : a.traps P = true := by rw [Arch.traps, hiss, hpriv, hex]
  have htarget : a.csr.trapTargetIsS ((Reg2.ofWord a.pc word).csrPort
      (readOperands a.regs a.fregs word) a.csr) = false := by
    simp [Csr.trapTargetIsS, hpriv]
  have hpc : (Reg2.ofWord a.pc word).pcAfter (readOperands a.regs a.fregs word) a.csr =
      a.csr.mtvec := by
    simp [Reg2.pcAfter, hpriv, hex, htarget]
  have hcsr : (Reg2.ofWord a.pc word).csrAfter (readOperands a.regs a.fregs word) a.csr p =
      a.csr.next k p (CsrOp.trap false cause a.pc 0).input := by
    have hwe : ((Reg2.ofWord a.pc word).csrPort (readOperands a.regs a.fregs word)
        a.csr).csrWriteEn = false := by
      change ((Reg2.ofWord a.pc word).ctl.isCsr && _) = false
      rw [hctl']
      rfl
    obtain ⟨hflags, hsret, hmret⟩ := Reg2.csrPort_system hfp hfma (by rw [hctl'])
      (readOperands a.regs a.fregs word) a.csr
    unfold Reg2.csrAfter Csr.next
    rw [← Csr.nextWith_addr hwe 0]
    apply Csr.nextWith_agree
    refine ⟨hwe, rfl, absurd_of_false hwe, ?_, fun _ ↦ rfl, fun _ ↦ ?_, fun _ ↦ rfl, fun _ ↦ rfl,
      hmret (by rw [hctl']), hsret, hflags, absurd_of_false hflags⟩
    · change (Reg2.ofWord a.pc word).exceptionTaken a.csr.privMode false = true
      rw [hpriv, hex]
    · change (Reg2.ofWord a.pc word).trapCause a.csr.privMode false = _
      rw [hpriv, hcause]
      rfl
  have hwx : a.writesX P = false := by
    rw [Arch.writesX, htraps]
    rfl
  have hst : a.stores P = false := by
    rw [Arch.stores, htraps]
    rfl
  rw [Arch.outcome, hwx, hst, hiss, hops, hpc, hcsr]
  rfl

/-- `mret`. -/
theorem Arch.outcome_of_mret (hctl : decodeControl 32 word = { isMret := true })
    (k : Counters 32) :
    a.outcome P p =
      { wx := none
        wm := none
        pc := a.csr.mepc
        csr := a.csr.next k p (CsrOp.mret (w := 32)).input } := by
  obtain ⟨hfp, hfma, -, -, -⟩ := not_float_of_legal hlegal a.pc
  have hiss := Arch.issued_of_legal hword hlegal
  have hops := Arch.operands_of_legal hword hlegal
  have hctl' : (Reg2.ofWord a.pc word).ctl = { isMret := true } := hctl
  have hex : (Reg2.ofWord a.pc word).exceptionTaken privM false = false := by
    rw [exceptionTaken_ofWord, hctl]
    simp [Reg2.aluCtl, hctl', aluCtrl]
  have htraps : a.traps P = false := by rw [Arch.traps, hiss, hpriv, hex]
  have hreal : (Reg2.ofWord a.pc word).mretReal privM = true := by
    simp [Reg2.mretReal, Reg2.mretPrivViolation, hctl']
  have hpc : (Reg2.ofWord a.pc word).pcAfter (readOperands a.regs a.fregs word) a.csr =
      a.csr.mepc := by
    simp [Reg2.pcAfter, hpriv, hex, hreal]
  have hcsr : (Reg2.ofWord a.pc word).csrAfter (readOperands a.regs a.fregs word) a.csr p =
      a.csr.next k p (CsrOp.mret (w := 32)).input := by
    have hwe : ((Reg2.ofWord a.pc word).csrPort (readOperands a.regs a.fregs word)
        a.csr).csrWriteEn = false := by
      change ((Reg2.ofWord a.pc word).ctl.isCsr && _) = false
      rw [hctl']
      rfl
    have htrap : ((Reg2.ofWord a.pc word).csrPort (readOperands a.regs a.fregs word)
        a.csr).trapTaken = false := by
      change (Reg2.ofWord a.pc word).exceptionTaken a.csr.privMode false = false
      rw [hpriv, hex]
    obtain ⟨hflags, hsret, -⟩ := Reg2.csrPort_system hfp hfma (by rw [hctl'])
      (readOperands a.regs a.fregs word) a.csr
    unfold Reg2.csrAfter Csr.next
    rw [← Csr.nextWith_addr hwe 0]
    apply Csr.nextWith_agree
    refine ⟨hwe, rfl, absurd_of_false hwe, htrap, absurd_of_false htrap, absurd_of_false htrap,
      absurd_of_false htrap, absurd_of_false htrap, ?_, hsret, hflags, absurd_of_false hflags⟩
    change (Reg2.ofWord a.pc word).mretReal a.csr.privMode = _
    rw [hpriv, hreal]
    rfl
  have hwx : a.writesX P = false := by
    rw [Arch.writesX, htraps, hiss, hctl']
    rfl
  have hst : a.stores P = false := by
    rw [Arch.stores, htraps, hiss, hctl']
    rfl
  rw [Arch.outcome, hwx, hst, hiss, hops, hpc, hcsr]
  rfl

end Machine

/-! ## Agreement -/

section Agree

variable {P : Params} {p : Pending} {a : Arch 32} {word : BitVec 32} {C : IssConfig} {σ : Iss}
  (hC : C.xlen = 32) (hm : σ.Matches C a) (hmask : a.csr.privState.Masked)
  (hword : imemRead P a.pc = word) (hlegal : legalWord word = true)
  (hpriv : a.csr.privMode = privM)

include hC hm hmask hword hlegal hpriv

theorem agrees_csr (hpc : a.pc.toNat + 4 < 2 ^ 32) (hop : opcodeOf word = opcodeSystem)
    (hf : funct3Of word ≠ csrF3None) (htime : timeFree word = true) : Agrees C P p word σ a := by
  have hf4 : funct3Of word ≠ 0b100#3 := by
    rw [legalWord, hop] at hlegal
    change (if funct3Of word = csrF3None then _ else funct3Of word != 0b100#3) = true at hlegal
    rw [if_neg hf] at hlegal
    exact bne_iff_ne.1 hlegal
  obtain ⟨fn, hfn⟩ := fn_of_funct3 hf hf4
  have hfree : Csr.isCounterAddr (csrImm12Of word) = false ∧ csrImm12Of word ≠ csrAddrMip := by
    simpa [timeFree, hop, hf] using htime
  have hs := Iss.stores_of_csrView hm.csr
  let k := Counters.reset 32
  set wdata : BitVec 32 := if (funct3Of word).getLsbD 2 then (rs1Of word).setWidth 32
    else a.regs.get (rs1Of word) with hwdata
  have hread : σ.csrRead C (csrImm12Of word) = (a.csr.rdata k p (csrImm12Of word)).toNat :=
    hs.reads (.inl rfl) hC hmask k p hfree.1 fun h ↦ absurd h hfree.2
  have hsrc : (if (funct3Of word).getLsbD 2 then (rs1Of word).toNat else σ.regs (rs1Of word)) =
      wdata.toNat := by
    rw [hwdata, hm.regs]
    split_ifs
    · rw [BitVec.toNat_setWidth_of_le (by decide)]
    · rfl
  have hstores := hs.access (.inl rfl) hC hmask k p fn (csrImm12Of word) wdata fun _ ↦ BitVec.isLt _
  obtain ⟨hregs, hmem, htrace, hpcw⟩ := Iss.csrWrite_frame σ (csrImm12Of word)
    (Iss.csrNewVal (0#1 ++ fn.code) (σ.csrRead C (csrImm12Of word)) wdata.toNat)
  set τ := σ.csrWrite (csrImm12Of word)
    (Iss.csrNewVal (0#1 ++ fn.code) (σ.csrRead C (csrImm12Of word)) wdata.toNat) with hτ
  obtain ⟨hwmem, hwm, hwc, hwcsr⟩ := Iss.wr_mem (C := C) (σ := τ) (rdOf word)
    (a.csr.rdata k p (csrImm12Of word)).toNat
  refine ⟨{ τ.wr C (rdOf word) (a.csr.rdata k p (csrImm12Of word)).toNat with pc := σ.pc + 4 },
    ?_, ?_⟩
  · rw [Iss.step, if_neg (ne_zero_of_opcode hop (by decide))]
    simp only [hop]
    change σ.system C word (σ.regs (rs1Of word)) = _
    have hnlt : ∀ q : BitVec 2, ¬privM < q := by decide
    rw [Iss.system, if_neg hf, (privMode_of_matches hm).trans hpriv, if_neg (hnlt _), hsrc]
    dsimp only
    rw [csrNewVal_eq hfn, ← hτ, hread]
  · rw [Arch.outcome_of_csr hword hlegal hpriv hop hf hfn k hfree.1]
    exact
      { regs := by simp only [Iss.wrOf, Iss.wr, hregs]; split_ifs <;> simp [hregs]
        x := by simp only [Iss.wrOf, Iss.wr, htrace]; split_ifs <;> simp [htrace]
        mem := hwmem.trans hmem
        m := hwm.trans (congrArg Trace.m htrace)
        c := hwc.trans (congrArg Trace.c htrace)
        pc := next_pc_eq hm hpc
        csr := hwcsr.trans (Iss.csrView_of_stores hstores) }

omit hC in
/-- `ecall` and `ebreak`. -/
theorem agrees_trap {ecall ebreak : Bool}
    (hctl : decodeControl 32 word = { isEcall := ecall, isEbreak := ebreak })
    (hone : (ecall || ebreak) = true) {cause : BitVec 31}
    (hcause : (Reg2.ofWord a.pc word).trapCause privM false = cause.setWidth 32)
    (hstep : σ.step C word = some (σ.trap (issCause false cause) 0)) : Agrees C P p word σ a := by
  have hs := Iss.stores_of_csrView hm.csr
  let k := Counters.reset 32
  have hstores := hs.trap (C := C) (.inl rfl) hmask k p false cause a.pc 0 (by decide)
  have hself : ({ σ with pc := a.pc.toNat } : Iss) = σ := by
    rw [← hm.pc]
  have happly : σ.csrApply C (.trap false cause a.pc 0) = σ.trap (issCause false cause) 0 := by
    rw [Iss.csrApply, hself]
    rfl
  rw [happly] at hstores
  obtain ⟨hregs, hmem, htrace⟩ := Iss.trap_frame σ (issCause false cause) 0
  refine ⟨_, hstep, ?_⟩
  rw [Arch.outcome_of_trap hword hlegal hpriv hctl hone hcause k]
  exact
    { regs := hregs
      x := congrArg Trace.x htrace
      mem := hmem
      m := congrArg Trace.m htrace
      c := congrArg Trace.c htrace
      pc := (Iss.trap_pc ((privMode_of_matches hm).trans hpriv) _ _).trans hs.mtvec
      csr := Iss.csrView_of_stores hstores }

theorem agrees_mret (hctl : decodeControl 32 word = { isMret := true })
    (hstep : σ.step C word = some σ.mret) : Agrees C P p word σ a := by
  have hs := Iss.stores_of_csrView hm.csr
  let k := Counters.reset 32
  have hstores := hs.step (.inl rfl) hC hmask (⟨.mret, k, p⟩ : CsrStep 32) trivial
  refine ⟨_, hstep, ?_⟩
  rw [Arch.outcome_of_mret hword hlegal hpriv hctl k]
  exact
    { regs := rfl
      x := rfl
      mem := rfl
      m := rfl
      c := rfl
      pc := hs.mepc
      csr := Iss.csrView_of_stores hstores }

theorem agrees_system (hpc : a.pc.toNat + 4 < 2 ^ 32) (hop : opcodeOf word = opcodeSystem)
    (htime : timeFree word = true) : Agrees C P p word σ a := by
  by_cases hf : funct3Of word = csrF3None
  · have hone : word = 0x00000073#32 ∨ word = 0x00100073#32 ∨ word = 0x30200073#32 := by
      rw [legalWord, hop] at hlegal
      change (if funct3Of word = csrF3None then _ else _ : Bool) = true at hlegal
      rw [if_pos hf] at hlegal
      simpa [or_assoc] using hlegal
    have hM : σ.privMode = privM := (privMode_of_matches hm).trans hpriv
    rcases hone with rfl | rfl | rfl
    · have hctl : decodeControl 32 0x00000073#32 = { isEcall := true, isEbreak := false } := rfl
      have hcause : (Reg2.ofWord a.pc 0x00000073#32).trapCause privM false =
        (11#31).setWidth 32 := rfl
      apply agrees_trap hm hmask hword hlegal hpriv hctl rfl hcause
      change (if σ.privMode = privM then _ else _ : Option Iss) = _
      rw [if_pos hM]
      rfl
    · have hctl : decodeControl 32 0x00100073#32 = { isEcall := false, isEbreak := true } := rfl
      have hcause : (Reg2.ofWord a.pc 0x00100073#32).trapCause privM false =
        (3#31).setWidth 32 := rfl
      exact agrees_trap hm hmask hword hlegal hpriv hctl rfl hcause rfl
    · apply agrees_mret hC hm hmask hword hlegal hpriv rfl
      change some (if σ.privMode ≠ privM then _ else _ : Iss) = _
      rw [if_neg (not_not.mpr hM)]
  · exact agrees_csr hC hm hmask hword hlegal hpriv hpc hop hf htime

end Agree

/-! ## Every legal word -/

section Agree

variable {P : Params} {p : Pending} {a : Arch 32} {word : BitVec 32} {C : IssConfig} {σ : Iss}
  {k : ℕ} (hC : C.xlen = 32) (hsize : C.memSize = 2 ^ k) (hk : 2 ^ k ≤ 0x10000000)
  (hm : σ.Matches C a) (hmask : a.csr.privState.Masked) (hword : imemRead P a.pc = word)
  (hlegal : legalWord word = true) (hpriv : a.csr.privMode = privM)

include hC hsize hk hm hmask hword hlegal hpriv

/-- In machine mode the simulator makes of a legal word what the sequential machine makes of it. -/
theorem agrees_of_legal (hpc : a.pc.toNat + 4 < 2 ^ 32) (heven : a.pc.toNat % 2 = 0)
    (hin : σ.inRam C word) (htime : timeFree word = true) : Agrees C P p word σ a := by
  have hmem := opcodeOf_mem hlegal
  simp only [legalOpcodes, List.mem_cons, List.not_mem_nil, or_false] at hmem
  rcases hmem with h | h | h | h | h | h | h | h | h | h | h
  · exact agrees_rtype hC hm hword hlegal hpriv hpc h
  · exact agrees_itype hC hm hword hlegal hpriv hpc h
  · exact agrees_load hC hsize hk hm hword hlegal hpriv hpc hin h
  · exact agrees_store hC hm hword hlegal hpriv hpc h
  · exact agrees_branch hC hm hword hlegal hpriv hpc heven h
  · exact agrees_jal hC hm hword hlegal hpriv hpc heven h
  · exact agrees_jalr hC hm hword hlegal hpriv hpc h
  · exact agrees_lui hC hm hword hlegal hpriv hpc h
  · exact agrees_auipc hC hm hword hlegal hpriv hpc h
  · exact agrees_fence hm hword hlegal hpriv hpc h
  · exact agrees_system hC hm hmask hword hlegal hpriv hpc h htime

end Agree

end RvPipeline
