import RvPipeline.Iss.Straight
import RvPipeline.Iss.Match

/-!
# Legal instructions

The words of RV32I, the M extension and Zicsr with `ecall`, `ebreak` and `mret`, and what the
sequential machine and the simulator make of each class of them in machine mode.
-/

namespace RvPipeline

/-! ## Words -/

/-- A 32-bit instruction of RV32I, M or Zicsr, or `ecall`, `ebreak` or `mret`. -/
def legalWord (word : BitVec 32) : Bool :=
  let op := opcodeOf word
  let f3 := funct3Of word
  if op = opcodeR then legalR (funct7Of word) f3
  else if op = opcodeI then legalI (funct7Of word) f3
  else if op = opcodeLoad then
    f3 == 0b000#3 || f3 == 0b001#3 || f3 == 0b010#3 || f3 == 0b100#3 || f3 == 0b101#3
  else if op = opcodeStore then f3 == 0b000#3 || f3 == 0b001#3 || f3 == 0b010#3
  else if op = opcodeBranch then f3 != 0b010#3 && f3 != 0b011#3
  else if op = opcodeJalr then f3 == 0b000#3
  else if op = opcodeMiscMem then f3 == 0b000#3
  else if op = opcodeSystem then
    if f3 = csrF3None then word == 0x00000073#32 || word == 0x00100073#32 || word == 0x30200073#32
    else f3 != 0b100#3
  else decide (op = opcodeJal ∨ op = opcodeLui ∨ op = opcodeAuipc)

/-- The ID/EX record of a word. -/
def Reg2.ofWord (pc : BitVec 32) (word : BitVec 32) : Reg2 32 :=
  { valid := true
    ctl := decodeControl 32 word
    writeToReg := rdOf word
    ctx :=
      { pc := pc, readData1 := 0, readData2 := 0, freadData1 := 0, freadData2 := 0
        freadData3 := 0, imm := immGen 32 word, funct7 := funct7Of word, funct3 := funct3Of word
        readReg1 := rs1Of word, readReg2 := rs2Of word, readReg3 := rs3Of word
        predictTaken := false, predictTarget := 0, ifetchFault := false, isCompressed := false }
    inst := word }

/-- The opcodes of the legal words. -/
def legalOpcodes : List (BitVec 7) :=
  [opcodeR, opcodeI, opcodeLoad, opcodeStore, opcodeBranch, opcodeJal, opcodeJalr, opcodeLui,
    opcodeAuipc, opcodeMiscMem, opcodeSystem]

theorem opcodeOf_mem {word : BitVec 32} (h : legalWord word = true) :
    opcodeOf word ∈ legalOpcodes := by
  unfold legalWord at h
  by_contra hno
  simp only [legalOpcodes, List.mem_cons, List.not_mem_nil, or_false, not_or] at hno
  simp [hno] at h

theorem isCompressedWord_of_legal {word : BitVec 32} (h : legalWord word = true) :
    isCompressedWord word = false := by
  have hlow : word.extractLsb' 0 2 = (opcodeOf word).extractLsb' 0 2 := by
    apply BitVec.eq_of_getLsbD_eq
    intro i hi
    simp [opcodeOf, hi]
  have hall : ∀ op ∈ legalOpcodes, op.extractLsb' 0 2 = 0b11#2 := by decide
  rw [isCompressedWord, hlow, hall _ (opcodeOf_mem h)]
  rfl

section Machine

variable {P : Params} {p : Pending} {a : Arch 32} {word : BitVec 32}
  (hword : imemRead P a.pc = word) (hlegal : legalWord word = true)

include hword hlegal

theorem instAt_of_legal : instAt P a.pc = word := by
  rw [instAt, expandInst, hword, isCompressedWord_of_legal hlegal, if_neg Bool.false_ne_true]

theorem Arch.issued_of_legal : a.issued P = .ofWord a.pc word := by
  rw [Arch.issued, issue, instAt_of_legal hword hlegal, hword, isCompressedWord_of_legal hlegal]
  rfl

theorem Arch.operands_of_legal : a.operands P = readOperands a.regs a.fregs word := by
  rw [Arch.operands, instAt_of_legal hword hlegal]

end Machine

/-! ## Control bits -/

section Control

variable {word : BitVec 32}

theorem not_float_of_legal (h : legalWord word = true) (pc : BitVec 32) :
    (Reg2.ofWord pc word).isOpFp = false ∧ (Reg2.ofWord pc word).isFma = false ∧
      (Reg2.ofWord pc word).isLoadFp = false ∧ (Reg2.ofWord pc word).isStoreFp = false ∧
      (Reg2.ofWord pc word).wordOp = false := by
  have hall : ∀ op ∈ legalOpcodes, (op == opcodeFp) = false ∧ isFmaOpcode op = false ∧
      (op == opcodeLoadFp) = false ∧ (op == opcodeStoreFp) = false ∧
      (op == opcodeOp32 || op == opcodeOpImm32) = false := by decide
  exact hall _ (opcodeOf_mem h)

/-- In machine mode nothing violates its privilege. -/
theorem exceptionTaken_ofWord (pc : BitVec 32) :
    (Reg2.ofWord pc word).exceptionTaken privM false =
      ((decodeControl 32 word).illegalOpcode || (Reg2.ofWord pc word).aluCtl == .illegal ||
        (decodeControl 32 word).isEcall || (decodeControl 32 word).isEbreak) := by
  have hpriv : ∀ q : BitVec 2, ¬privM < q := by decide
  have hu : (privM == privU) = false := by decide
  simp only [Reg2.exceptionTaken, Reg2.illegal, Reg2.csrPrivViolation, Reg2.mretPrivViolation,
    Reg2.sretPrivViolation, Reg2.sfencePrivViolation, Reg2.ofWord, hpriv, hu, bne_self_eq_false,
    decide_false, Bool.and_false, Bool.or_false]

variable {P : Params} {p : Pending} {a : Arch 32}

/-- An instruction that neither traps nor touches the CSR file. -/
theorem Arch.outcome_of_quiet (hword : imemRead P a.pc = word) (hlegal : legalWord word = true)
    (hpriv : a.csr.privMode = privM)
    (hex : (Reg2.ofWord a.pc word).exceptionTaken privM false = false)
    (hcsr : (decodeControl 32 word).isCsr = false) (hmret : (decodeControl 32 word).isMret = false)
    (hsret : (decodeControl 32 word).isSret = false) :
    a.outcome P p =
      { wx := if (decodeControl 32 word).regWrite then some (a.result P p) else none
        wm := if (decodeControl 32 word).memWrite then
            some ((Reg2.ofWord a.pc word).aluOut (readOperands a.regs a.fregs word),
              a.regs.get (rs2Of word))
          else none
        pc := (Reg2.ofWord a.pc word).resolvedNext (readOperands a.regs a.fregs word)
        csr := a.csr } := by
  obtain ⟨hop, hfma, -, hst, -⟩ := not_float_of_legal hlegal a.pc
  have hiss := Arch.issued_of_legal hword hlegal
  have hops := Arch.operands_of_legal hword hlegal
  have htraps : a.traps P = false := by rw [Arch.traps, hiss, hpriv, hex]
  have hmret' : (Reg2.ofWord a.pc word).mretReal privM = false := by
    simp [Reg2.mretReal, Reg2.ofWord, hmret]
  have hsret' : (Reg2.ofWord a.pc word).sretReal privM = false := by
    simp [Reg2.sretReal, Reg2.ofWord, hsret]
  have hcsr' : (Reg2.ofWord a.pc word).ctl.isCsr = false := hcsr
  have hkeep : (Reg2.ofWord a.pc word).csrAfter (readOperands a.regs a.fregs word) a.csr p =
      a.csr := by
    simp [Reg2.csrAfter, Csr.nextWith, Csr.nextMstatus, Csr.nextPrivMode, Csr.trapTargetIsS,
      Reg2.csrPort, hpriv, hex, hmret', hsret', hcsr', hop, hfma]
    rw [← hpriv]
  have hpc : (Reg2.ofWord a.pc word).pcAfter (readOperands a.regs a.fregs word) a.csr =
      (Reg2.ofWord a.pc word).resolvedNext (readOperands a.regs a.fregs word) := by
    simp [Reg2.pcAfter, hpriv, hex, hmret', hsret']
  have hdata : (Reg2.ofWord a.pc word).storeData (readOperands a.regs a.fregs word) =
      a.regs.get (rs2Of word) := by
    simp [Reg2.storeData, hst, readOperands]
  unfold Arch.outcome
  rw [Arch.writesX, Arch.stores, Arch.address, htraps, hiss, hops, hkeep, hpc, hdata]
  rfl

theorem Reg2.execInt_eq {r : Reg2 32} (h : r.wordOp = false) (o : Operands 32) :
    (if r.isDivRem then r.divValue o else r.aluOut o) =
      execInt r.aluCtl (r.aluA o) (r.immRegVal o) := by
  unfold Reg2.isDivRem Reg2.divValue Reg2.divResult Reg2.divDividend Reg2.divDivisor Reg2.divOperand
    Reg2.isDivSigned Reg2.aluOut execInt
  rw [h]
  cases r.aluCtl <;> rfl

/-- An instruction whose result comes out of the ALU or the divider. -/
theorem Arch.outcome_of_arith (hword : imemRead P a.pc = word) (hlegal : legalWord word = true)
    (hpriv : a.csr.privMode = privM) {op : AluOp} {src lui auipc : Bool}
    (hctl : decodeControl 32 word =
      { aluOp := op, aluSrc := src, regWrite := true, lui := lui, auipc := auipc })
    (hill : (Reg2.ofWord a.pc word).aluCtl ≠ .illegal) :
    a.outcome P p =
      { wx := some (execInt (Reg2.ofWord a.pc word).aluCtl
          ((Reg2.ofWord a.pc word).aluA (readOperands a.regs a.fregs word))
          ((Reg2.ofWord a.pc word).immRegVal (readOperands a.regs a.fregs word)))
        wm := none
        pc := a.pc + 4
        csr := a.csr } := by
  obtain ⟨hop, hfma, -, -, hwop⟩ := not_float_of_legal hlegal a.pc
  have hctl' : (Reg2.ofWord a.pc word).ctl =
      { aluOp := op, aluSrc := src, regWrite := true, lui := lui, auipc := auipc } := hctl
  have hex : (Reg2.ofWord a.pc word).exceptionTaken privM false = false := by
    rw [exceptionTaken_ofWord, hctl]
    simpa using hill
  have hres : a.result P p = execInt (Reg2.ofWord a.pc word).aluCtl
      ((Reg2.ofWord a.pc word).aluA (readOperands a.regs a.fregs word))
      ((Reg2.ofWord a.pc word).immRegVal (readOperands a.regs a.fregs word)) := by
    rw [Arch.result, Arch.issued_of_legal hword hlegal, Arch.operands_of_legal hword hlegal,
      ← Reg2.execInt_eq hwop, Reg2.value, hop, hfma, hctl']
    rfl
  have hnext : (Reg2.ofWord a.pc word).resolvedNext (readOperands a.regs a.fregs word) =
      a.pc + 4 := by
    rw [Reg2.resolvedNext, Reg2.desiredTaken, hctl']
    rfl
  rw [Arch.outcome_of_quiet hword hlegal hpriv hex, hres, hnext, hctl]
  · rfl
  all_goals rw [hctl]

/-- A jump writes the link. -/
theorem Arch.outcome_of_jump (hword : imemRead P a.pc = word) (hlegal : legalWord word = true)
    (hpriv : a.csr.privMode = privM) {jalr : Bool}
    (hctl : decodeControl 32 word = { regWrite := true, jump := true, jalr := jalr }) :
    a.outcome P p =
      { wx := some (a.pc + 4)
        wm := none
        pc := (Reg2.ofWord a.pc word).immSum (readOperands a.regs a.fregs word)
        csr := a.csr } := by
  have hctl' : (Reg2.ofWord a.pc word).ctl = { regWrite := true, jump := true, jalr := jalr } :=
    hctl
  have hres : a.result P p = a.pc + 4 := by
    rw [Arch.result, Arch.issued_of_legal hword hlegal, hctl']
    rfl
  have hnext : (Reg2.ofWord a.pc word).resolvedNext (readOperands a.regs a.fregs word) =
      (Reg2.ofWord a.pc word).immSum (readOperands a.regs a.fregs word) := by
    simp [Reg2.resolvedNext, Reg2.desiredTaken, hctl']
  rw [Arch.outcome_of_quiet hword hlegal hpriv, hres, hnext, hctl]
  · rfl
  · rw [exceptionTaken_ofWord, hctl]
    simp [Reg2.aluCtl, hctl', aluCtrl]
  all_goals rw [hctl]

/-! ## Classes of instructions -/

theorem decodeControl_rtype (h : opcodeOf word = opcodeR) :
    decodeControl 32 word = { aluOp := .rtype, regWrite := true } := by
  rw [decodeControl, h]
  rfl

theorem decodeControl_itype (h : opcodeOf word = opcodeI) :
    decodeControl 32 word = { aluOp := .itype, aluSrc := true, regWrite := true } := by
  rw [decodeControl, h]
  rfl

theorem decodeControl_load (h : opcodeOf word = opcodeLoad) : decodeControl 32 word =
    { memRead := true, memtoReg := true, aluSrc := true, regWrite := true } := by
  rw [decodeControl, h]
  rfl

theorem decodeControl_store (h : opcodeOf word = opcodeStore) :
    decodeControl 32 word = { memWrite := true, aluSrc := true } := by
  rw [decodeControl, h]
  rfl

theorem decodeControl_branch (h : opcodeOf word = opcodeBranch) :
    decodeControl 32 word = { branch := true, aluOp := .branch } := by
  rw [decodeControl, h]
  rfl

theorem decodeControl_jal (h : opcodeOf word = opcodeJal) :
    decodeControl 32 word = { regWrite := true, jump := true } := by
  rw [decodeControl, h]
  rfl

theorem decodeControl_jalr (h : opcodeOf word = opcodeJalr) :
    decodeControl 32 word = { regWrite := true, jump := true, jalr := true } := by
  rw [decodeControl, h]
  rfl

theorem decodeControl_lui (h : opcodeOf word = opcodeLui) :
    decodeControl 32 word = { aluSrc := true, regWrite := true, lui := true } := by
  rw [decodeControl, h]
  rfl

theorem decodeControl_auipc (h : opcodeOf word = opcodeAuipc) :
    decodeControl 32 word = { aluSrc := true, regWrite := true, auipc := true } := by
  rw [decodeControl, h]
  rfl

theorem decodeControl_fence (h : opcodeOf word = opcodeMiscMem) (hf : funct3Of word = 0b000#3) :
    decodeControl 32 word = { isFence := true } := by
  rw [decodeControl, h, hf]
  rfl

theorem decodeControl_csr (h : opcodeOf word = opcodeSystem) (hf : funct3Of word ≠ csrF3None) :
    decodeControl 32 word = { isCsr := true, regWrite := true } := by
  rw [decodeControl, h]
  change (if funct3Of word = csrF3None then _ else _) = _
  rw [if_neg hf]

end Control

/-! ## Targets -/

/-- An offset in halfwords, sign-extended before or after the shift. -/
theorem shiftLeftOne_signExtend {n : ℕ} (hn : n ≤ 30) (x : BitVec n) :
    shiftLeftOne ((x.signExtend 31).setWidth 32) = (x ++ 0#1).signExtend 32 := by
  have hmsb : (x ++ 0#1).msb = x.msb := by
    rcases Nat.eq_zero_or_pos n with rfl | hpos
    · simp [BitVec.eq_nil x]
    · simp [BitVec.msb_append, hpos.ne']
  apply BitVec.eq_of_getLsbD_eq
  intro i hi
  rw [shiftLeftOne, BitVec.getLsbD_shiftLeft, BitVec.getLsbD_signExtend, hmsb]
  rcases Nat.eq_zero_or_pos i with rfl | hpos
  · simp [BitVec.getElem_append]
  · have hne : ¬i < 1 := by omega
    have h31 : i - 1 < 31 := by omega
    have h32 : i - 1 < 32 := by omega
    have hn1 : i - 1 < n ↔ i < n + 1 := by omega
    simp only [BitVec.getLsbD_setWidth, BitVec.getLsbD_signExtend, BitVec.getLsbD_append, hi, hne,
      h31, h32, hn1, decide_true, decide_false, Bool.not_false, Bool.true_and, if_false]

/-- Clearing the lowest bit. -/
theorem toNat_putBit_zero (v : BitVec 32) : (putBit v 0 false).toNat = v.toNat - v.toNat % 2 := by
  have hshift : putBit v 0 false = (v >>> 1) <<< 1 := by
    apply BitVec.eq_of_getLsbD_eq
    intro i hi
    rcases Nat.eq_zero_or_pos i with rfl | hpos
    · simp [putBit]
    · have hne : ¬i < 1 := by omega
      have hsucc : 1 + (i - 1) = i := by omega
      simp [putBit, hi, hne, hsucc, hpos.ne']
  have hlt := v.isLt
  rw [hshift, BitVec.toNat_shiftLeft, BitVec.toNat_ushiftRight, Nat.shiftLeft_eq,
    Nat.shiftRight_eq_div_pow]
  omega

theorem putBit_even {v : BitVec 32} (h : v.toNat % 2 = 0) : putBit v 0 false = v := by
  apply BitVec.eq_of_toNat_eq
  rw [toNat_putBit_zero, h, Nat.sub_zero]

/-- From an even address an even offset leads to an even address. -/
theorem target_even {pc off : BitVec 32} {d : ℤ} (hpc : pc.toNat % 2 = 0)
    (hoff : off = BitVec.ofInt 32 d) (hd : d % 2 = 0) :
    putBit (pc + off) 0 false = pc + BitVec.ofInt 32 d := by
  rw [hoff]
  apply putBit_even
  rw [BitVec.toNat_add, BitVec.toNat_ofInt]
  omega

theorem toInt_append_zero {n : ℕ} (x : BitVec n) : (x ++ 0#1).toInt % 2 = 0 := by
  rw [BitVec.toInt_eq_toNat_cond, BitVec.toNat_append, Nat.shiftLeft_eq, pow_succ]
  have hzero : (0#1).toNat = 0 := rfl
  rw [hzero, Nat.or_zero]
  push_cast
  split_ifs <;> omega

theorem branchOffset_even (word : BitVec 32) : IssConfig.branchOffset word % 2 = 0 :=
  toInt_append_zero _

theorem jalOffset_even (word : BitVec 32) : IssConfig.jalOffset word % 2 = 0 :=
  toInt_append_zero _

theorem branchTaken_eq {C : IssConfig} (hC : C.xlen = 32) (A B : BitVec 32) {f3 : BitVec 3}
    (h : (f3 != 0b010#3 && f3 != 0b011#3) = true) (f7 : BitVec 7) :
    C.branchTaken f3 A.toNat B.toNat = aluZero (aluCtrl .branch f7 f3) A B := by
  rcases funct3_cases f3 with rfl | rfl | rfl | rfl | rfl | rfl | rfl | rfl
  · change (C.sxlen A.toNat == C.sxlen B.toNat) = (A == B)
    rw [IssConfig.sxlen_toNat hC, IssConfig.sxlen_toNat hC, Bool.eq_iff_iff, beq_iff_eq, beq_iff_eq,
      BitVec.toInt_inj]
  · change (C.sxlen A.toNat != C.sxlen B.toNat) = (A != B)
    rw [IssConfig.sxlen_toNat hC, IssConfig.sxlen_toNat hC, Bool.eq_iff_iff, bne_iff_ne, bne_iff_ne,
      ne_eq, BitVec.toInt_inj]
  · exact absurd h (by decide)
  · exact absurd h (by decide)
  · change decide (C.sxlen A.toNat < C.sxlen B.toNat) = A.slt B
    rw [IssConfig.sxlen_toNat hC, IssConfig.sxlen_toNat hC]
    rfl
  · change decide (C.sxlen B.toNat ≤ C.sxlen A.toNat) = B.sle A
    rw [IssConfig.sxlen_toNat hC, IssConfig.sxlen_toNat hC]
    rfl
  · change decide (C.uxlen A.toNat < C.uxlen B.toNat) = A.ult B
    rw [IssConfig.uxlen_toNat hC, IssConfig.uxlen_toNat hC]
    rfl
  · change decide (C.uxlen B.toNat ≤ C.uxlen A.toNat) = B.ule A
    rw [IssConfig.uxlen_toNat hC, IssConfig.uxlen_toNat hC]
    rfl

/-! ## Arithmetic -/

theorem immGen_upper {word : BitVec 32}
    (h : opcodeOf word = opcodeLui ∨ opcodeOf word = opcodeAuipc) :
    immGen 32 word = (word.extractLsb' 12 20 ++ 0#12 : BitVec 32) := by
  have hop : word.extractLsb' 0 7 = opcodeLui ∨ word.extractLsb' 0 7 = opcodeAuipc := h
  rcases hop with hop | hop
  · simp only [immGen, hop]
    exact BitVec.signExtend_eq _
  · simp only [immGen, hop]
    exact BitVec.signExtend_eq _

theorem aluCtrl_of_legalR {f7 : BitVec 7} {f3 : BitVec 3} (h : legalR f7 f3 = true) :
    aluCtrl .rtype f7 f3 ≠ .illegal := by
  simp only [legalR, Bool.or_eq_true, Bool.and_eq_true, beq_iff_eq] at h
  rcases h with (rfl | rfl) | ⟨rfl, rfl | rfl⟩
  · revert f3
    decide
  · revert f3
    decide
  · decide
  · decide

theorem aluCtrl_branch (f7 : BitVec 7) (f3 : BitVec 3) : aluCtrl .branch f7 f3 ≠ .illegal := by
  unfold aluCtrl
  dsimp only
  split_ifs <;> decide

theorem execInt_itype (f7 : BitVec 7) (f3 : BitVec 3) (A B : BitVec 32) :
    aluCtrl .itype f7 f3 ≠ .illegal ∧
      execInt (aluCtrl .itype f7 f3) A B = aluOut (aluCtrl .itype f7 f3) A B false := by
  unfold aluCtrl
  dsimp only
  split_ifs <;> exact ⟨by decide, rfl⟩

section Agree

variable {P : Params} {p : Pending} {a : Arch 32} {word : BitVec 32} {C : IssConfig} {σ : Iss}

/-- The simulator executes the word and makes the outcome of the sequential machine. -/
def Agrees (C : IssConfig) (P : Params) (p : Pending) (word : BitVec 32) (σ : Iss) (a : Arch 32) :
    Prop :=
  ∃ σ', σ.step C word = some σ' ∧ σ.Applies C word σ' (a.outcome P p)

theorem ne_zero_of_opcode {op : BitVec 7} (h : opcodeOf word = op) (hop : op ≠ 0) : word ≠ 0 := by
  rintro rfl
  exact hop h.symm

variable (hC : C.xlen = 32) (hm : σ.Matches C a) (hword : imemRead P a.pc = word)
  (hlegal : legalWord word = true) (hpriv : a.csr.privMode = privM)

include hC hm

/-- A step that writes a register and goes on at some address. -/
theorem agrees_of_jump (v q : BitVec 32) (res : ℤ) (t : ℕ) (hres : C.uxlen res = v.toNat)
    (ht : t = q.toNat) (hstep : σ.step C word = some { σ.wr C (rdOf word) res with pc := t })
    (hout : a.outcome P p = { wx := some v, wm := none, pc := q, csr := a.csr }) :
    Agrees C P p word σ a := by
  have hwr : σ.wr C (rdOf word) res = σ.wr C (rdOf word) v.toNat := by
    simp only [Iss.wr, hres, IssConfig.uxlen_toNat hC]
  obtain ⟨hmem, htm, htc, hcsr⟩ := Iss.wr_mem (C := C) (σ := σ) (rdOf word) v.toNat
  rw [hwr] at hstep
  refine ⟨_, hstep, ?_⟩
  rw [hout]
  exact
    { regs := rfl
      x := rfl
      mem := hmem
      m := htm
      c := htc
      pc := ht
      csr := hcsr.trans hm.csr }

omit hC in
theorem next_pc_eq (hpc : a.pc.toNat + 4 < 2 ^ 32) : σ.pc + 4 = (a.pc + 4).toNat := by
  rw [hm.pc, BitVec.toNat_add, Nat.mod_eq_of_lt (by simpa using hpc)]
  rfl

/-- A step that writes a register and goes on to the next word. -/
theorem agrees_of_write (v : BitVec 32) (res : ℤ) (hres : C.uxlen res = v.toNat)
    (hpc : a.pc.toNat + 4 < 2 ^ 32)
    (hstep : σ.step C word = some { σ.wr C (rdOf word) res with pc := σ.pc + 4 })
    (hout : a.outcome P p = { wx := some v, wm := none, pc := a.pc + 4, csr := a.csr }) :
    Agrees C P p word σ a :=
  agrees_of_jump hC hm v (a.pc + 4) res (σ.pc + 4) hres (next_pc_eq hm hpc) hstep hout

omit hC in
/-- A step that does nothing but move on. -/
theorem agrees_of_goto {q : BitVec 32} {t : ℕ} (ht : t = q.toNat)
    (hstep : σ.step C word = some { σ with pc := t })
    (hout : a.outcome P p = { wx := none, wm := none, pc := q, csr := a.csr }) :
    Agrees C P p word σ a := by
  refine ⟨_, hstep, ?_⟩
  rw [hout]
  exact { regs := rfl, x := rfl, mem := rfl, m := rfl, c := rfl, pc := ht, csr := hm.csr }

include hword hlegal hpriv

theorem agrees_rtype (hpc : a.pc.toNat + 4 < 2 ^ 32) (hop : opcodeOf word = opcodeR) :
    Agrees C P p word σ a := by
  have hl : legalR (funct7Of word) (funct3Of word) = true := by
    rw [legalWord, hop] at hlegal
    exact hlegal
  have hctl := decodeControl_rtype hop
  set A := a.regs.get (rs1Of word)
  set B := a.regs.get (rs2Of word)
  have hres := IssConfig.rtype_eq hC A B hl
  apply agrees_of_write hC hm (execInt (aluCtrl .rtype (funct7Of word) (funct3Of word)) A B) _
    (IssConfig.uxlen_toNat hC _) hpc
  · rw [Iss.step, if_neg (ne_zero_of_opcode hop (by decide))]
    simp only [hop, if_true, hm.regs]
    rw [hres]
    rfl
  · rw [Arch.outcome_of_arith hword hlegal hpriv hctl]
    · simp [Reg2.aluCtl, Reg2.aluA, Reg2.immRegVal, Reg2.ofWord, hctl, readOperands, A, B]
    · rw [Reg2.aluCtl, show (Reg2.ofWord a.pc word).ctl.aluOp = .rtype by simp [Reg2.ofWord, hctl]]
      exact aluCtrl_of_legalR hl

theorem agrees_itype (hpc : a.pc.toNat + 4 < 2 ^ 32) (hop : opcodeOf word = opcodeI) :
    Agrees C P p word σ a := by
  have hl : legalI (funct7Of word) (funct3Of word) = true := by
    rw [legalWord, hop] at hlegal
    exact hlegal
  have hctl := decodeControl_itype hop
  set A := a.regs.get (rs1Of word)
  have hres := IssConfig.itype_eq hC A hop hl
  obtain ⟨hill, hexec⟩ := execInt_itype (funct7Of word) (funct3Of word) A (immGen 32 word)
  apply agrees_of_write hC hm
    (aluOut (aluCtrl .itype (funct7Of word) (funct3Of word)) A (immGen 32 word) false) _
    (IssConfig.uxlen_toNat hC _) hpc
  · rw [Iss.step, if_neg (ne_zero_of_opcode hop (by decide))]
    simp only [hop, hm.regs]
    rw [hres]
    rfl
  · rw [Arch.outcome_of_arith hword hlegal hpriv hctl]
    · simp [Reg2.aluCtl, Reg2.aluA, Reg2.immRegVal, Reg2.ofWord, hctl, readOperands, A, hexec]
    · simpa [Reg2.aluCtl, Reg2.ofWord, hctl] using hill

theorem agrees_lui (hpc : a.pc.toNat + 4 < 2 ^ 32) (hop : opcodeOf word = opcodeLui) :
    Agrees C P p word σ a := by
  have hctl := decodeControl_lui hop
  have himm : immGen 32 word = word &&& 0xFFFFF000#32 := by
    rw [← upper_eq]
    exact immGen_upper (.inl hop)
  apply agrees_of_write hC hm (word &&& 0xFFFFF000#32)
    (s32 (word &&& 0xFFFFF000#32).toNat) ?_ hpc
  · rw [Iss.step, if_neg (ne_zero_of_opcode hop (by decide))]
    simp only [hop]
    rfl
  · rw [Arch.outcome_of_arith hword hlegal hpriv hctl]
    · simp [Reg2.aluCtl, Reg2.aluA, Reg2.immRegVal, Reg2.ofWord, hctl, himm, aluCtrl, execInt, aluOut]
    · simp [Reg2.aluCtl, Reg2.ofWord, hctl, aluCtrl]
  · rw [s32, sXlen_toNat, IssConfig.uxlen_eq hC, BitVec.ofInt_toInt]

theorem agrees_auipc (hpc : a.pc.toNat + 4 < 2 ^ 32) (hop : opcodeOf word = opcodeAuipc) :
    Agrees C P p word σ a := by
  have hctl := decodeControl_auipc hop
  have himm : immGen 32 word = word &&& 0xFFFFF000#32 := by
    rw [← upper_eq]
    exact immGen_upper (.inr hop)
  apply agrees_of_write hC hm (a.pc + (word &&& 0xFFFFF000#32))
    (C.uxlen (σ.pc + s32 (word &&& 0xFFFFF000#32).toNat)) ?_ hpc
  · rw [Iss.step, if_neg (ne_zero_of_opcode hop (by decide))]
    simp only [hop]
    rfl
  · rw [Arch.outcome_of_arith hword hlegal hpriv hctl]
    · simp [Reg2.aluCtl, Reg2.aluA, Reg2.immRegVal, Reg2.ofWord, hctl, himm, aluCtrl, execInt, aluOut]
    · simp [Reg2.aluCtl, Reg2.ofWord, hctl, aluCtrl]
  · rw [s32, sXlen_toNat, hm.pc, IssConfig.uxlen_eq hC (_ + _), IssConfig.uxlen_toNat hC,
      BitVec.ofInt_add, BitVec.ofInt_toInt, ofInt_natCast_toNat]

/-! ## Control transfer -/

omit hC in
theorem agrees_fence (hpc : a.pc.toNat + 4 < 2 ^ 32) (hop : opcodeOf word = opcodeMiscMem) :
    Agrees C P p word σ a := by
  have hf : funct3Of word = 0b000#3 := by
    rw [legalWord, hop] at hlegal
    exact beq_iff_eq.1 hlegal
  have hctl := decodeControl_fence hop hf
  apply agrees_of_goto hm (next_pc_eq hm hpc)
  · rw [Iss.step, if_neg (ne_zero_of_opcode hop (by decide))]
    simp only [hop, hf]
    rfl
  · rw [Arch.outcome_of_quiet hword hlegal hpriv, hctl]
    · simp [Reg2.resolvedNext, Reg2.desiredTaken, Reg2.pcPlus4, Reg2.ofWord, hctl]
    · rw [exceptionTaken_ofWord, hctl]
      simp [Reg2.aluCtl, Reg2.ofWord, hctl, aluCtrl]
    all_goals rw [hctl]

theorem agrees_branch (hpc : a.pc.toNat + 4 < 2 ^ 32) (heven : a.pc.toNat % 2 = 0)
    (hop : opcodeOf word = opcodeBranch) : Agrees C P p word σ a := by
  have hl : (funct3Of word != 0b010#3 && funct3Of word != 0b011#3) = true := by
    rw [legalWord, hop] at hlegal
    exact hlegal
  have hctl := decodeControl_branch hop
  set A := a.regs.get (rs1Of word)
  set B := a.regs.get (rs2Of word)
  have htaken := branchTaken_eq hC A B hl (funct7Of word)
  have hoff : shiftLeftOne (immGen 32 word) = BitVec.ofInt 32 (IssConfig.branchOffset word) := by
    have hop' : word.extractLsb' 0 7 = opcodeBranch := hop
    simp only [immGen, hop']
    exact shiftLeftOne_signExtend (by decide) _
  have htarget := target_even heven hoff (branchOffset_even word)
  apply agrees_of_goto hm (q := if aluZero (aluCtrl .branch (funct7Of word) (funct3Of word)) A B
    then a.pc + BitVec.ofInt 32 (IssConfig.branchOffset word) else a.pc + 4) ?_
  · rw [Iss.step, if_neg (ne_zero_of_opcode hop (by decide))]
    simp only [hop, hm.regs]
    rfl
  · rw [Arch.outcome_of_quiet hword hlegal hpriv, hctl]
    · simp [Reg2.resolvedNext, Reg2.desiredTaken, Reg2.pcPlus4, Reg2.immSum, Reg2.zero, Reg2.aluCtl,
        Reg2.aluA, Reg2.immRegVal, Reg2.ofWord, hctl, htarget, readOperands, A, B]
    · rw [exceptionTaken_ofWord, hctl]
      simpa [Reg2.aluCtl, Reg2.ofWord, hctl] using aluCtrl_branch (funct7Of word) (funct3Of word)
    all_goals rw [hctl]
  · change (if C.branchTaken (funct3Of word) A.toNat B.toNat then
      C.uxlen (σ.pc + IssConfig.branchOffset word) else σ.pc + 4) = _
    rw [htaken, next_pc_eq hm hpc, hm.pc, IssConfig.uxlen_eq hC, BitVec.ofInt_add,
      ofInt_natCast_toNat]
    split_ifs <;> rfl

theorem agrees_jal (hpc : a.pc.toNat + 4 < 2 ^ 32) (heven : a.pc.toNat % 2 = 0)
    (hop : opcodeOf word = opcodeJal) : Agrees C P p word σ a := by
  have hctl := decodeControl_jal hop
  have hoff : shiftLeftOne (immGen 32 word) = BitVec.ofInt 32 (IssConfig.jalOffset word) := by
    have hop' : word.extractLsb' 0 7 = opcodeJal := hop
    simp only [immGen, hop']
    exact shiftLeftOne_signExtend (by decide) _
  have htarget := target_even heven hoff (jalOffset_even word)
  apply agrees_of_jump hC hm (a.pc + 4)
    (a.pc + BitVec.ofInt 32 (IssConfig.jalOffset word)) (σ.pc + 4)
    (C.uxlen (σ.pc + IssConfig.jalOffset word))
  · have hnext := next_pc_eq hm hpc
    norm_cast
    rw [hnext, IssConfig.uxlen_toNat hC]
  · rw [IssConfig.uxlen_eq hC, BitVec.ofInt_add, hm.pc, ofInt_natCast_toNat]
  · rw [Iss.step, if_neg (ne_zero_of_opcode hop (by decide))]
    simp only [hop]
    rfl
  · rw [Arch.outcome_of_jump hword hlegal hpriv hctl]
    simp [Reg2.immSum, Reg2.ofWord, hctl, htarget]

theorem agrees_jalr (hpc : a.pc.toNat + 4 < 2 ^ 32) (hop : opcodeOf word = opcodeJalr) :
    Agrees C P p word σ a := by
  have hctl := decodeControl_jalr hop
  set A := a.regs.get (rs1Of word)
  have himm : immGen 32 word = BitVec.ofInt 32 (IssConfig.immI word) := by
    have hop' : word.extractLsb' 0 7 = opcodeJalr := hop
    simp only [immGen, hop']
    rfl
  apply agrees_of_jump hC hm (a.pc + 4)
    (putBit (A + BitVec.ofInt 32 (IssConfig.immI word)) 0 false) (σ.pc + 4)
    (C.jalrTarget word A.toNat)
  · have hnext := next_pc_eq hm hpc
    norm_cast
    rw [hnext, IssConfig.uxlen_toNat hC]
  · rw [toNat_putBit_zero, IssConfig.jalrTarget, IssConfig.uxlen_eq hC, BitVec.toNat_ofInt,
      BitVec.toNat_add, BitVec.toNat_ofInt]
    omega
  · rw [Iss.step, if_neg (ne_zero_of_opcode hop (by decide))]
    simp only [hop, hm.regs]
    rfl
  · rw [Arch.outcome_of_jump hword hlegal hpriv hctl]
    simp [Reg2.immSum, Reg2.ofWord, hctl, himm, readOperands, A]

end Agree

end RvPipeline
