import RvPipeline.Design.Pipeline
import RvPipeline.Fp.DivSqrt
import RvPipeline.Isa.Expansion
import RvPipeline.Iss.FloatStep
import RvPipeline.Lib.PyText
import Mathlib.Tactic

/-!
# Words that are no instruction

`implemented` says which words encode an instruction of the core: field by field where the word
ends in `11`, by the table of the C extension where only its low half counts.  The core expands the
fetched word before `Control.v` and `ALUCtrl.v` see it, `ISS.step` does not, and each has its own
default arms.  On full words they agree with `implemented`, and with each other, for the implemented
ones outside the A extension and for those that reach the default arm of `Control.v` or one of its
two reserved sub-cases; on the others hardly ever.
-/

namespace RvPipeline

/-! ## The instructions of the core -/

section Implemented

variable (w : ℕ) (word : BitVec 32)

/-- `rm` is one of the five rounding modes or dynamic. -/
def roundingMode (rm : BitVec 3) : Bool := rm != 0b101#3 && rm != 0b110#3

/-- The upper bits of a shift by an immediate: six from `XLEN` 64 on, seven below. -/
def shiftTop (alt : Bool) : Bool :=
  if 64 ≤ w then word.extractLsb' 26 6 == (if alt then funct6Alt else 0)
  else funct7Of word == (if alt then funct7Alt else 0)

def implementedFp : Bool :=
  let f3 := funct3Of word
  let rs2 := rs2Of word
  let funct5 := word.extractLsb' 27 5
  word.extractLsb' 25 2 == 0#2 &&
    if funct5 = funct5Fadd ∨ funct5 = funct5Fsub ∨ funct5 = funct5Fmul ∨ funct5 = funct5Fdiv then
      roundingMode f3
    else if funct5 = funct5Fsqrt then rs2 == 0 && roundingMode f3
    else if funct5 = funct5Fsgnj ∨ funct5 = funct5Fcmp then decide (f3 < 0b011#3)
    else if funct5 = funct5Fminmax then decide (f3 < 0b010#3)
    else if funct5 = funct5FcvtWS ∨ funct5 = funct5FcvtSW then
      (rs2 == 0 || rs2 == 1) && roundingMode f3
    else if funct5 = funct5FmvXWFclass then rs2 == 0 && (f3 == 0 || f3 == 1)
    else if funct5 = funct5FmvWX then rs2 == 0 && f3 == 0
    else false

def implementedAmo : Bool :=
  let f3 := funct3Of word
  let funct5 := word.extractLsb' 27 5
  (f3 == 0b010#3 || f3 == 0b011#3 && decide (64 ≤ w)) &&
    (funct5 ∈ [amoF5Add, 0b00001#5, 0b00011#5, amoF5Xor, amoF5Or, amoF5And, amoF5Min, amoF5Max,
        amoF5Minu, amoF5Maxu] || funct5 == amoF5Lr && rs2Of word == 0)

attribute [local instance] Py.decideMem in
def implementedSystem : Bool :=
  let f3 := funct3Of word
  if f3 = csrF3None then
    rdOf word == 0 &&
      (funct7Of word == funct7SfenceVma ||
        rs1Of word == 0 && csrImm12Of word ∈ [csrImm12Ecall, csrImm12Ebreak, csrImm12Mret,
          csrImm12Sret])
  else f3 != 0b100#3

/-- A word that ends in `11` encodes an instruction of the core. -/
def implementedLong : Bool :=
  let op := opcodeOf word
  let f3 := funct3Of word
  let f7 := funct7Of word
  if op = opcodeR then
    f7 == funct7Base || f7 == funct7Muldiv ||
      f7 == funct7Alt && (f3 == 0b000#3 || f3 == 0b101#3 || f3 == 0b111#3)
  else if op = opcodeOp32 then
    decide (64 ≤ w) &&
      (f7 == funct7Base && (f3 == 0b000#3 || f3 == 0b001#3 || f3 == 0b101#3) ||
        f7 == funct7Alt && (f3 == 0b000#3 || f3 == 0b101#3) ||
        f7 == funct7Muldiv && (f3 == 0b000#3 || decide (0b100#3 ≤ f3)))
  else if op = opcodeI then
    if f3 = 0b001#3 then shiftTop w word false
    else if f3 = 0b101#3 then shiftTop w word false || shiftTop w word true
    else true
  else if op = opcodeOpImm32 then
    decide (64 ≤ w) &&
      (f3 == 0b000#3 || f3 == 0b001#3 && f7 == funct7Base ||
        f3 == 0b101#3 && (f7 == funct7Base || f7 == funct7Alt))
  else if op = opcodeLoad then
    f3 ∈ [0b000#3, 0b001#3, 0b010#3, 0b100#3, 0b101#3] ||
      decide (64 ≤ w) && (f3 == 0b011#3 || f3 == 0b110#3)
  else if op = opcodeStore then decide (f3 < 0b011#3) || decide (64 ≤ w) && f3 == 0b011#3
  else if op = opcodeAmo then implementedAmo w word
  else if op = opcodeBranch ∨ op = opcodeJal ∨ op = opcodeLui ∨ op = opcodeAuipc then true
  else if op = opcodeJalr then f3 == 0b000#3
  else if op = opcodeSystem then implementedSystem word
  else if op = opcodeLoadFp ∨ op = opcodeStoreFp then f3 == 0b010#3
  else if op = opcodeFp then implementedFp word
  else if isFmaOpcode op then word.extractLsb' 25 2 == 0#2 && roundingMode f3
  else if op = opcodeMiscMem then f3 == 0b000#3
  else false

/-- The instructions of the table that the core has: no doubles, and from `XLEN` 64 on doublewords,
arithmetic on words and shifts by 32 and more. -/
def implementedInst : Rv64.Inst → Bool
  | .load .fd _ _ _ | .store .fd _ _ _ => false
  | .load .d _ _ _ | .store .d _ _ _ => decide (64 ≤ w)
  | .shift _ _ _ n => decide (64 ≤ w) || !n.msb
  | i => decide (64 ≤ w) || !i.isWord

/-- A half-word encodes an instruction of the core. -/
def implementedHalf (c : BitVec 16) : Bool := (Rv64.Compressed.decode c).any (implementedInst w)

/-- The word, or the half-word at its low end, encodes an instruction of the core. -/
def implemented : Bool :=
  if isCompressedWord word then implementedHalf w (word.extractLsb' 0 16)
  else implementedLong w word

end Implemented

/-! ## The two decoders -/

/-- `Control.v` or `ALUCtrl.v` flag what decode sees; in machine mode nothing else does. -/
def illegalInst (w : ℕ) (inst : BitVec 32) : Bool :=
  (decodeControl w inst).illegalOpcode ||
    aluCtrl (decodeControl w inst).aluOp (funct7Of inst) (funct3Of inst) == .illegal

/-- A fetched word is flagged: decode sees it expanded. -/
def illegalWord (w : ℕ) (word : BitVec 32) : Bool := illegalInst w (expandInst word)

/-- What the execute stage raises for a word that was fetched and decoded. -/
theorem Reg2.illegal_privM {w : ℕ} {r : Reg2 w} {word : BitVec 32} (hinst : r.inst = expandInst word)
    (hctl : r.ctl = decodeControl w r.inst) (hf7 : r.ctx.funct7 = funct7Of r.inst)
    (hf3 : r.ctx.funct3 = funct3Of r.inst) : r.illegal privM = illegalWord w word := by
  have hpriv : ∀ p : BitVec 2, decide (privM < p) = false := by decide
  have hu : (privM == privU) = false := by decide
  simp [Reg2.illegal, Reg2.csrPrivViolation, Reg2.mretPrivViolation, Reg2.sretPrivViolation,
    Reg2.sfencePrivViolation, hpriv, hu, illegalWord, illegalInst, Reg2.aluCtl, hctl, hf7, hf3,
    ← hinst]

namespace Iss

variable (C : IssConfig) (σ : Iss) (word : BitVec 32)

/-- Wherever the machine trap vector points, the step goes there. -/
def TakesTrap : Prop :=
  ∀ t, ∃ σ', (σ.setCsr csrAddrMtvec t).step C word = some σ' ∧ σ'.pc = t

/-- The step is an illegal-instruction trap that leaves registers and memory alone. -/
def RaisesIllegal : Prop :=
  σ.TakesTrap C word ∧
    ∃ σ', σ.step C word = some σ' ∧ σ'.csr csrAddrMcause = mcauseIllegalInstruction ∧
      σ'.csr csrAddrMepc = σ.pc ∧ σ'.regs = σ.regs ∧ σ'.fregs = σ.fregs ∧ σ'.mem = σ.mem

end Iss

/-- On this word both decoders raise exactly when it is no instruction, and the simulator does not
fail in Python. -/
def DecodersAgree (w memSize : ℕ) (σ : Iss) (word : BitVec 32) : Prop :=
  (illegalWord w word = true ↔ implemented w word = false) ∧
    (σ.RaisesIllegal (.full w memSize) word ↔ implemented w word = false) ∧
    σ.step (.full w memSize) word ≠ none

/-- The opcodes `Control.v` has an arm for. -/
def knownOpcodes : List (BitVec 7) :=
  [opcodeCustom, opcodeLoad, opcodeStore, opcodeAmo, opcodeI, opcodeR, opcodeOp32, opcodeOpImm32,
    opcodeBranch, opcodeJal, opcodeJalr, opcodeLui, opcodeAuipc, opcodeSystem, opcodeFp,
    opcodeLoadFp, opcodeStoreFp, opcodeMadd, opcodeMsub, opcodeNmsub, opcodeNmadd, opcodeMiscMem]

/-- A nonzero word of an unknown opcode, or of a reserved sub-case of MISC-MEM or SYSTEM. -/
def Unallocated (word : BitVec 32) : Prop :=
  word ≠ 0 ∧
    (opcodeOf word ∉ knownOpcodes ∨
      opcodeOf word = opcodeMiscMem ∧ funct3Of word ≠ 0b000#3 ∨
      opcodeOf word = opcodeSystem ∧ funct3Of word = csrF3None ∧
        funct7Of word ≠ funct7SfenceVma ∧
        csrImm12Of word ∉ [csrImm12Ecall, csrImm12Ebreak, csrImm12Mret, csrImm12Sret])

/-! ## The hardware -/

section Hardware

variable {w : ℕ} {word : BitVec 32}

theorem control_system (f7 : BitVec 7) (f3 : BitVec 3) (imm : BitVec 12) :
    control w opcodeSystem f7 f3 imm =
      if f3 = csrF3None then
        if f7 = funct7SfenceVma then { isSfenceVma := true }
        else if imm = csrImm12Ecall then { isEcall := true }
        else if imm = csrImm12Ebreak then { isEbreak := true }
        else if imm = csrImm12Mret then { isMret := true }
        else if imm = csrImm12Sret then { isSret := true }
        else { illegalOpcode := true }
      else { isCsr := true, regWrite := true } := rfl

theorem control_opcodeFp (f7 : BitVec 7) (f3 : BitVec 3) (imm : BitVec 12) :
    control w opcodeFp f7 f3 imm =
      if f7.extractLsb' 2 5 = funct5Fcmp ∨ f7.extractLsb' 2 5 = funct5FcvtWS ∨
        f7.extractLsb' 2 5 = funct5FmvXWFclass then { regWrite := true }
      else { fRegWrite := true } := rfl

theorem illegalInst_of_unallocated (h : Unallocated word) : illegalInst w word = true := by
  obtain ⟨-, hop | ⟨hop, hf3⟩ | ⟨hop, hf3, hf7, himm⟩⟩ := h
  · simp only [knownOpcodes, List.mem_cons, List.not_mem_nil, or_false, not_or] at hop
    simp [illegalInst, decodeControl, control, hop]
  · have hctl : decodeControl w word = { illegalOpcode := true } := by
      rw [decodeControl, hop]
      exact if_neg hf3
    rw [illegalInst, hctl, Bool.true_or]
  · simp only [List.mem_cons, List.not_mem_nil, or_false, not_or] at himm
    have hctl : decodeControl w word = { illegalOpcode := true } := by
      rw [decodeControl, hop, control_system, if_pos hf3, if_neg hf7]
      simp [himm]
    rw [illegalInst, hctl, Bool.true_or]

theorem illegalInst_amo (h : opcodeOf word = opcodeAmo) : illegalInst w word = false := by
  rw [illegalInst, decodeControl, h]
  rfl

theorem aluCtrl_itype_ne (f7 : BitVec 7) (f3 : BitVec 3) :
    (aluCtrl .itype f7 f3 == .illegal) = false := by
  simp only [aluCtrl]
  split_ifs <;> rfl

theorem aluCtrl_branch_ne (f7 : BitVec 7) (f3 : BitVec 3) :
    (aluCtrl .branch f7 f3 == .illegal) = false := by
  simp only [aluCtrl]
  split_ifs <;> rfl

/-- The function codes `ALUCtrl.v` knows are those of the R-type instructions. -/
theorem aluCtrl_rtype (f7 : BitVec 7) (f3 : BitVec 3) :
    (aluCtrl .rtype f7 f3 == .illegal) =
      !(f7 == funct7Base || f7 == funct7Muldiv ||
        f7 == funct7Alt && (f3 == 0b000#3 || f3 == 0b101#3 || f3 == 0b111#3)) := by
  revert f7 f3
  decide +kernel

theorem op32_rtype (f7 : BitVec 7) (f3 : BitVec 3)
    (h : (f7 == funct7Base && (f3 == 0b000#3 || f3 == 0b001#3 || f3 == 0b101#3) ||
      f7 == funct7Alt && (f3 == 0b000#3 || f3 == 0b101#3) ||
      f7 == funct7Muldiv && (f3 == 0b000#3 || decide (0b100#3 ≤ f3))) = true) :
    (!(f7 == funct7Base || f7 == funct7Muldiv ||
      f7 == funct7Alt && (f3 == 0b000#3 || f3 == 0b101#3 || f3 == 0b111#3))) = false := by
  revert f7 f3
  decide +kernel

theorem known_of_implemented (h : implementedLong w word = true) : opcodeOf word ∈ knownOpcodes := by
  by_contra hop
  simp only [knownOpcodes, List.mem_cons, List.not_mem_nil, or_false, not_or] at hop
  simp [implementedLong, isFmaOpcode, hop] at h

theorem illegalInst_of_implemented (h : implementedLong w word = true) :
    illegalInst w word = false := by
  have hmem := known_of_implemented h
  simp only [knownOpcodes, List.mem_cons, List.not_mem_nil, or_false] at hmem
  rcases hmem with hop | hop | hop | hop | hop | hop | hop | hop | hop | hop | hop | hop | hop |
    hop | hop | hop | hop | hop | hop | hop | hop | hop
  all_goals rw [illegalInst, decodeControl, hop]
  · -- ctz has no word that ends in 11
    rw [implementedLong, hop] at h
    exact Bool.noConfusion h
  · rfl
  · rfl
  · rfl
  · exact aluCtrl_itype_ne _ _
  · -- R-type
    rw [implementedLong, hop] at h
    refine (aluCtrl_rtype _ _).trans ?_
    rw [show (_ || _ || _) = true from h]
    rfl
  · -- OP-32
    rw [implementedLong, hop] at h
    obtain ⟨hw, hfields⟩ := Bool.and_eq_true_iff.mp
      (show (decide (64 ≤ w) && (_ || _ || _)) = true from h)
    rw [show control w opcodeOp32 _ _ _ = { aluOp := .rtype, regWrite := true } from
      if_pos (of_decide_eq_true hw)]
    refine (aluCtrl_rtype _ _).trans (op32_rtype _ _ hfields)
  · -- OP-IMM-32
    rw [implementedLong, hop] at h
    obtain ⟨hw, -⟩ := Bool.and_eq_true_iff.mp
      (show (decide (64 ≤ w) && (_ || _ || _)) = true from h)
    rw [show control w opcodeOpImm32 _ _ _ = { aluOp := .itype, aluSrc := true, regWrite := true }
      from if_pos (of_decide_eq_true hw)]
    exact aluCtrl_itype_ne _ _
  · exact aluCtrl_branch_ne _ _
  · rfl
  · rfl
  · rfl
  · rfl
  · -- SYSTEM
    rw [implementedLong, hop] at h
    have hsys : implementedSystem word = true := h
    rw [control_system]
    rw [implementedSystem] at hsys
    by_cases hf3 : funct3Of word = csrF3None
    · rw [if_pos hf3] at hsys ⊢
      simp only [Bool.and_eq_true, Bool.or_eq_true, beq_iff_eq, decide_eq_true_eq, List.mem_cons,
        List.not_mem_nil, or_false] at hsys
      obtain ⟨-, hf7 | ⟨-, himm⟩⟩ := hsys
      · rw [if_pos hf7]
        rfl
      · rcases himm with himm | himm | himm | himm <;> rw [himm] <;> split <;> rfl
    · rw [if_neg hf3]
      rfl
  · -- OP-FP
    rw [control_opcodeFp]
    split_ifs <;> rfl
  iterate 6
    · rfl
  · -- fence
    rw [implementedLong, hop] at h
    have hf3 : (funct3Of word == 0b000#3) = true := h
    rw [beq_iff_eq] at hf3
    rw [hf3]
    rfl

theorem implemented_of_unallocated (h : Unallocated word) : implementedLong w word = false := by
  obtain ⟨-, hop | ⟨hop, hf3⟩ | ⟨hop, hf3, hf7, himm⟩⟩ := h
  · simp only [knownOpcodes, List.mem_cons, List.not_mem_nil, or_false, not_or] at hop
    simp [implementedLong, isFmaOpcode, hop]
  · have hlast : implementedLong w word = (funct3Of word == 0b000#3) := by
      rw [implementedLong, hop]
      rfl
    simpa [hlast] using hf3
  · have hsys : implementedLong w word = implementedSystem word := by
      rw [implementedLong, hop]
      rfl
    rw [hsys, implementedSystem, if_pos hf3]
    simp [hf7, himm]

/-! ### Behind the expander -/

theorem illegalInst_op32 (hop : opcodeOf word = opcodeOp32 ∨ opcodeOf word = opcodeOpImm32)
    (hw : ¬64 ≤ w) : illegalInst w word = true := by
  have hctl : decodeControl w word = { illegalOpcode := true } := by
    rw [decodeControl]
    rcases hop with hop | hop <;> rw [hop] <;> exact if_neg hw
  rw [illegalInst, hctl, Bool.true_or]

/-- The register operations of the table have function codes `ALUCtrl.v` knows. -/
theorem fields_of_decodeReg {i : Rv64.Inst} (h : Rv64.decodeReg word = some i) :
    (funct7Of word = funct7Base ∨ funct7Of word = funct7Alt ∧ funct3Of word = 0b000#3) ∧
      i.isWord = decide (opcodeOf word ≠ opcodeR) := by
  have hop : Rv64.opcode word = opcodeOf word := rfl
  have hf7 : Rv64.funct7 word = funct7Of word := rfl
  have hf3 : Rv64.funct3 word = funct3Of word := rfl
  simp only [Rv64.decodeReg, hop, hf7, hf3] at h
  split_ifs at h with hR h7 h3 h3 h3 h3 h7 h3 h7 h7 <;> cases h
  all_goals simp_all [Rv64.Inst.isWord, funct7Base, funct7Alt]

/-- What decodes to an instruction of the table is flagged where `OP-32` and `OP-IMM-32` are. -/
theorem illegalInst_of_decode {i : Rv64.Inst} (h : Rv64.decode word = some i) :
    illegalInst w word = (i.isWord && !decide (64 ≤ w)) := by
  have hop : Rv64.opcode word = opcodeOf word := rfl
  have hf3 : Rv64.funct3 word = funct3Of word := rfl
  simp only [Rv64.decode, hop, hf3] at h
  by_cases hreg : opcodeOf word = opcodeR ∨ opcodeOf word = opcodeOp32
  · rw [if_pos hreg] at h
    obtain ⟨hfields, hsort⟩ := fields_of_decodeReg h
    have hknown : (aluCtrl .rtype (funct7Of word) (funct3Of word) == .illegal) = false := by
      rw [aluCtrl_rtype]
      rcases hfields with hf7 | ⟨hf7, hf3'⟩
      · simp [hf7]
      · simp [hf7, hf3']
    rcases hreg with hop | hop
    · rw [illegalInst, decodeControl, hsort, hop]
      exact hknown
    · by_cases hw : 64 ≤ w
      · rw [illegalInst, decodeControl, hop,
          show control w opcodeOp32 _ _ _ = { aluOp := .rtype, regWrite := true } from if_pos hw]
        simpa [hw] using hknown
      · rw [illegalInst_op32 (.inl hop) hw, hsort, hop]
        simp +decide [hw]
  · rw [if_neg hreg] at h
    by_cases himm : opcodeOf word = opcodeI
    · rw [if_pos himm] at h
      have hsort : i.isWord = false := by
        simp only [Rv64.decodeImm] at h
        split_ifs at h <;> cases h <;> rfl
      rw [illegalInst, decodeControl, himm, hsort]
      exact aluCtrl_itype_ne _ _
    rw [if_neg himm] at h
    by_cases himm32 : opcodeOf word = opcodeOpImm32
    · have hsort : i.isWord = true := by
        rw [if_pos himm32] at h
        split_ifs at h
        cases h
        rfl
      by_cases hw : 64 ≤ w
      · rw [illegalInst, decodeControl, himm32, show control w opcodeOpImm32 _ _ _ =
          { aluOp := .itype, aluSrc := true, regWrite := true } from if_pos hw]
        simpa [hw] using aluCtrl_itype_ne _ _
      · rw [illegalInst_op32 (.inr himm32) hw, hsort]
        simp [hw]
    rw [if_neg himm32] at h
    split_ifs at h with hop hop hf hf hop hf hop hf hf hop hf hop hf hf hop hop hbreak
    all_goals cases h
    iterate 7
      · rw [illegalInst, decodeControl, hop]
        rfl
    iterate 2
      · -- branches
        rw [illegalInst, decodeControl, hop]
        exact aluCtrl_branch_ne _ _
    · rw [illegalInst, decodeControl, hop]
      rfl
    · rw [illegalInst, decodeControl, hop.1, hop.2]
      rfl
    · rw [hbreak]
      rfl

/-- The half-word is one the expander takes, and stands for an instruction `XLEN` has. -/
def expandable (w : ℕ) (c : BitVec 16) : Bool :=
  (Rv64.Compressed.decode c).any fun i ↦ !i.isHint && (decide (64 ≤ w) || !i.isWord)

theorem low_ne_of_compressed (hc : isCompressedWord word = true) :
    word.extractLsb' 0 2 ≠ 0b11#2 := by
  simpa [isCompressedWord] using hc

theorem illegalWord_compressed (hc : isCompressedWord word = true) :
    illegalWord w word = !expandable w (word.extractLsb' 0 16) := by
  have hlow : (word.extractLsb' 0 16).extractLsb' 0 2 ≠ 0b11#2 := by
    rw [BitVec.extractLsb'_extractLsb'_of_le (by decide)]
    exact low_ne_of_compressed hc
  have henc := Rv64.Compressed.encodes_expander _ hlow
  have hzero : illegalInst w (0 : BitVec 32) = true := rfl
  rw [illegalWord, expandInst, if_pos hc, expandable]
  cases hdec : Rv64.Compressed.decode (word.extractLsb' 0 16) with
  | none =>
    rw [hdec] at henc
    rw [show compressedExpander _ = 0 from henc, hzero]
    rfl
  | some i =>
    rw [hdec, Rv64.Encodes] at henc
    cases hhint : i.isHint with
    | true =>
      rw [if_pos hhint] at henc
      rw [henc, hzero]
      simp [hhint]
    | false =>
      rw [hhint] at henc
      obtain ⟨j, hj, hsort⟩ := henc
      rw [illegalInst_of_decode hj, hsort]
      simp [hhint, Bool.and_comm]

/-- No opcode of a full instruction ends in anything but `11`; that of `ctz` does. -/
theorem opcode_of_compressed (hc : isCompressedWord word = true)
    (hop : opcodeOf word ∈ knownOpcodes) : opcodeOf word = opcodeCustom := by
  have hall : ∀ op ∈ knownOpcodes, op.extractLsb' 0 2 ≠ 0b11#2 → op = opcodeCustom := by decide
  refine hall _ hop ?_
  rw [opcodeOf, BitVec.extractLsb'_extractLsb'_of_le (by decide)]
  exact low_ne_of_compressed hc

theorem unallocated_compressed (hc : isCompressedWord word = true) :
    Unallocated word ↔ word ≠ 0 ∧ opcodeOf word ≠ opcodeCustom := by
  refine and_congr_right fun _ ↦ ?_
  constructor
  · rintro (hop | ⟨hop, -⟩ | ⟨hop, -⟩)
    · exact fun h ↦ hop (h ▸ List.mem_cons_self)
    all_goals
      rw [hop]
      decide
  · exact fun hne ↦ .inl fun hmem ↦ hne (opcode_of_compressed hc hmem)

end Hardware

/-! ## The simulator -/

namespace Iss

variable {C : IssConfig} {σ σ' : Iss} {word : BitVec 32}

theorem trap_fields (hM : σ.privMode = privM) (cause tval : ℕ) :
    (σ.trap cause tval).pc = σ.csr csrAddrMtvec ∧
      (σ.trap cause tval).csr csrAddrMcause = u32 cause ∧
      (σ.trap cause tval).csr csrAddrMepc = σ.pc ∧ (σ.trap cause tval).regs = σ.regs ∧
      (σ.trap cause tval).fregs = σ.fregs ∧ (σ.trap cause tval).mem = σ.mem := by
  have hto : σ.trapToS cause = false := by simp [trapToS, hM]
  simp only [trap, hto, Bool.false_eq_true, if_false]
  exact ⟨rfl, rfl, rfl, rfl, rfl, rfl⟩

/-- A word that traps in every machine-mode state raises. -/
theorem raisesIllegal_of_step (hM : σ.privMode = privM)
    (h : ∀ τ : Iss, τ.privMode = privM → τ.step C word = some (τ.trap mcauseIllegalInstruction 0)) :
    σ.RaisesIllegal C word := by
  refine ⟨fun t ↦ ⟨_, h _ hM, ?_⟩, _, h σ hM, ?_⟩
  · rw [(trap_fields (σ := σ.setCsr csrAddrMtvec t) hM _ _).1]
    simp [setCsr]
  · obtain ⟨-, hcause, hepc, hregs, hfregs, hmem⟩ := trap_fields hM mcauseIllegalInstruction 0
    exact ⟨hcause, hepc, hregs, hfregs, hmem⟩

/-- Where a step goes that is no trap. -/
def nextPc (C : IssConfig) (σ : Iss) (word : BitVec 32) : ℕ :=
  let op := opcodeOf word
  let A := σ.regs (rs1Of word)
  let B := σ.regs (rs2Of word)
  if op = opcodeBranch ∧ C.branchTaken (funct3Of word) A B then
    C.uxlen (σ.pc + IssConfig.branchOffset word)
  else if op = opcodeJal then C.uxlen (σ.pc + IssConfig.jalOffset word)
  else if op = opcodeJalr then C.jalrTarget word A
  else if op = opcodeSystem ∧ funct3Of word = csrF3None ∧ funct7Of word ≠ funct7SfenceVma ∧
      csrImm12Of word = csrImm12Mret then σ.csr csrAddrMepc
  else if op = opcodeSystem ∧ funct3Of word = csrF3None ∧ funct7Of word ≠ funct7SfenceVma ∧
      csrImm12Of word = csrImm12Sret then σ.csr csrAddrSepc
  else σ.pc + 4

theorem nextPc_setCsr (t : ℕ) : nextPc C (σ.setCsr csrAddrMtvec t) word = nextPc C σ word := by
  have hregs : (σ.setCsr csrAddrMtvec t).regs = σ.regs := rfl
  have hpc : (σ.setCsr csrAddrMtvec t).pc = σ.pc := rfl
  have hmepc : (σ.setCsr csrAddrMtvec t).csr csrAddrMepc = σ.csr csrAddrMepc := rfl
  have hsepc : (σ.setCsr csrAddrMtvec t).csr csrAddrSepc = σ.csr csrAddrSepc := rfl
  simp only [nextPc, hregs, hpc, hmepc, hsepc]

/-- A step that goes where its instruction says takes no trap. -/
theorem not_raisesIllegal_of_pc (hM : σ.privMode = privM)
    (h : ∀ τ τ' : Iss, τ.privMode = privM → τ.step C word = some τ' → τ'.pc = nextPc C τ word) :
    ¬σ.RaisesIllegal C word := by
  rintro ⟨htrap, -⟩
  obtain ⟨τ, hstep, hpc⟩ := htrap (nextPc C σ word + 1)
  have hnext := h (σ.setCsr csrAddrMtvec (nextPc C σ word + 1)) τ hM hstep
  rw [nextPc_setCsr, hpc] at hnext
  exact Nat.succ_ne_self _ hnext

/-- The words of `ISS.step` that trap with a cause of their own. -/
def EnvironmentCall (word : BitVec 32) : Prop :=
  opcodeOf word = opcodeSystem ∧ funct3Of word = csrF3None ∧ funct7Of word ≠ funct7SfenceVma ∧
    (csrImm12Of word = csrImm12Ecall ∨ csrImm12Of word = csrImm12Ebreak)

theorem step_trap (h : Unallocated word ∨ opcodeOf word = opcodeAmo) :
    σ.step C word = some (σ.trap mcauseIllegalInstruction 0) := by
  obtain ⟨h0, hop | ⟨hop, hf3⟩ | ⟨hop, hf3, hf7, himm⟩⟩ | hop := h
  · simp only [knownOpcodes, List.mem_cons, List.not_mem_nil, or_false, not_or] at hop
    rw [step, if_neg h0]
    simp [hop, isFmaOpcode]
  · have hlast : ¬(opcodeMiscMem = opcodeMiscMem ∧ funct3Of word = 0b000#3) := fun h ↦ hf3 h.2
    rw [step, if_neg h0, hop]
    exact if_neg hlast
  · have hstep : σ.step C word = σ.system C word (σ.regs (rs1Of word)) := by
      rw [step, if_neg h0, hop]
      rfl
    simp only [List.mem_cons, List.not_mem_nil, or_false, not_or] at himm
    obtain ⟨hecall, hebreak, hmret, hsret⟩ := himm
    rw [hstep, system, if_pos hf3, if_neg hf7, if_neg hecall, if_neg hebreak, if_neg hmret,
      if_neg hsret]
  · have h0 : word ≠ 0 := by
      rintro rfl
      exact absurd hop (by decide)
    rw [step, if_neg h0, hop]
    rfl

theorem step_environmentCall (hM : σ.privMode = privM) (h : EnvironmentCall word) :
    ∃ cause : ℕ, u32 cause ≠ mcauseIllegalInstruction ∧ σ.step C word = some (σ.trap cause 0) := by
  obtain ⟨hop, hf3, hf7, himm⟩ := h
  have h0 : word ≠ 0 := by
    rintro rfl
    exact absurd hop (by decide)
  have hstep : σ.step C word = σ.system C word (σ.regs (rs1Of word)) := by
    rw [step, if_neg h0, hop]
    rfl
  rw [hstep, system, if_pos hf3, if_neg hf7]
  rcases himm with himm | himm
  · exact ⟨mcauseEcallFromM, by decide, by rw [if_pos himm, if_pos hM]⟩
  · refine ⟨mcauseBreakpoint, by decide, ?_⟩
    rw [if_neg (by rw [himm]; decide), if_pos himm]

theorem translate_privM (hM : σ.privMode = privM) (vaddr : ℕ) (access : Access) :
    σ.translate C vaddr access = .ok (uXlen vaddr C.xlen) := by
  rw [translate, if_pos hM]

theorem pc_of_map {α : Type} {o : Option α} {f : α → Iss} {p : ℕ}
    (h : (o.map fun a ↦ { f a with pc := p }) = some σ') : σ'.pc = p := by
  obtain ⟨a, -, rfl⟩ := Option.map_eq_some_iff.mp h
  rfl

theorem fpStep_pc (hM : σ.privMode = privM) (h : σ.fpStep C word = some σ') :
    σ'.pc = σ.pc + 4 := by
  simp only [fpStep, translate_privM hM] at h
  split_ifs at h
  · cases h
    rfl
  · cases h
    rfl
  · exact pc_of_map (f := id) h
  · cases h
    rfl

theorem system_pc (hM : σ.privMode = privM) (h0 : word ≠ 0)
    (hop : opcodeOf word = opcodeSystem) (hun : ¬Unallocated word) (henv : ¬EnvironmentCall word)
    {A : ℕ} (h : σ.system C word A = some σ') : σ'.pc = nextPc C σ word := by
  have hnext : nextPc C σ word =
      if funct3Of word = csrF3None ∧ funct7Of word ≠ funct7SfenceVma ∧
        csrImm12Of word = csrImm12Mret then σ.csr csrAddrMepc
      else if funct3Of word = csrF3None ∧ funct7Of word ≠ funct7SfenceVma ∧
        csrImm12Of word = csrImm12Sret then σ.csr csrAddrSepc
      else σ.pc + 4 := by
    rw [nextPc, hop]
    simp only [true_and]
    rfl
  rw [hnext]
  simp only [system] at h
  by_cases hf3 : funct3Of word = csrF3None
  · by_cases hf7 : funct7Of word = funct7SfenceVma
    · rw [if_pos hf3, if_pos hf7, hM, if_neg (by decide)] at h
      cases h
      rw [if_neg (fun h ↦ h.2.1 hf7), if_neg (fun h ↦ h.2.1 hf7)]
    · rw [if_pos hf3, if_neg hf7] at h
      have hcall : ¬(csrImm12Of word = csrImm12Ecall ∨ csrImm12Of word = csrImm12Ebreak) :=
        fun himm ↦ henv ⟨hop, hf3, hf7, himm⟩
      rw [not_or] at hcall
      rw [if_neg hcall.1, if_neg hcall.2] at h
      by_cases hmret : csrImm12Of word = csrImm12Mret
      · rw [if_pos hmret, if_neg (not_not.mpr hM)] at h
        cases h
        rw [if_pos ⟨hf3, hf7, hmret⟩]
        rfl
      · rw [if_neg hmret] at h
        rw [if_neg fun h ↦ hmret h.2.2]
        by_cases hsret : csrImm12Of word = csrImm12Sret
        · rw [if_pos hsret, hM, if_neg (by decide)] at h
          cases h
          rw [if_pos ⟨hf3, hf7, hsret⟩]
          rfl
        · refine absurd ⟨h0, .inr (.inr ⟨hop, hf3, hf7, ?_⟩)⟩ hun
          simp [hcall, hmret, hsret]
  · have hpriv : ∀ p : BitVec 2, ¬privM < p := by decide
    rw [if_neg fun h ↦ hf3 h.1, if_neg fun h ↦ hf3 h.1]
    rw [if_neg hf3, hM, if_neg (hpriv _)] at h
    cases h
    rfl

theorem step_pc {B : IssConfig} (hC : C.fpStep = fun word σ ↦ σ.fpStep B word) (hM : σ.privMode = privM)
    (hun : ¬Unallocated word) (hamo : opcodeOf word ≠ opcodeAmo) (henv : ¬EnvironmentCall word)
    (h : σ.step C word = some σ') : σ'.pc = nextPc C σ word := by
  by_cases h0 : word = 0
  · subst h0
    cases h
    rfl
  have hmem : opcodeOf word ∈ knownOpcodes := by
    by_contra hne
    exact hun ⟨h0, .inl hne⟩
  have hnext : opcodeOf word ∉ [opcodeBranch, opcodeJal, opcodeJalr, opcodeSystem] →
      nextPc C σ word = σ.pc + 4 := by
    intro hplain
    simp only [List.mem_cons, List.not_mem_nil, or_false, not_or] at hplain
    simp [nextPc, hplain]
  simp only [knownOpcodes, List.mem_cons, List.not_mem_nil, or_false] at hmem
  rw [step, if_neg h0] at h
  rcases hmem with hop | hop | hop | hop | hop | hop | hop | hop | hop | hop | hop | hop | hop |
    hop | hop | hop | hop | hop | hop | hop | hop | hop
  · -- ctz
    rw [hnext (by rw [hop]; decide)]
    rw [hop] at h
    cases h
    rfl
  · -- loads
    rw [hnext (by rw [hop]; decide)]
    rw [hop] at h
    simp only [translate_privM hM] at h
    exact pc_of_map h
  · -- stores
    rw [hnext (by rw [hop]; decide)]
    rw [hop] at h
    simp only [translate_privM hM] at h
    exact pc_of_map h
  · exact absurd hop hamo
  · -- I-type
    rw [hnext (by rw [hop]; decide)]
    rw [hop] at h
    cases h
    rfl
  · -- R-type
    rw [hnext (by rw [hop]; decide)]
    rw [hop] at h
    exact pc_of_map h
  · -- OP-32
    rw [hnext (by rw [hop]; decide)]
    rw [hop] at h
    exact pc_of_map h
  · -- OP-IMM-32
    rw [hnext (by rw [hop]; decide)]
    rw [hop] at h
    exact pc_of_map h
  · -- branches
    rw [hop] at h
    cases h
    simp [nextPc, hop]
    rfl
  · -- jal
    rw [hop] at h
    cases h
    rw [nextPc, hop]
    rfl
  · -- jalr
    rw [hop] at h
    cases h
    rw [nextPc, hop]
    rfl
  · -- lui
    rw [hnext (by rw [hop]; decide)]
    rw [hop] at h
    cases h
    rfl
  · -- auipc
    rw [hnext (by rw [hop]; decide)]
    rw [hop] at h
    cases h
    rfl
  · rw [hop] at h
    exact system_pc hM h0 hop hun henv h
  iterate 7
    · -- the float opcodes
      rw [hnext (by rw [hop]; decide)]
      rw [hop, hC] at h
      exact fpStep_pc hM h
  · -- fence
    rw [hnext (by rw [hop]; decide)]
    rw [hop] at h
    by_cases hf3 : funct3Of word = 0b000#3
    · rw [hf3] at h
      cases h
      rfl
    · exact absurd ⟨h0, .inr (.inl ⟨hop, hf3⟩)⟩ hun

/-- In machine mode the simulator raises on the unallocated words and on all of the A extension. -/
theorem raisesIllegal_iff (w memSize : ℕ) (hM : σ.privMode = privM) :
    σ.RaisesIllegal (.full w memSize) word ↔ Unallocated word ∨ opcodeOf word = opcodeAmo := by
  constructor
  · intro h
    by_contra hnot
    rw [not_or] at hnot
    by_cases henv : EnvironmentCall word
    · obtain ⟨cause, hcause, hstep⟩ := step_environmentCall (C := .full w memSize) hM henv
      obtain ⟨-, σ', hstep', hmcause, -⟩ := h
      rw [hstep, Option.some.injEq] at hstep'
      rw [← hstep', (trap_fields hM cause 0).2.1] at hmcause
      exact hcause hmcause
    · exact not_raisesIllegal_of_pc hM
        (fun τ τ' hτ hstep ↦ step_pc rfl hτ hnot.1 hnot.2 henv hstep) h
  · intro h
    exact raisesIllegal_of_step hM fun τ _ ↦ step_trap h

/-! ### Implemented words raise no Python exception -/

theorem bv3_cases : ∀ f3 : BitVec 3, f3 = 0b000#3 ∨ f3 = 0b001#3 ∨ f3 = 0b010#3 ∨ f3 = 0b011#3 ∨
    f3 = 0b100#3 ∨ f3 = 0b101#3 ∨ f3 = 0b110#3 ∨ f3 = 0b111#3 := by
  decide

theorem rtype_ne_none {f7 : BitVec 7} {f3 : BitVec 3} (A B : ℕ)
    (h : (f7 == funct7Base || f7 == funct7Muldiv ||
      f7 == funct7Alt && (f3 == 0b000#3 || f3 == 0b101#3 || f3 == 0b111#3)) = true) :
    C.rtype f7 f3 A B ≠ none := by
  simp only [Bool.or_eq_true, Bool.and_eq_true, beq_iff_eq] at h
  rcases h with (rfl | rfl) | ⟨rfl, (rfl | rfl) | rfl⟩
  · rcases bv3_cases f3 with rfl | rfl | rfl | rfl | rfl | rfl | rfl | rfl <;>
      exact Option.some_ne_none _
  all_goals exact Option.some_ne_none _

theorem op32_ne_none {f7 : BitVec 7} {f3 : BitVec 3} (A B : ℕ)
    (h : (f7 == funct7Base && (f3 == 0b000#3 || f3 == 0b001#3 || f3 == 0b101#3) ||
      f7 == funct7Alt && (f3 == 0b000#3 || f3 == 0b101#3) ||
      f7 == funct7Muldiv && (f3 == 0b000#3 || decide (0b100#3 ≤ f3))) = true) :
    IssConfig.op32 f7 f3 A B ≠ none := by
  simp only [Bool.or_eq_true, Bool.and_eq_true, beq_iff_eq] at h
  rcases h with (⟨rfl, (rfl | rfl) | rfl⟩ | ⟨rfl, rfl | rfl⟩) | ⟨rfl, -⟩
  case inr =>
    rw [IssConfig.op32, if_pos rfl]
    split_ifs <;> exact Option.some_ne_none _
  all_goals exact Option.some_ne_none _

theorem opImm32_ne_none (A : ℕ)
    (h : funct3Of word = 0b000#3 ∨ funct3Of word = 0b001#3 ∨ funct3Of word = 0b101#3) :
    IssConfig.opImm32 word A ≠ none := by
  rcases h with h | h | h <;> simp [IssConfig.opImm32, h]

theorem loadResult_ne_none {f3 : BitVec 3} (addr : ℕ) (h : f3 ≠ 0b111#3) :
    σ.loadResult C f3 addr ≠ none := by
  have hall : ∀ f3 : BitVec 3, f3 ≠ 0b111#3 → f3 = 0b000#3 ∨ f3 = 0b001#3 ∨ f3 = 0b010#3 ∨
      f3 = 0b100#3 ∨ f3 = 0b101#3 ∨ f3 = 0b011#3 ∨ f3 = 0b110#3 := by decide
  rcases hall f3 h with rfl | rfl | rfl | rfl | rfl | rfl | rfl <;> exact Option.some_ne_none _

theorem storeBytes_ne_none {f3 : BitVec 3} (h : f3 < 0b100#3) : storeBytes f3 ≠ none := by
  revert f3
  decide

theorem system_ne_none (hM : σ.privMode = privM) (A : ℕ) : σ.system C word A ≠ none := by
  simp only [system, if_pos hM]
  split_ifs <;> exact Option.some_ne_none _

def opFpFuncts : List (BitVec 5) :=
  [funct5Fadd, funct5Fsub, funct5Fmul, funct5Fdiv, funct5Fsqrt, funct5Fsgnj, funct5Fminmax,
    funct5Fcmp, funct5FcvtWS, funct5FcvtSW, funct5FmvXWFclass, funct5FmvWX]

theorem opFp_ne_none_of_mem (h : word.extractLsb' 27 5 ∈ opFpFuncts) : σ.opFp C word ≠ none := by
  simp only [opFpFuncts, List.mem_cons, List.not_mem_nil, or_false] at h
  simp only [opFp]
  rcases h with h5 | h5 | h5 | h5 | h5 | h5 | h5 | h5 | h5 | h5 | h5 | h5 <;> rw [h5]
  case inr.inr.inr.inr.inl =>
    -- the assertion of the square root holds for every float
    show (IssFloat.fSqrt _ _).map _ ≠ none
    rw [Fp.FSqrt.fSqrt_eq]
    exact Option.some_ne_none _
  case inr.inr.inr.inr.inr.inr.inr.inr.inr.inr.inl =>
    show (if _ then some _ else some _) ≠ none
    split_ifs <;> exact Option.some_ne_none _
  all_goals exact Option.some_ne_none _

theorem opFp_ne_none (h : implementedFp word = true) : σ.opFp C word ≠ none := by
  refine opFp_ne_none_of_mem ?_
  by_contra hne
  simp only [opFpFuncts, List.mem_cons, List.not_mem_nil, or_false, not_or] at hne
  simp [implementedFp, hne] at h

theorem fpStep_ne_none (hM : σ.privMode = privM)
    (h : opcodeOf word = opcodeFp → implementedFp word = true) : σ.fpStep C word ≠ none := by
  simp only [fpStep, translate_privM hM]
  split_ifs with hload hstore hfp
  · exact Option.some_ne_none _
  · exact Option.some_ne_none _
  · exact fun hn ↦ opFp_ne_none (h hfp) (Option.map_eq_none_iff.mp hn)
  · exact Option.some_ne_none _

theorem map_bind_ne_none {α β : Type} {o : Option α} (h : o ≠ none) (f : α → β) (g : β → Iss) :
    Option.map g (o >>= fun a ↦ pure (f a)) ≠ none := by
  obtain ⟨a, rfl⟩ := Option.ne_none_iff_exists'.mp h
  exact Option.some_ne_none _

theorem step_ne_none (w memSize : ℕ) (hM : σ.privMode = privM) (h : implementedLong w word = true)
    (hamo : opcodeOf word ≠ opcodeAmo) : σ.step (.full w memSize) word ≠ none := by
  have h0 : word ≠ 0 := by
    rintro rfl
    exact absurd (h.symm.trans (show implementedLong w 0 = false from rfl)) (by decide)
  have hmem := known_of_implemented h
  simp only [knownOpcodes, List.mem_cons, List.not_mem_nil, or_false] at hmem
  rcases hmem with hop | hop | hop | hop | hop | hop | hop | hop | hop | hop | hop | hop | hop |
    hop | hop | hop | hop | hop | hop | hop | hop | hop
  all_goals
    rw [implementedLong, hop] at h
    rw [step, if_neg h0, hop]
  · exact Option.some_ne_none _
  · -- loads
    have hf3 : funct3Of word ≠ 0b111#3 := by
      intro hf3
      have hl : (decide (funct3Of word ∈ [0b000#3, 0b001#3, 0b010#3, 0b100#3, 0b101#3]) ||
        decide (64 ≤ w) && (funct3Of word == 0b011#3 || funct3Of word == 0b110#3)) = true := h
      rw [hf3] at hl
      simp at hl
    simp only [translate_privM hM]
    exact fun hn ↦ loadResult_ne_none _ hf3 (Option.map_eq_none_iff.mp hn)
  · -- stores
    have hf3 : funct3Of word < 0b100#3 := by
      have hs : (decide (funct3Of word < 0b011#3) ||
        decide (64 ≤ w) && funct3Of word == 0b011#3) = true := h
      simp only [Bool.or_eq_true, Bool.and_eq_true, decide_eq_true_eq, beq_iff_eq] at hs
      rcases hs with hs | ⟨-, hs⟩
      · exact BitVec.lt_trans hs (by decide)
      · rw [hs]
        decide
    simp only [translate_privM hM]
    exact fun hn ↦ storeBytes_ne_none hf3 (Option.map_eq_none_iff.mp hn)
  · exact absurd hop hamo
  · exact Option.some_ne_none _
  · exact map_bind_ne_none (rtype_ne_none _ _ h) _ _
  · obtain ⟨-, hfields⟩ := Bool.and_eq_true_iff.mp
      (show (decide (64 ≤ w) && (_ || _ || _)) = true from h)
    exact map_bind_ne_none (op32_ne_none _ _ hfields) _ _
  · -- OP-IMM-32
    have hf3 : funct3Of word = 0b000#3 ∨ funct3Of word = 0b001#3 ∨ funct3Of word = 0b101#3 := by
      obtain ⟨-, hi⟩ := Bool.and_eq_true_iff.mp
        (show (decide (64 ≤ w) && (_ || _ || _)) = true from h)
      simp only [Bool.or_eq_true, Bool.and_eq_true, beq_iff_eq] at hi
      tauto
    exact map_bind_ne_none (opImm32_ne_none _ hf3) _ _
  · exact Option.some_ne_none _
  · exact Option.some_ne_none _
  · exact Option.some_ne_none _
  · exact Option.some_ne_none _
  · exact Option.some_ne_none _
  · exact system_ne_none hM _
  · exact fpStep_ne_none hM fun _ ↦ h
  iterate 6
    · exact fpStep_ne_none hM fun hfp ↦ absurd (hop.symm.trans hfp) (by decide)
  · -- fence
    have hf3 : (funct3Of word == 0b000#3) = true := h
    rw [beq_iff_eq] at hf3
    rw [hf3]
    exact Option.some_ne_none _

end Iss

/-- On a full word the decoders agree exactly when it is an implemented instruction outside the A
extension, or an unallocated word. -/
theorem decodersAgree_long {w memSize : ℕ} {σ : Iss} {word : BitVec 32} (hM : σ.privMode = privM)
    (hc : isCompressedWord word = false) :
    DecodersAgree w memSize σ word ↔
      implemented w word = true ∧ opcodeOf word ≠ opcodeAmo ∨ Unallocated word := by
  have hword : illegalWord w word = illegalInst w word := by
    rw [illegalWord, expandInst, hc]
    rfl
  have himpl : implemented w word = implementedLong w word := by
    rw [implemented, hc]
    rfl
  rw [DecodersAgree, Iss.raisesIllegal_iff w memSize hM, hword, himpl]
  constructor
  · rintro ⟨hrtl, hiss, -⟩
    cases himp : implementedLong w word with
    | true =>
      refine .inl ⟨rfl, fun hamo ↦ ?_⟩
      rw [himp] at hiss
      exact absurd (hiss.mp (.inr hamo)) (by decide)
    | false =>
      rcases hiss.mpr himp with hun | hamo
      · exact .inr hun
      · have hflag := hrtl.mpr himp
        rw [illegalInst_amo hamo] at hflag
        exact absurd hflag (by decide)
  · rintro (⟨himp, hamo⟩ | hun)
    · have hun : ¬Unallocated word := fun hun ↦ by
        rw [implemented_of_unallocated hun] at himp
        exact absurd himp (by decide)
      refine ⟨?_, ?_, Iss.step_ne_none w memSize hM himp hamo⟩
      · simp [illegalInst_of_implemented himp, himp]
      · simp [himp, hun, hamo]
    · refine ⟨?_, ?_, ?_⟩
      · simp [illegalInst_of_unallocated hun, implemented_of_unallocated hun]
      · simp [implemented_of_unallocated hun, hun]
      · rw [Iss.step_trap (.inl hun)]
        exact Option.some_ne_none _

/-- The simulator takes a compressed word for `ctz`, skips it if it is zero, and else traps. -/
theorem decodersAgree_compressed {w memSize : ℕ} {σ : Iss} {word : BitVec 32}
    (hM : σ.privMode = privM) (hc : isCompressedWord word = true) :
    DecodersAgree w memSize σ word ↔
      opcodeOf word = opcodeCustom ∧ implemented w word = true ∧
          expandable w (word.extractLsb' 0 16) = true ∨
        opcodeOf word ≠ opcodeCustom ∧ word ≠ 0 ∧ implemented w word = false ∧
          expandable w (word.extractLsb' 0 16) = false := by
  have hamo : opcodeOf word ≠ opcodeAmo := by
    intro hamo
    have hcustom := opcode_of_compressed hc (by rw [hamo]; decide)
    rw [hamo] at hcustom
    exact absurd hcustom (by decide)
  have hraise : σ.RaisesIllegal (.full w memSize) word ↔
      word ≠ 0 ∧ opcodeOf word ≠ opcodeCustom := by
    rw [Iss.raisesIllegal_iff w memSize hM, unallocated_compressed hc]
    simp [hamo]
  have hstep : σ.step (.full w memSize) word ≠ none := by
    by_cases hun : Unallocated word
    · rw [Iss.step_trap (.inl hun)]
      exact Option.some_ne_none _
    · by_cases h0 : word = 0
      · rw [Iss.step, if_pos h0]
        exact Option.some_ne_none _
      · have hop : opcodeOf word = opcodeCustom := by
          by_contra hne
          exact hun ((unallocated_compressed hc).mpr ⟨h0, hne⟩)
        rw [Iss.step, if_neg h0, hop]
        exact Option.some_ne_none _
  rw [DecodersAgree, hraise, illegalWord_compressed hc, and_iff_left hstep]
  by_cases hop : opcodeOf word = opcodeCustom
  · cases himp : implemented w word <;> simp [hop]
  · by_cases h0 : word = 0#32
    · subst h0
      have himp : implemented w 0#32 = false := rfl
      simp only [hop, himp, false_and, false_or]
      simp
    · cases himp : implemented w word <;> simp [hop, h0]

/-- The decoders agree on a full word exactly when it is an implemented instruction outside the A
extension or an unallocated word, and on a compressed one when all call it an instruction, the
simulator for its opcode of `ctz`, or none does. -/
theorem decodersAgree_iff (w memSize : ℕ) (σ : Iss) (hM : σ.privMode = privM) (word : BitVec 32) :
    DecodersAgree w memSize σ word ↔
      isCompressedWord word = false ∧
          (implemented w word = true ∧ opcodeOf word ≠ opcodeAmo ∨ Unallocated word) ∨
        isCompressedWord word = true ∧
          (opcodeOf word = opcodeCustom ∧ implemented w word = true ∧
              expandable w (word.extractLsb' 0 16) = true ∨
            opcodeOf word ≠ opcodeCustom ∧ word ≠ 0 ∧ implemented w word = false ∧
              expandable w (word.extractLsb' 0 16) = false) := by
  cases hc : isCompressedWord word with
  | false => simp [decodersAgree_long hM hc]
  | true => simp [decodersAgree_compressed hM hc]

/-- The decoders agree on `addi x1, x0, 1`, but not on `c.li x10, 5`, which only the core takes for
an instruction. -/
theorem decodersAgree_addi :
    DecodersAgree 32 128 (Iss.init 128) 0x00100093#32 ∧
      ¬DecodersAgree 32 128 (Iss.init 128) 0x00004515#32 := by
  refine ⟨(decodersAgree_iff 32 128 (Iss.init 128) rfl 0x00100093#32).mpr
    (.inl ⟨by decide, .inl ⟨by decide, by decide⟩⟩), fun h ↦ ?_⟩
  rcases (decodersAgree_iff 32 128 (Iss.init 128) rfl 0x00004515#32).mp h with
    ⟨hc, -⟩ | ⟨-, ⟨hop, -⟩ | ⟨-, -, himp, -⟩⟩
  · exact absurd hc (by decide)
  · exact absurd hop (by decide)
  · exact absurd himp (by decide)

/-- A load with `funct3 = 111` is no instruction: the hardware executes it, and the simulator
stops with a `ValueError`. -/
theorem not_decodersAgree_load :
    implemented 32 0x00007003#32 = false ∧ illegalWord 32 0x00007003#32 = false ∧
      (Iss.init 128).step (.full 32 128) 0x00007003#32 = none ∧
      ¬DecodersAgree 32 128 (Iss.init 128) 0x00007003#32 := by
  have himp : implemented 32 0x00007003#32 = false := by decide
  have hrtl : illegalWord 32 0x00007003#32 = false := by decide
  have hiss : (Iss.init 128).step (.full 32 128) 0x00007003#32 = none := by rfl
  exact ⟨himp, hrtl, hiss, fun h ↦ h.2.2 hiss⟩

end RvPipeline
