import RvPipeline.Core.Invariants
import RvPipeline.Iss.Arith
import RvPipeline.Seq.Handshake

/-!
# Division instructions

A division instruction holds ID/EX, and with it the start level of the divider, until the
divider answers.  The answer obeys the rules of the M extension; behind the operand and result
wrappers of EX it is what `ISS.step` writes, for the word forms as well.
-/

namespace RvPipeline

variable {w : ℕ}

/-! ## The rules of the M extension -/

/-- Quotient and remainder of `x` by `y`. -/
def MRules (isSigned : Bool) (x y q r : BitVec w) : Prop :=
  if y = 0 then q = BitVec.allOnes w ∧ r = x
  else if isSigned then
    if x = BitVec.intMin w ∧ y = BitVec.allOnes w then q = BitVec.intMin w ∧ r = 0
    else q.toInt = x.toInt.tdiv y.toInt ∧ r.toInt = x.toInt.tmod y.toInt
  else q.toNat = x.toNat / y.toNat ∧ r.toNat = x.toNat % y.toNat

theorem Divider.mRules_divide (hw : 0 < w) (isSigned : Bool) (x y : BitVec w) :
    MRules isSigned x y (divide isSigned x y).1 (divide isSigned x y).2 := by
  unfold MRules
  split_ifs with h0 hs hover
  · rw [divide, if_pos h0]
    exact ⟨rfl, rfl⟩
  · obtain ⟨rfl, rfl⟩ := hover
    rw [divide, if_neg h0, if_pos (by simp [hs, BitVec.intMin])]
    exact ⟨rfl, rfl⟩
  · subst hs
    rw [divide_signed hw x h0]
    refine ⟨BitVec.toInt_sdiv_of_ne_or_ne x y ?_, BitVec.toInt_srem x y⟩
    rw [BitVec.neg_one_eq_allOnes]
    exact not_and_or.1 hover
  · obtain rfl : isSigned = false := by simpa using hs
    rw [divide_unsigned hw x h0]
    exact ⟨BitVec.toNat_udiv, BitVec.toNat_umod⟩

/-! ## Word operands -/

/-- The operand wrapper: 32 bits extended by the signedness of the operation. -/
def extendWord (w : ℕ) (isSigned : Bool) (x : BitVec 32) : BitVec w :=
  if isSigned then x.signExtend w else x.setWidth w

theorem low32_ofInt (hw : 32 ≤ w) (v : ℤ) : low32 (BitVec.ofInt w v) = BitVec.ofInt 32 v := by
  have hdvd : (2 ^ 32 : ℤ) ∣ 2 ^ w := pow_dvd_pow 2 hw
  have hpos : (0 : ℤ) ≤ v % 2 ^ w := Int.emod_nonneg _ (by positivity)
  apply BitVec.eq_of_toNat_eq
  rw [low32, BitVec.toNat_setWidth, BitVec.toNat_ofInt, BitVec.toNat_ofInt]
  zify
  rw [Int.toNat_of_nonneg hpos, Int.toNat_of_nonneg (Int.emod_nonneg _ (by positivity)),
    Int.emod_emod_of_dvd _ hdvd]

theorem low32_extendWord (hw : 32 ≤ w) (isSigned : Bool) (x : BitVec 32) :
    low32 (extendWord w isSigned x) = x := by
  apply BitVec.eq_of_getLsbD_eq
  intro i hi
  have hiw : i < w := by omega
  cases isSigned with
  | false => simp [low32, extendWord, hi, hiw]
  | true => simp [low32, extendWord, BitVec.getElem_signExtend, hi, hiw]

theorem extendWord_eq_zero_iff (hw : 32 ≤ w) (isSigned : Bool) (x : BitVec 32) :
    extendWord w isSigned x = 0 ↔ x = 0 := by
  constructor
  · intro h
    rw [← low32_extendWord hw isSigned x, h]
    simp [low32]
  · rintro rfl
    cases isSigned
    · simp [extendWord]
    · exact signExtend_zero 32

/-- A division of extended operands has the results of the word division in its low half. -/
theorem low32_divide_extendWord (hw : 32 ≤ w) (isSigned : Bool) (x y : BitVec 32) :
    low32 (Divider.divide isSigned (extendWord w isSigned x) (extendWord w isSigned y)).1 =
        (Divider.divide isSigned x y).1 ∧
      low32 (Divider.divide isSigned (extendWord w isSigned x) (extendWord w isSigned y)).2 =
        (Divider.divide isSigned x y).2 := by
  by_cases h0 : y = 0
  · rw [Divider.divide, if_pos ((extendWord_eq_zero_iff hw isSigned y).2 h0), Divider.divide,
      if_pos h0]
    refine ⟨?_, low32_extendWord hw isSigned x⟩
    rw [← ofInt_neg_one, low32_ofInt hw, ofInt_neg_one]
  have h0' : extendWord w isSigned y ≠ 0 := fun h ↦ h0 ((extendWord_eq_zero_iff hw _ y).1 h)
  cases isSigned with
  | true =>
    have hx : (extendWord w true x).toInt = x.toInt := BitVec.toInt_signExtend_of_le hw
    have hy : (extendWord w true y).toInt = y.toInt := BitVec.toInt_signExtend_of_le hw
    rw [Divider.divide_signed (by omega) _ h0', Divider.divide_signed (by decide) _ h0]
    dsimp only
    rw [← ofInt_tdiv, ← ofInt_tmod, hx, hy, low32_ofInt hw, low32_ofInt hw, ofInt_tdiv, ofInt_tmod]
    exact ⟨rfl, rfl⟩
  | false =>
    have hnat : ∀ z : BitVec 32, (extendWord w false z).toNat = z.toNat := fun z ↦
      BitVec.toNat_setWidth_of_le hw
    rw [Divider.divide_unsigned (by omega) _ h0', Divider.divide_unsigned (by decide) _ h0]
    constructor <;> apply BitVec.eq_of_toNat_eq
    · rw [low32, BitVec.toNat_setWidth, BitVec.toNat_udiv, BitVec.toNat_udiv, hnat, hnat,
        Nat.mod_eq_of_lt (lt_of_le_of_lt (Nat.div_le_self _ _) x.isLt)]
    · rw [low32, BitVec.toNat_setWidth, BitVec.toNat_umod, BitVec.toNat_umod, hnat, hnat,
        Nat.mod_eq_of_lt (lt_of_le_of_lt (Nat.mod_le _ _) x.isLt)]

/-! ## What the simulator writes -/

theorem toNat_low32 (A : BitVec w) : (low32 A).toNat = u32 A.toNat := by
  rw [low32, BitVec.toNat_setWidth, u32, uXlen]
  norm_cast

theorem toInt_low32 (A : BitVec w) : (low32 A).toInt = s32 A.toNat := by
  have h : uXlen (low32 A).toNat 32 = uXlen A.toNat 32 := by
    rw [uXlen_toNat, toNat_low32, u32]
  rw [← sXlen_toNat, s32, sXlen, sXlen, h]

/-- Which output a function code names, and its signedness. -/
def divRemOutput (f3 : BitVec 3) (x y : BitVec w) : BitVec w :=
  if f3.getLsbD 1 then (Divider.divide (!f3.getLsbD 0) x y).2
  else (Divider.divide (!f3.getLsbD 0) x y).1

theorem divRem_funct3 {f3 : BitVec 3} (h : f3.getLsbD 2 = true) :
    f3 = 0b100#3 ∨ f3 = 0b101#3 ∨ f3 = 0b110#3 ∨ f3 = 0b111#3 := by
  revert f3
  decide

theorem rtype_divRem {C : IssConfig} (hw : 0 < w) (hC : C.xlen = w) {f3 : BitVec 3}
    (h : f3.getLsbD 2 = true) (A B : BitVec w) :
    C.rtype funct7Muldiv f3 A.toNat B.toNat = some (divRemOutput f3 A B).toNat := by
  obtain ⟨hdiv, hdivu, hrem, hremu⟩ := IssConfig.mulDiv_divRem hw hC A B
  rw [IssConfig.rtype, if_pos rfl]
  rcases divRem_funct3 h with rfl | rfl | rfl | rfl
  · rw [hdiv]
    rfl
  · rw [hdivu]
    rfl
  · rw [hrem]
    rfl
  · rw [hremu]
    rfl

theorem op32_divRem {f3 : BitVec 3} (h : f3.getLsbD 2 = true) (A B : BitVec w) :
    IssConfig.op32 funct7Muldiv f3 A.toNat B.toNat =
      some (divRemOutput f3 (low32 A) (low32 B)).toNat := by
  have hdiv := toNat_divide_signed_fst (by decide) (low32 A) (low32 B)
  have hrem := toNat_divide_signed_snd (by decide) (low32 A) (low32 B)
  have hdivu := toNat_divide_unsigned_fst (by decide) (low32 A) (low32 B)
  have hremu := toNat_divide_unsigned_snd (by decide) (low32 A) (low32 B)
  have hmin : -(2 ^ (32 - 1) : ℤ) = -2147483648 := by norm_num
  simp only [sXlen_toNat, uXlen_toNat, toInt_low32, hmin] at hdiv hrem hdivu hremu
  rcases divRem_funct3 h with rfl | rfl | rfl | rfl
  · rw [show divRemOutput 0b100#3 (low32 A) (low32 B) = (Divider.divide true (low32 A) (low32 B)).1
      from rfl, ← hdiv, toNat_low32, toNat_low32]
    unfold IssConfig.op32
    simp only [BitVec.reduceEq, ite_true, ite_false]
    split_ifs <;> rfl
  · rw [show divRemOutput 0b101#3 (low32 A) (low32 B) = (Divider.divide false (low32 A) (low32 B)).1
      from rfl, ← hdivu, toNat_low32, toNat_low32]
    rfl
  · rw [show divRemOutput 0b110#3 (low32 A) (low32 B) = (Divider.divide true (low32 A) (low32 B)).2
      from rfl, ← hrem, toNat_low32, toNat_low32]
    unfold IssConfig.op32
    simp only [BitVec.reduceEq, ite_true, ite_false]
    split_ifs <;> rfl
  · rw [show divRemOutput 0b111#3 (low32 A) (low32 B) = (Divider.divide false (low32 A) (low32 B)).2
      from rfl, ← hremu, toNat_low32, toNat_low32]
    rfl

theorem Iss.wr_congr {C : IssConfig} (σ : Iss) (rd : BitVec 5) {a b : ℤ}
    (h : C.uxlen a = C.uxlen b) : σ.wr C rd a = σ.wr C rd b := by
  rw [wr, wr, h]

theorem uxlen_s32_toNat {C : IssConfig} (hC : C.xlen = w) (v : BitVec 32) :
    C.uxlen (s32 v.toNat) = C.uxlen (v.signExtend w).toNat := by
  have hs : s32 v.toNat = v.toInt := sXlen_toNat v
  rw [hs, IssConfig.uxlen, IssConfig.uxlen, hC, uXlen_toNat, uXlen_eq]
  rfl

/-! ## The instruction in EX -/

/-- `div`, `divu`, `rem`, `remu` and, with 64-bit registers, their word forms. -/
def IsDivRemInst (w : ℕ) (inst : BitVec 32) : Prop :=
  funct7Of inst = funct7Muldiv ∧ (funct3Of inst).getLsbD 2 = true ∧
    (opcodeOf inst = opcodeR ∨ (opcodeOf inst = opcodeOp32 ∧ 64 ≤ w))

section InEx

variable {r : Reg2 w} (hf : r.Fields) (hctl : r.ctl = decodeControl w r.inst)
  (hinst : IsDivRemInst w r.inst)

include hctl hinst

theorem IsDivRemInst.ctl_eq : r.ctl = { aluOp := .rtype, regWrite := true } := by
  obtain ⟨-, -, hop | ⟨hop, hw⟩⟩ := hinst
  · rw [hctl, decodeControl, hop]
    rfl
  · rw [hctl, decodeControl, hop]
    simp [control, opcodeCustom, opcodeLoad, opcodeStore, opcodeAmo, opcodeI, opcodeR, opcodeOp32,
      hw]

include hf

theorem IsDivRemInst.aluCtl_eq : r.aluCtl = aluCtrl .rtype funct7Muldiv (funct3Of r.inst) := by
  rw [Reg2.aluCtl, IsDivRemInst.ctl_eq hctl hinst, hf.funct7, hf.funct3, hinst.1]

theorem IsDivRemInst.isDivRem : r.isDivRem = true := by
  have h : ∀ f : BitVec 3, f.getLsbD 2 = true →
      (aluCtrl .rtype funct7Muldiv f == .div || aluCtrl .rtype funct7Muldiv f == .divu ||
        aluCtrl .rtype funct7Muldiv f == .rem || aluCtrl .rtype funct7Muldiv f == .remu) = true := by
    decide
  rw [Reg2.isDivRem, IsDivRemInst.aluCtl_eq hf hctl hinst]
  exact h _ hinst.2.1

theorem IsDivRemInst.isDivSigned : r.isDivSigned = !(funct3Of r.inst).getLsbD 0 := by
  have h : ∀ f : BitVec 3, f.getLsbD 2 = true →
      (aluCtrl .rtype funct7Muldiv f == .div || aluCtrl .rtype funct7Muldiv f == .rem) =
        !f.getLsbD 0 := by
    decide
  rw [Reg2.isDivSigned, IsDivRemInst.aluCtl_eq hf hctl hinst]
  exact h _ hinst.2.1

theorem IsDivRemInst.divResult_eq (q rem : BitVec w) :
    r.divResult q rem =
      let raw := if (funct3Of r.inst).getLsbD 1 then rem else q
      if r.wordOp then (low32 raw).signExtend w else raw := by
  have h : ∀ f : BitVec 3, f.getLsbD 2 = true →
      ((aluCtrl .rtype funct7Muldiv f = .div ∨ aluCtrl .rtype funct7Muldiv f = .divu) ↔
        f.getLsbD 1 = false) := by
    decide
  simp only [Reg2.divResult, IsDivRemInst.aluCtl_eq hf hctl hinst, h _ hinst.2.1]
  cases (funct3Of r.inst).getLsbD 1 <;> rfl

omit hf in
theorem IsDivRemInst.operands (o : Operands w) : r.aluA o = o.a ∧ r.immRegVal o = o.b := by
  simp [Reg2.aluA, Reg2.immRegVal, IsDivRemInst.ctl_eq hctl hinst]

/-- Behind the wrappers the divider's answer is the output the function code names, of the words
or of the whole registers. -/
theorem IsDivRemInst.divResult_divide (hw : w = 32 ∨ w = 64) (o : Operands w) :
    let p := Divider.divide r.isDivSigned (r.divDividend o) (r.divDivisor o)
    r.divResult p.1 p.2 =
      if r.wordOp then (divRemOutput (funct3Of r.inst) (low32 o.a) (low32 o.b)).signExtend w
      else divRemOutput (funct3Of r.inst) o.a o.b := by
  intro p
  have hw32 : 32 ≤ w := by omega
  obtain ⟨ha, hb⟩ := IsDivRemInst.operands hctl hinst o
  subst p
  rw [IsDivRemInst.divResult_eq hf hctl hinst, Reg2.divDividend, Reg2.divDivisor, ha, hb,
    Reg2.divOperand, Reg2.divOperand, IsDivRemInst.isDivSigned hf hctl hinst]
  cases r.wordOp with
  | false =>
    simp only [Bool.false_eq_true, if_false, divRemOutput]
  | true =>
    obtain ⟨hquot, hrem⟩ :=
      low32_divide_extendWord hw32 (!(funct3Of r.inst).getLsbD 0) (low32 o.a) (low32 o.b)
    simp only [extendWord] at hquot hrem
    simp only [if_true, divRemOutput]
    cases (funct3Of r.inst).getLsbD 1 with
    | false => simp only [Bool.false_eq_true, if_false, hquot]
    | true => simp only [if_true, hrem]

/-- The simulator on the same operands. -/
theorem IsDivRemInst.step_eq (hw : w = 32 ∨ w = 64) {C : IssConfig} (hC : C.xlen = w)
    (o : Operands w) {σ : Iss} (ha : σ.regs (rs1Of r.inst) = o.a.toNat)
    (hb : σ.regs (rs2Of r.inst) = o.b.toNat) :
    let p := Divider.divide r.isDivSigned (r.divDividend o) (r.divDivisor o)
    σ.step C r.inst =
      some { σ.wr C (rdOf r.inst) (r.divResult p.1 p.2).toNat with pc := σ.pc + 4 } := by
  intro p
  have hres := IsDivRemInst.divResult_divide hf hctl hinst hw o
  have hne : r.inst ≠ 0 := by
    intro h0
    have h7 := hinst.1
    rw [h0] at h7
    revert h7
    decide
  rw [Iss.step, if_neg hne]
  dsimp only
  rw [ha, hb, hinst.1]
  obtain ⟨-, hf3, hop | ⟨hop, -⟩⟩ := hinst
  · have hword : r.wordOp = false := by
      rw [Reg2.wordOp, Reg2.opcode, hop]
      rfl
    rw [hword] at hres
    rw [if_pos hop, rtype_divRem (by omega) hC hf3,
      show r.divResult p.1 p.2 = divRemOutput (funct3Of r.inst) o.a o.b from hres]
    rfl
  · have hword : r.wordOp = true := by
      rw [Reg2.wordOp, Reg2.opcode, hop]
      rfl
    have hnot : opcodeOf r.inst ≠ opcodeR := by
      rw [hop]
      decide
    rw [hword] at hres
    rw [if_neg hnot, if_pos hop, op32_divRem hf3,
      show r.divResult p.1 p.2 =
        (divRemOutput (funct3Of r.inst) (low32 o.a) (low32 o.b)).signExtend w from hres,
      ← Iss.wr_congr σ _ (uxlen_s32_toNat hC _)]
    rfl

end InEx

/-- What the divider of EX is given while `r` is held there, with operands that may change. -/
def divIns (r : Reg2 w) (o : ℕ → Operands w) (k : ℕ) : Divider.In w :=
  { start := r.isDivRem, isSigned := r.isDivSigned, dividend := r.divDividend (o k)
    divisor := r.divDivisor (o k) }

/-- One request to the divider, and one division instruction through it. -/
theorem Divider.division (hw : w = 32 ∨ w = 64) {C : IssConfig} (hC : C.xlen = w) {d : Divider w}
    (h₀ : (clocked w).Init d) :
    (∀ ins : ℕ → In w,
      HeldUntilDone (fun k ↦ (ins k).start) (fun k ↦ ((clocked w).run d ins k).done) →
      ∃ n, Answered (fun k ↦ (ins k).start) (fun k ↦ ((clocked w).run d ins k).busy)
          (fun k ↦ ((clocked w).run d ins k).done) n ∧
        MRules (ins 0).isSigned (ins 0).dividend (ins 0).divisor
          ((clocked w).run d ins n).quotient ((clocked w).run d ins n).remainder) ∧
    (∀ (r : Reg2 w) (o : ℕ → Operands w), r.Fields → r.ctl = decodeControl w r.inst →
      IsDivRemInst w r.inst →
      ∃ n, Answered (fun k ↦ (divIns r o k).start)
          (fun k ↦ ((clocked w).run d (divIns r o) k).busy)
          (fun k ↦ ((clocked w).run d (divIns r o) k).done) n ∧
        ∀ σ : Iss, σ.regs (rs1Of r.inst) = (o 0).a.toNat → σ.regs (rs2Of r.inst) = (o 0).b.toNat →
          σ.step C r.inst =
            some { σ.wr C (rdOf r.inst)
              (r.divResult ((clocked w).run d (divIns r o) n).quotient
                ((clocked w).run d (divIns r o) n).remainder).toNat with pc := σ.pc + 4 }) := by
  constructor
  · intro ins hheld
    obtain ⟨n, hn, hres⟩ := exists_answered_divide h₀ hheld
    refine ⟨n, hn, ?_⟩
    have hrules := mRules_divide (by omega) (ins 0).isSigned (ins 0).dividend (ins 0).divisor
    rwa [← hres] at hrules
  · intro r o hf hctl hinst
    have hheld : HeldUntilDone (fun k ↦ (divIns r o k).start)
        (fun k ↦ ((clocked w).run d (divIns r o) k).done) := fun k _ ↦
      IsDivRemInst.isDivRem hf hctl hinst
    obtain ⟨n, hn, hres⟩ := exists_answered_divide h₀ hheld
    refine ⟨n, hn, fun σ ha hb ↦ ?_⟩
    have hstep := IsDivRemInst.step_eq hf hctl hinst hw hC (o 0) ha hb
    rw [show Divider.divide r.isDivSigned (r.divDividend (o 0)) (r.divDivisor (o 0)) =
      (((clocked w).run d (divIns r o) n).quotient, ((clocked w).run d (divIns r o) n).remainder)
      from hres.symm] at hstep
    exact hstep

/-- `remw x10, x11, x12` in EX. -/
def remwReg2 : Reg2 64 :=
  { valid := true
    ctl := decodeControl 64 0x02C5E53B#32
    writeToReg := 10
    ctx :=
      { DecodeContext.zero 64 with
        funct7 := funct7Muldiv, funct3 := 0b110, readReg1 := 11, readReg2 := 12 }
    inst := 0x02C5E53B#32 }

def remwOperands (_ : ℕ) : Operands 64 :=
  { a := 0x80000000, b := 0x1FFFFFFFD, fa := 0, fb := 0, fc := 0 }

theorem Divider.division_remw :
    (64 = 32 ∨ 64 = 64) ∧ ({ xlen := 64, fpStep := fun _ _ ↦ none } : IssConfig).xlen = 64 ∧
    (Divider.clocked 64).Init default ∧ remwReg2.Fields ∧ IsDivRemInst 64 remwReg2.inst ∧
    ∃ n, ((clocked 64).run default (divIns remwReg2 remwOperands) n).done = true ∧
      ∀ σ : Iss, σ.regs 11 = 0x80000000 → σ.regs 12 = 0x1FFFFFFFD →
        σ.step { xlen := 64, fpStep := fun _ _ ↦ none } 0x02C5E53B#32 =
          some { σ.wr { xlen := 64, fpStep := fun _ _ ↦ none } 10
            (remwReg2.divResult
              ((clocked 64).run default (divIns remwReg2 remwOperands) n).quotient
              ((clocked 64).run default (divIns remwReg2 remwOperands) n).remainder).toNat with
            pc := σ.pc + 4 } := by
  have hinit : (Divider.clocked 64).Init default := ⟨rfl, rfl⟩
  have hf : remwReg2.Fields := ⟨by decide, by decide, by decide, by decide, by decide, by decide⟩
  have hinst : IsDivRemInst 64 remwReg2.inst :=
    ⟨by decide, by decide, .inr ⟨by decide, by decide⟩⟩
  obtain ⟨n, hn, hres⟩ := (Divider.division (C := { xlen := 64, fpStep := fun _ _ ↦ none })
    (.inr rfl) rfl hinit).2 remwReg2 remwOperands hf rfl hinst
  exact ⟨.inr rfl, rfl, hinit, hf, hinst, n, hn.answered, hres⟩

end RvPipeline
