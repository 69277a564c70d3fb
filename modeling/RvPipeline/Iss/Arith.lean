import RvPipeline.Iss.Step
import RvPipeline.Seq.Division

/-!
# Arithmetic of the simulator and of the core

The simulator computes with integers and masks the results; the core has words of fixed width
and divides by repeated subtraction.
-/

namespace RvPipeline

variable {w : ℕ}

/-! ## Masked integers -/

theorem uXlen_eq (v : ℤ) (w : ℕ) : uXlen v w = (BitVec.ofInt w v).toNat := by
  rw [uXlen, BitVec.toNat_ofInt]
  norm_cast

theorem ofInt_natCast_toNat (A : BitVec w) : BitVec.ofInt w A.toNat = A :=
  BitVec.eq_of_toNat_eq (by simp)

theorem uXlen_toNat (A : BitVec w) : uXlen A.toNat w = A.toNat := by
  rw [uXlen_eq, ofInt_natCast_toNat]

theorem sXlen_toNat (A : BitVec w) : sXlen A.toNat w = A.toInt := by
  rw [sXlen, uXlen_toNat, BitVec.toInt_eq_msb_cond, BitVec.msb_eq_getLsbD_last, BitVec.getLsbD]
  norm_cast

theorem emod_mul_self_ediv (v : ℤ) {m : ℤ} (hm : 0 < m) : v % (m * m) / m = v / m % m := by
  have h1 := Int.mul_ediv_add_emod v m
  have h2 := Int.mul_ediv_add_emod (v / m) m
  have h3 := Int.emod_nonneg v hm.ne'
  have h4 := Int.emod_lt_of_pos v hm
  have h5 := Int.emod_nonneg (v / m) hm.ne'
  have h6 := Int.emod_lt_of_pos (v / m) hm
  have hv : v = v % m + m * (v / m % m) + m * m * (v / m / m) := by
    linear_combination -h1 - m * h2
  have hmod : v % (m * m) = v % m + m * (v / m % m) := by
    conv_lhs => rw [hv]
    rw [Int.add_mul_emod_self_left]
    apply Int.emod_eq_of_lt
    · positivity
    · nlinarith
  rw [hmod, Int.add_mul_ediv_left _ _ hm.ne', Int.ediv_eq_zero_of_lt h3 h4, zero_add]

/-- The upper half of a product, taken exactly or at twice the width. -/
theorem extractLsb_ofInt (v : ℤ) :
    (BitVec.ofInt (2 * w) v).extractLsb' w w = BitVec.ofInt w (v >>> w) := by
  have hkey := emod_mul_self_ediv v (m := 2 ^ w) (by positivity)
  apply BitVec.eq_of_toNat_eq
  rw [BitVec.extractLsb'_toNat, BitVec.toNat_ofInt, BitVec.toNat_ofInt, Int.shiftRight_eq_div_pow,
    Nat.shiftRight_eq_div_pow, two_mul, pow_add]
  zify
  rw [Int.toNat_of_nonneg (Int.emod_nonneg _ (by positivity)),
    Int.toNat_of_nonneg (Int.emod_nonneg _ (by positivity)), hkey, Int.emod_emod_of_dvd _ dvd_rfl]

theorem signedQuot_eq (a b : ℤ) : IssConfig.signedQuot a b = a.tdiv b := by
  unfold IssConfig.signedQuot
  rcases lt_or_ge a 0 with ha | ha <;> rcases lt_or_ge b 0 with hb | hb
  · rw [if_neg (by simp [ha, hb])]
    obtain ⟨m, rfl⟩ := Int.exists_eq_neg_ofNat ha.le
    obtain ⟨n, rfl⟩ := Int.exists_eq_neg_ofNat hb.le
    simp
  · rw [if_pos (by simp [ha, hb])]
    obtain ⟨m, rfl⟩ := Int.exists_eq_neg_ofNat ha.le
    obtain ⟨n, rfl⟩ := Int.eq_ofNat_of_zero_le hb
    simp
  · rw [if_pos (by simp [ha, hb])]
    obtain ⟨m, rfl⟩ := Int.eq_ofNat_of_zero_le ha
    obtain ⟨n, rfl⟩ := Int.exists_eq_neg_ofNat hb.le
    simp
  · rw [if_neg (by simp [ha.not_gt, hb.not_gt])]
    obtain ⟨m, rfl⟩ := Int.eq_ofNat_of_zero_le ha
    obtain ⟨n, rfl⟩ := Int.eq_ofNat_of_zero_le hb
    simp

theorem signedRem_eq (a b : ℤ) : IssConfig.signedRem a b = a.tmod b := by
  unfold IssConfig.signedRem
  rw [← Int.natAbs_tmod]
  rcases lt_or_ge a 0 with ha | ha
  · rw [if_pos ha]
    obtain ⟨m, rfl⟩ := Int.exists_eq_neg_ofNat ha.le
    rw [Int.neg_tmod, Int.natAbs_neg, Int.natAbs_of_nonneg (Int.tmod_nonneg b (Int.natCast_nonneg m))]
  · rw [if_neg ha.not_gt, Int.natAbs_of_nonneg (Int.tmod_nonneg b ha)]

theorem ofInt_tdiv (A B : BitVec w) : BitVec.ofInt w (A.toInt.tdiv B.toInt) = A.sdiv B := by
  apply BitVec.eq_of_toInt_eq
  rw [BitVec.toInt_ofInt, BitVec.toInt_sdiv]

theorem ofInt_tmod (A B : BitVec w) : BitVec.ofInt w (A.toInt.tmod B.toInt) = A.srem B := by
  rw [← BitVec.toInt_srem, BitVec.ofInt_toInt]

/-! ## Division with masked integers -/

theorem toNat_eq_zero_iff (A : BitVec w) : A.toNat = 0 ↔ A = 0 :=
  ⟨fun h ↦ BitVec.eq_of_toNat_eq h, fun h ↦ by rw [h]; rfl⟩

theorem ofInt_neg_one : BitVec.ofInt w (-1) = BitVec.allOnes w := by
  rw [← BitVec.neg_one_eq_allOnes, BitVec.ofInt_neg]
  rfl

theorem eq_allOnes_of_toInt {B : BitVec w} (h : B.toInt = -1) : B = BitVec.allOnes w := by
  rw [← ofInt_neg_one, ← h, BitVec.ofInt_toInt]

theorem eq_intMin_of_toInt {A : BitVec w} (h : A.toInt = -(2 ^ (w - 1))) : A = BitVec.intMin w := by
  rw [← BitVec.ofInt_toInt (x := A), h, BitVec.ofInt_neg, ← BitVec.neg_intMin, BitVec.intMin]
  congr 1
  apply BitVec.eq_of_toNat_eq
  rw [BitVec.toNat_ofInt, BitVec.toNat_twoPow]
  norm_cast

theorem divide_signed_overflow (A B : BitVec w) (hA : A.toInt = -(2 ^ (w - 1))) (hB : B.toInt = -1) :
    Divider.divide true A B = (A, 0) := by
  have hAll := eq_allOnes_of_toInt hB
  have hMin := eq_intMin_of_toInt hA
  have h0 : B ≠ 0 := by
    rintro rfl
    simp at hB
  rw [Divider.divide, if_neg h0, if_pos (by simp [hAll, hMin, BitVec.intMin])]

section Masked

variable (hw : 0 < w) (A B : BitVec w)

include hw

theorem toNat_divide_signed_fst :
    (if B.toNat = 0 then uXlen (-1) w
      else if sXlen A.toNat w = -(2 ^ (w - 1)) ∧ sXlen B.toNat w = -1 then A.toNat
      else uXlen (IssConfig.signedQuot (sXlen A.toNat w) (sXlen B.toNat w)) w) =
      (Divider.divide true A B).1.toNat := by
  simp only [sXlen_toNat, toNat_eq_zero_iff, signedQuot_eq, uXlen_eq, ofInt_tdiv]
  split_ifs with h0 hover
  · rw [Divider.divide, if_pos h0, ofInt_neg_one]
  · rw [divide_signed_overflow A B hover.1 hover.2]
  · rw [Divider.divide_signed hw A h0]

theorem toNat_divide_signed_snd :
    (if B.toNat = 0 then A.toNat
      else if sXlen A.toNat w = -(2 ^ (w - 1)) ∧ sXlen B.toNat w = -1 then 0
      else uXlen (IssConfig.signedRem (sXlen A.toNat w) (sXlen B.toNat w)) w) =
      (Divider.divide true A B).2.toNat := by
  simp only [sXlen_toNat, toNat_eq_zero_iff, signedRem_eq, uXlen_eq, ofInt_tmod]
  split_ifs with h0 hover
  · rw [Divider.divide, if_pos h0]
  · rw [divide_signed_overflow A B hover.1 hover.2]
    rfl
  · rw [Divider.divide_signed hw A h0]

theorem toNat_divide_unsigned_fst :
    (if B.toNat = 0 then uXlen (-1) w else uXlen A.toNat w / uXlen B.toNat w) =
      (Divider.divide false A B).1.toNat := by
  simp only [uXlen_toNat, toNat_eq_zero_iff]
  split_ifs with h0
  · rw [Divider.divide, if_pos h0, uXlen_eq, ofInt_neg_one]
  · rw [Divider.divide_unsigned hw A h0, BitVec.toNat_udiv]

theorem toNat_divide_unsigned_snd :
    (if B.toNat = 0 then A.toNat else uXlen A.toNat w % uXlen B.toNat w) =
      (Divider.divide false A B).2.toNat := by
  simp only [uXlen_toNat, toNat_eq_zero_iff]
  split_ifs with h0
  · rw [Divider.divide, if_pos h0]
  · rw [Divider.divide_unsigned hw A h0, BitVec.toNat_umod]

end Masked

/-- Splitting a byte off. -/
theorem mod_two_pow_succ (v n : ℕ) :
    v % 2 ^ (8 * (n + 1)) = v % 2 ^ (8 * n) ||| (v / 2 ^ (8 * n) % 2 ^ 8) <<< (8 * n) := by
  have hlt : v % 2 ^ (8 * n) < 2 ^ (8 * n) := Nat.mod_lt v (Nat.two_pow_pos _)
  rw [Nat.or_comm, Nat.shiftLeft_eq, mul_comm _ (2 ^ (8 * n)),
    ← Nat.two_pow_add_eq_or_of_lt hlt, mul_add, mul_one, pow_add, Nat.mod_mul, add_comm]

/-! ## Register-register operations -/

/-- What EX computes for an integer operation. -/
def execInt (ctl : AluCtl) (a b : BitVec w) : BitVec w :=
  if ctl = .div ∨ ctl = .divu then (Divider.divide (ctl == .div) a b).1
  else if ctl = .rem ∨ ctl = .remu then (Divider.divide (ctl == .rem) a b).2
  else aluOut ctl a b false

/-- The function codes of the base instructions and of the M extension. -/
def legalR (f7 : BitVec 7) (f3 : BitVec 3) : Bool :=
  f7 == funct7Base || f7 == funct7Muldiv ||
    (f7 == funct7Alt && (f3 == 0b000#3 || f3 == 0b101#3))

/-- The function codes of the register-immediate instructions. -/
def legalI (f7 : BitVec 7) (f3 : BitVec 3) : Bool :=
  if f3 == 0b001#3 then f7 == funct7Base
  else if f3 == 0b101#3 then f7 == funct7Base || f7 == funct7Alt
  else true

theorem funct3_cases (f : BitVec 3) : f = 0b000#3 ∨ f = 0b001#3 ∨ f = 0b010#3 ∨ f = 0b011#3 ∨
    f = 0b100#3 ∨ f = 0b101#3 ∨ f = 0b110#3 ∨ f = 0b111#3 := by
  revert f
  decide

namespace IssConfig

/-- The four divisions, by function code. -/
theorem mulDiv_divRem {C : IssConfig} (hw : 0 < w) (hC : C.xlen = w) (A B : BitVec w) :
    C.mulDiv 0b100#3 A.toNat B.toNat = (Divider.divide true A B).1.toNat ∧
    C.mulDiv 0b101#3 A.toNat B.toNat = (Divider.divide false A B).1.toNat ∧
    C.mulDiv 0b110#3 A.toNat B.toNat = (Divider.divide true A B).2.toNat ∧
    C.mulDiv 0b111#3 A.toNat B.toNat = (Divider.divide false A B).2.toNat := by
  subst hC
  exact ⟨toNat_divide_signed_fst hw A B, toNat_divide_unsigned_fst hw A B,
    toNat_divide_signed_snd hw A B, toNat_divide_unsigned_snd hw A B⟩

variable {C : IssConfig} (hC : C.xlen = 32) (A B : BitVec 32)

include hC

theorem uxlen_eq (v : ℤ) : C.uxlen v = (BitVec.ofInt 32 v).toNat := by
  rw [uxlen, hC, uXlen_eq]

theorem uxlen_toNat : C.uxlen A.toNat = A.toNat := by
  rw [uxlen, hC, uXlen_toNat]

theorem sxlen_toNat : C.sxlen A.toNat = A.toInt := by
  rw [sxlen, hC, sXlen_toNat]

theorem mulDiv_mul : C.mulDiv 0b000#3 A.toNat B.toNat = (A * B).toNat := by
  rw [mulDiv, if_pos rfl, uxlen_eq hC, BitVec.ofInt_mul, ofInt_natCast_toNat, ofInt_natCast_toNat]

theorem mulDiv_mulh :
    C.mulDiv 0b001#3 A.toNat B.toNat = (execInt .mulh A B).toNat := by
  have hprod : A.signExtend (2 * 32) * B.signExtend (2 * 32) =
      BitVec.ofInt (2 * 32) (A.toInt * B.toInt) := by
    rw [BitVec.ofInt_mul]
    rfl
  change C.uxlen ((C.sxlen A.toNat * C.sxlen B.toNat) >>> C.xlen) =
    ((A.signExtend (2 * 32) * B.signExtend (2 * 32)).extractLsb' 32 32).toNat
  rw [hprod, extractLsb_ofInt, sxlen_toNat hC, sxlen_toNat hC, uxlen_eq hC, hC]

theorem mulDiv_mulhsu :
    C.mulDiv 0b010#3 A.toNat B.toNat = (execInt .mulhsu A B).toNat := by
  have hprod : A.signExtend (2 * 32) * B.setWidth (2 * 32) =
      BitVec.ofInt (2 * 32) (A.toInt * B.toNat) := by
    rw [BitVec.ofInt_mul, BitVec.ofInt_natCast, BitVec.ofNat_toNat]
    rfl
  change C.uxlen ((C.sxlen A.toNat * C.uxlen B.toNat) >>> C.xlen) =
    ((A.signExtend (2 * 32) * B.setWidth (2 * 32)).extractLsb' 32 32).toNat
  rw [hprod, extractLsb_ofInt, sxlen_toNat hC, uxlen_toNat hC, uxlen_eq hC, hC]

theorem mulDiv_mulhu :
    C.mulDiv 0b011#3 A.toNat B.toNat = (execInt .mulhu A B).toNat := by
  have hlt : A.toNat * B.toNat < 2 ^ (2 * 32) := by
    rw [two_mul, pow_add]
    exact Nat.mul_lt_mul'' A.isLt B.isLt
  have hlt' : A.toNat * B.toNat / 2 ^ 32 < 2 ^ 32 := by
    apply Nat.div_lt_of_lt_mul
    rwa [← pow_add]
  change (C.uxlen A.toNat * C.uxlen B.toNat) >>> C.xlen =
    ((A.setWidth (2 * 32) * B.setWidth (2 * 32)).extractLsb' 32 32).toNat
  rw [uxlen_toNat hC, uxlen_toNat hC, hC, BitVec.extractLsb'_toNat, BitVec.toNat_mul,
    BitVec.toNat_setWidth_of_le (by decide), BitVec.toNat_setWidth_of_le (by decide),
    Nat.mod_eq_of_lt hlt, Nat.shiftRight_eq_div_pow, Nat.mod_eq_of_lt hlt']

theorem mulDiv_eq (f3 : BitVec 3) : C.mulDiv f3 A.toNat B.toNat =
    (execInt (aluCtrl .rtype funct7Muldiv f3) A B).toNat := by
  obtain ⟨hdiv, hdivu, hrem, hremu⟩ := mulDiv_divRem (by decide) hC A B
  rcases funct3_cases f3 with rfl | rfl | rfl | rfl | rfl | rfl | rfl | rfl
  · exact mulDiv_mul hC A B
  · exact mulDiv_mulh hC A B
  · exact mulDiv_mulhsu hC A B
  · exact mulDiv_mulhu hC A B
  · exact hdiv
  · exact hdivu
  · exact hrem
  · exact hremu

/-! ### Shifts -/

omit hC in
theorem shamt_eq : B.toNat &&& 31 = (B.setWidth (clog2 32)).toNat := by
  rw [BitVec.toNat_setWidth]
  exact Nat.and_two_pow_sub_one_eq_mod B.toNat 5

theorem uxlen_shiftLeft (n : ℕ) : C.uxlen (A.toNat <<< n : ℕ) = (A <<< n).toNat := by
  rw [uxlen_eq hC, BitVec.ofInt_natCast, BitVec.toNat_ofNat, BitVec.toNat_shiftLeft]

theorem uxlen_sshiftRight (n : ℕ) : C.uxlen (C.sxlen A.toNat >>> n) = (A.sshiftRight n).toNat := by
  rw [uxlen_eq hC, sxlen_toNat hC]
  rfl

omit hC in
theorem execInt_of_alu {ctl : AluCtl} (h : ctl ≠ .div ∧ ctl ≠ .divu ∧ ctl ≠ .rem ∧ ctl ≠ .remu) :
    execInt ctl A B = aluOut ctl A B false := by
  rw [execInt, if_neg (by simp [h]), if_neg (by simp [h])]

omit hC in
theorem toNat_flag (p : Prop) [Decidable p] :
    (if p then (1 : BitVec 32) else 0).toNat = if p then 1 else 0 := by
  split_ifs <;> rfl

theorem rtype_base (f3 : BitVec 3) : C.rtype funct7Base f3 A.toNat B.toNat =
    some (execInt (aluCtrl .rtype funct7Base f3) A B).toNat := by
  have hdec : ∀ f : BitVec 3, aluCtrl .rtype funct7Base f ≠ .div ∧
      aluCtrl .rtype funct7Base f ≠ .divu ∧ aluCtrl .rtype funct7Base f ≠ .rem ∧
      aluCtrl .rtype funct7Base f ≠ .remu := by decide
  rw [execInt_of_alu A B (hdec f3)]
  rcases funct3_cases f3 with rfl | rfl | rfl | rfl | rfl | rfl | rfl | rfl
  · change some (C.uxlen (A.toNat + B.toNat)) = some (A + B).toNat
    rw [uxlen_eq hC, BitVec.ofInt_add, ofInt_natCast_toNat, ofInt_natCast_toNat]
  · change some (C.uxlen (A.toNat <<< (B.toNat &&& (C.xlen - 1)) : ℕ)) =
      some (A <<< (B.setWidth (clog2 32)).toNat).toNat
    rw [uxlen_shiftLeft hC, hC, shamt_eq]
  · change some (if C.sxlen A.toNat < C.sxlen B.toNat then 1 else 0) =
      some (if A.slt B then (1 : BitVec 32) else 0).toNat
    simp only [sxlen_toNat hC, BitVec.slt_iff_toInt_lt, toNat_flag]
  · change some (if C.uxlen A.toNat < C.uxlen B.toNat then 1 else 0) =
      some (if A.ult B then (1 : BitVec 32) else 0).toNat
    simp only [uxlen_toNat hC, BitVec.ult_iff_lt, BitVec.lt_def, toNat_flag]
  · change some (C.uxlen (A.toNat ^^^ B.toNat : ℕ)) = some (A ^^^ B).toNat
    rw [← BitVec.toNat_xor, uxlen_toNat hC]
  · change some (C.uxlen A.toNat >>> (B.toNat &&& (C.xlen - 1))) =
      some (A >>> (B.setWidth (clog2 32)).toNat).toNat
    rw [uxlen_toNat hC, hC, BitVec.toNat_ushiftRight, shamt_eq]
  · change some (C.uxlen (A.toNat ||| B.toNat : ℕ)) = some (A ||| B).toNat
    rw [← BitVec.toNat_or, uxlen_toNat hC]
  · change some (C.uxlen (A.toNat &&& B.toNat : ℕ)) = some (A &&& B).toNat
    rw [← BitVec.toNat_and, uxlen_toNat hC]

theorem rtype_eq {f7 : BitVec 7} {f3 : BitVec 3} (h : legalR f7 f3 = true) :
    C.rtype f7 f3 A.toNat B.toNat = some (execInt (aluCtrl .rtype f7 f3) A B).toNat := by
  simp only [legalR, Bool.or_eq_true, Bool.and_eq_true, beq_iff_eq] at h
  rcases h with (rfl | rfl) | ⟨rfl, rfl | rfl⟩
  · exact rtype_base hC A B f3
  · rw [← mulDiv_eq hC]
    rfl
  · change some (C.uxlen (A.toNat - B.toNat)) = some (A - B).toNat
    rw [uxlen_eq hC, sub_eq_add_neg, BitVec.ofInt_add, BitVec.ofInt_neg, ofInt_natCast_toNat,
      ofInt_natCast_toNat, BitVec.sub_eq_add_neg]
  · change some (C.uxlen (C.sxlen A.toNat >>> (B.toNat &&& (C.xlen - 1)))) =
      some (A.sshiftRight (B.setWidth (clog2 32)).toNat).toNat
    rw [uxlen_sshiftRight hC, hC, shamt_eq]

/-! ### Immediates -/

omit hC in
theorem immGen_shift {word : BitVec 32} (hop : opcodeOf word = opcodeI)
    (hf : funct3Of word = 0b001#3 ∨ funct3Of word = 0b101#3) :
    ((immGen 32 word).setWidth (clog2 32)).toNat = (word.extractLsb' 20 5).toNat := by
  have himm : immGen 32 word = (word.extractLsb' 20 5).setWidth 32 := by
    have hop' : word.extractLsb' 0 7 = opcodeI := hop
    have hf' : word.extractLsb' 12 3 = 0b101#3 ∨ word.extractLsb' 12 3 = 0b001#3 := hf.symm
    simp only [immGen, hop', hf', if_true]
    rfl
  rw [himm, show clog2 32 = 5 by decide, BitVec.setWidth_setWidth_of_le _ (by decide),
    BitVec.setWidth_eq]

omit hC in
theorem immGen_itype {word : BitVec 32} (hop : opcodeOf word = opcodeI)
    (hf : ¬(funct3Of word = 0b001#3 ∨ funct3Of word = 0b101#3)) :
    immGen 32 word = BitVec.ofInt 32 (immI word) := by
  have hop' : word.extractLsb' 0 7 = opcodeI := hop
  have hf' : ¬(word.extractLsb' 12 3 = 0b101#3 ∨ word.extractLsb' 12 3 = 0b001#3) :=
    fun h ↦ hf h.symm
  simp only [immGen, hop', hf', if_true, if_false]
  rfl

omit hC in
theorem toInt_immI (word : BitVec 32) : (BitVec.ofInt 32 (immI word)).toInt = immI word :=
  BitVec.toInt_signExtend_of_le (x := word.extractLsb' 20 12) (by decide)

theorem itype_shift {word : BitVec 32} (hop : opcodeOf word = opcodeI)
    (h : legalI (funct7Of word) (funct3Of word) = true)
    (hf : funct3Of word = 0b001#3 ∨ funct3Of word = 0b101#3) : C.itype word A.toNat =
      (aluOut (aluCtrl .itype (funct7Of word) (funct3Of word)) A (immGen 32 word) false).toNat := by
  have hx : ¬64 ≤ C.xlen := by
    rw [hC]
    decide
  have hsh := immGen_shift hop hf
  rw [itype, if_pos hf]
  dsimp only
  rw [if_neg hx, if_neg hx]
  rcases hf with hf | hf
  · rw [hf] at h ⊢
    change C.uxlen (A.toNat <<< (word.extractLsb' 20 5).toNat : ℕ) =
      (A <<< ((immGen 32 word).setWidth (clog2 32)).toNat).toNat
    rw [hsh, uxlen_shiftLeft hC]
  · rw [hf] at h ⊢
    have h7 : funct7Of word = funct7Base ∨ funct7Of word = funct7Alt := by simpa [legalI] using h
    rcases h7 with h7 | h7
    · rw [h7]
      change C.uxlen A.toNat >>> (word.extractLsb' 20 5).toNat =
        (A >>> ((immGen 32 word).setWidth (clog2 32)).toNat).toNat
      rw [hsh, uxlen_toNat hC, BitVec.toNat_ushiftRight]
    · rw [h7]
      change C.uxlen (C.sxlen A.toNat >>> (word.extractLsb' 20 5).toNat) =
        (A.sshiftRight ((immGen 32 word).setWidth (clog2 32)).toNat).toNat
      rw [hsh, uxlen_sshiftRight hC]

theorem itype_eq {word : BitVec 32} (hop : opcodeOf word = opcodeI)
    (h : legalI (funct7Of word) (funct3Of word) = true) : C.itype word A.toNat =
      (aluOut (aluCtrl .itype (funct7Of word) (funct3Of word)) A (immGen 32 word) false).toNat := by
  by_cases hshift : funct3Of word = 0b001#3 ∨ funct3Of word = 0b101#3
  · exact itype_shift hC A hop h hshift
  · rw [itype, if_neg hshift, immGen_itype hop hshift]
    have himm := uxlen_eq hC (immI word)
    push Not at hshift
    rcases funct3_cases (funct3Of word) with hf | hf | hf | hf | hf | hf | hf | hf
    · rw [hf]
      change C.uxlen (A.toNat + immI word) = (A + BitVec.ofInt 32 (immI word)).toNat
      rw [uxlen_eq hC, BitVec.ofInt_add, ofInt_natCast_toNat]
    · exact absurd hf hshift.1
    · rw [hf]
      change (if C.sxlen A.toNat < immI word then 1 else 0) =
        (if A.slt (BitVec.ofInt 32 (immI word)) then (1 : BitVec 32) else 0).toNat
      simp only [sxlen_toNat hC, BitVec.slt_iff_toInt_lt, toNat_flag, toInt_immI]
    · rw [hf]
      change (if C.uxlen A.toNat < C.uxlen (immI word) then 1 else 0) =
        (if A.ult (BitVec.ofInt 32 (immI word)) then (1 : BitVec 32) else 0).toNat
      simp only [uxlen_toNat hC, BitVec.ult_iff_lt, BitVec.lt_def, toNat_flag, himm]
    · rw [hf]
      change C.uxlen (A.toNat ^^^ C.uxlen (immI word) : ℕ) =
        (A ^^^ BitVec.ofInt 32 (immI word)).toNat
      rw [himm, ← BitVec.toNat_xor, uxlen_toNat hC]
    · exact absurd hf hshift.2
    · rw [hf]
      change C.uxlen (A.toNat ||| C.uxlen (immI word) : ℕ) =
        (A ||| BitVec.ofInt 32 (immI word)).toNat
      rw [himm, ← BitVec.toNat_or, uxlen_toNat hC]
    · rw [hf]
      change C.uxlen (A.toNat &&& C.uxlen (immI word) : ℕ) =
        (A &&& BitVec.ofInt 32 (immI word)).toNat
      rw [himm, ← BitVec.toNat_and, uxlen_toNat hC]

end IssConfig

end RvPipeline
