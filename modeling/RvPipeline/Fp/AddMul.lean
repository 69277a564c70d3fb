import RvPipeline.Fp.Sum

/-!
# Addition, subtraction and multiplication

The results of `FALU.v` against the exact reference.
-/

namespace RvPipeline

open Rounding

namespace Fp

open IssFloat

/-! ## Decoded operands -/

theorem exp_toNat_eq_iff (x : BitVec 32) (v : BitVec 8) :
    (x.extractLsb' 23 8).toNat = v.toNat ↔ exp x = v :=
  ⟨fun h ↦ BitVec.eq_of_toNat_eq h, fun h ↦ congrArg BitVec.toNat h⟩

theorem frac_toNat_eq_zero_iff (x : BitVec 32) : (x.extractLsb' 0 23).toNat = 0 ↔ frac x = 0 :=
  ⟨fun h ↦ BitVec.eq_of_toNat_eq h, fun h ↦ congrArg BitVec.toNat h⟩

/-- The magnitude of a normal number. -/
def mag (x : BitVec 32) : ℚ := (mant x).toNat * 2 ^ (expU x - 23)

theorem toNat_mant (x : BitVec 32) : (mant x).toNat = 2 ^ 23 + (frac x).toNat := by
  rw [mant, BitVec.toNat_append, ← Nat.shiftLeft_add_eq_or_of_lt (frac x).isLt]
  rfl

theorem mant_bounds (x : BitVec 32) : 2 ^ 23 ≤ (mant x).toNat ∧ (mant x).toNat < 2 ^ 24 := by
  have hlt := (frac x).isLt
  rw [toNat_mant]
  omega

theorem mag_pos (x : BitVec 32) : 0 < mag x := by
  have hm : (0 : ℚ) < (mant x).toNat := by
    have := (mant_bounds x).1
    exact_mod_cast (by omega : 0 < (mant x).toNat)
  rw [mag]
  positivity

@[simp] theorem decode_sign (x : BitVec 32) : (f32Decode x).sign = sign x := by
  unfold f32Decode
  dsimp only
  split_ifs <;> rfl

@[simp] theorem decode_isZero (x : BitVec 32) : (f32Decode x).isZero = isZero x := by
  have hff := exp_toNat_eq_iff x 0xFF#8
  have h0 := exp_toNat_eq_iff x 0x00#8
  unfold f32Decode isZero
  dsimp only
  split_ifs with h1 h2 h3
  · rw [hff.1 h1]
    rfl
  · rw [hff.1 h1]
    rfl
  · rw [h0.1 h3]
    rfl
  · exact (beq_eq_false_iff_ne.2 fun h ↦ h3 (h0.2 h)).symm

@[simp] theorem decode_isInf (x : BitVec 32) : (f32Decode x).isInf = isInf x := by
  have hff := exp_toNat_eq_iff x 0xFF#8
  unfold f32Decode isInf
  dsimp only
  split_ifs with h1 h2 h3
  · rw [hff.1 h1, (frac_toNat_eq_zero_iff x).1 h2]
    rfl
  · rw [hff.1 h1, beq_eq_false_iff_ne.2 fun h ↦ h2 ((frac_toNat_eq_zero_iff x).2 h)]
    rfl
  · rw [beq_eq_false_iff_ne.2 fun h ↦ h1 (hff.2 h)]
    rfl
  · rw [beq_eq_false_iff_ne.2 fun h ↦ h1 (hff.2 h)]
    rfl

theorem decode_isNan_isSnan (x : BitVec 32) :
    (f32Decode x).isNan = isNan x ∧ (f32Decode x).isSnan = isSnan x := by
  have hff := exp_toNat_eq_iff x 0xFF#8
  have hbit : (x.extractLsb' 0 23).toNat.testBit 22 = x.getLsbD 22 := by
    rw [← BitVec.getLsbD, BitVec.getLsbD_extractLsb']
    rfl
  unfold f32Decode isSnan isNan
  dsimp only
  split_ifs with h1 h2 h3
  · rw [hff.1 h1, (frac_toNat_eq_zero_iff x).1 h2]
    exact ⟨rfl, rfl⟩
  · have hne : (frac x != 0) = true := by
      simpa using fun h ↦ h2 ((frac_toNat_eq_zero_iff x).2 h)
    rw [hff.1 h1, hne, hbit]
    exact ⟨rfl, rfl⟩
  · rw [beq_eq_false_iff_ne.2 fun h ↦ h1 (hff.2 h)]
    exact ⟨rfl, rfl⟩
  · rw [beq_eq_false_iff_ne.2 fun h ↦ h1 (hff.2 h)]
    exact ⟨rfl, rfl⟩

@[simp] theorem decode_isNan (x : BitVec 32) : (f32Decode x).isNan = isNan x :=
  (decode_isNan_isSnan x).1

@[simp] theorem decode_isSnan (x : BitVec 32) : (f32Decode x).isSnan = isSnan x :=
  (decode_isNan_isSnan x).2

/-- A number that is neither special nor zero. -/
structure Normal (x : BitVec 32) : Prop where
  notNan : isNan x = false
  notInf : isInf x = false
  notZero : isZero x = false

theorem Normal.exp_ne {x : BitVec 32} (h : Normal x) : exp x ≠ 0xFF#8 ∧ exp x ≠ 0x00#8 := by
  obtain ⟨hnan, hinf, hzero⟩ := h
  refine ⟨fun he ↦ ?_, by simpa [isZero] using hzero⟩
  rw [isNan, he] at hnan
  rw [isInf, he] at hinf
  simp_all

theorem Normal.magnitude {x : BitVec 32} (h : Normal x) : (f32Decode x).magnitude = mag x := by
  obtain ⟨hff, h0⟩ := h.exp_ne
  have h1 : ¬(x.extractLsb' 23 8).toNat = 0xFF := fun he ↦ hff ((exp_toNat_eq_iff x 0xFF#8).1 he)
  have h2 : ¬(x.extractLsb' 23 8).toNat = 0 := fun he ↦ h0 ((exp_toNat_eq_iff x 0x00#8).1 he)
  have hor : 2 ^ 23 ||| (x.extractLsb' 0 23).toNat = (mant x).toNat := by
    have hlt := (frac x).isLt
    have hadd := Nat.two_pow_add_eq_or_of_lt hlt 1
    rw [toNat_mant]
    rw [mul_one] at hadd
    exact hadd.symm
  unfold f32Decode
  dsimp only
  rw [if_neg h1, if_neg h2]
  dsimp only
  rw [hor, mag, expU, zpow_sub₀ two_ne_zero _ 23, div_mul_eq_mul_div, mul_div_assoc]
  rfl

/-! ## `FADD` and `FSUB` -/

/-- The operand in the frame of the adder. -/
theorem frame_mag (x : BitVec 32) :
    ((mant x ++ 0b000#3 : BitVec 27).toNat : ℚ) * 2 ^ (expU x - (26 : ℕ)) = mag x := by
  rw [toNat_append_zero, mag, Nat.cast_mul, mul_assoc]
  congr 1
  push_cast
  rw [show expU x - 26 = expU x - 23 - 3 by ring, zpow_sub₀ two_ne_zero _ 3]
  exact mul_div_cancel₀ _ (by norm_num)

/-- The sum of two numbers in the frame of the adder, the larger first. -/
def alignedSum (same : Bool) (big small : BitVec 32) : BitVec 28 :=
  let bigAl : BitVec 27 := mant big ++ 0b000#3
  let smallAl : BitVec 27 := shiftRightSticky (mant small ++ 0b000#3) (expU big - expU small)
  if same then 0#1 ++ bigAl + (0#1 ++ smallAl) else 0#1 ++ bigAl - (0#1 ++ smallAl)

/-- How the adder rounds its sum. -/
def roundAligned (sgn : Bool) (e : ℤ) (sum : BitVec 28) (rm : BitVec 3) : Result :=
  if sum = 0 then { result := zero (decide (rm = rmRdn)) }
  else
    let p := if !sum.getLsbD 27 && !sum.getLsbD 26 then renormLoop 26 27 sum else (sum, 0)
    roundAndPack sgn (e - p.2) (p.1.extractLsb' 3 25) (p.1.getLsbD 2) (p.1.getLsbD 1)
      (p.1.getLsbD 0) rm

theorem roundAligned_eq {big small : BitVec 32} {rm : BitVec 3} (sgn same : Bool)
    (hexp : expU small ≤ expU big) (hmant : expU small = expU big → mant small ≤ mant big) :
    roundAligned sgn (expU big) (alignedSum same big small) rm =
      roundSumExact (signed sgn (if same then mag big + mag small else mag big - mag small)) rm := by
  have hB : (mant big ++ 0b000#3 : BitVec 27).toNat = (mant big).toNat * 2 ^ 3 :=
    toNat_append_zero _
  have hS : (mant small ++ 0b000#3 : BitVec 27).toNat = (mant small).toNat * 2 ^ 3 :=
    toNat_append_zero _
  have hlead := (mant_bounds big).1
  exact roundSum_framed (j := 0) hexp (by rw [hB]; omega) (by rw [hB]; omega) (by rw [hS]; omega)
    (fun h ↦ by
      have hle := BitVec.le_def.1 (hmant h)
      rw [hB, hS]
      omega)
    (frame_mag big) (frame_mag small) (by decide) rfl (bits_two _)

/-- The path of the adder for two normal numbers. -/
def addsubFinite (isSub : Bool) (rm : BitVec 3) (a b : BitVec 32) : Result :=
  let effSignB := sign b ^^ isSub
  let swap := if expU a = expU b then decide (mant a < mant b) else decide (expU a < expU b)
  let big := if swap then b else a
  let small := if swap then a else b
  roundAligned (if swap then effSignB else sign a) (expU big)
    (alignedSum (sign a == effSignB) big small) rm

/-- The operands that need no addition. -/
def addsubSpecial (isSub : Bool) (rm : BitVec 3) (a b : BitVec 32) : Option Result :=
  let effSignB := sign b ^^ isSub
  if isNan a || isNan b then
    some { result := canonicalNan, flags := flagNv (isSnan a || isSnan b) }
  else if isInf a && isInf b && (sign a != effSignB) then
    some { result := canonicalNan, flags := flagNv true }
  else if isInf a then some { result := infinity (sign a) }
  else if isInf b then some { result := infinity effSignB }
  else if isZero a && isZero b then
    some { result := zero (if sign a == effSignB then sign a else decide (rm = rmRdn)) }
  else if isZero a then some { result := pack effSignB (exp b) (frac b) }
  else if isZero b then some { result := a }
  else none

theorem addsub_eq (isSub : Bool) (rm : BitVec 3) (a b : BitVec 32) :
    addsub isSub rm a b = (addsubSpecial isSub rm a b).getD (addsubFinite isSub rm a b) := by
  have hdef : addsub isSub rm a b =
      if isNan a || isNan b then
        { result := canonicalNan, flags := flagNv (isSnan a || isSnan b) }
      else if isInf a && isInf b && (sign a != (sign b ^^ isSub)) then
        { result := canonicalNan, flags := flagNv true }
      else if isInf a then { result := infinity (sign a) }
      else if isInf b then { result := infinity (sign b ^^ isSub) }
      else if isZero a && isZero b then
        { result := zero (if sign a == (sign b ^^ isSub) then sign a else decide (rm = rmRdn)) }
      else if isZero a then { result := pack (sign b ^^ isSub) (exp b) (frac b) }
      else if isZero b then { result := a }
      else addsubFinite isSub rm a b := rfl
  rw [hdef]
  unfold addsubSpecial
  dsimp only
  split_ifs <;> rfl

theorem addsubFinite_eq (isSub : Bool) (rm : BitVec 3) (a b : BitVec 32) :
    addsubFinite isSub rm a b =
      roundSumExact (signed (sign a) (mag a) + signed (sign b ^^ isSub) (mag b)) rm := by
  set effSignB := sign b ^^ isSub with heff
  have hswap : (if expU a = expU b then decide (mant a < mant b) else decide (expU a < expU b)) =
      decide (expU a < expU b ∨ (expU a = expU b ∧ mant a < mant b)) := by
    split_ifs with h
    · rw [decide_eq_decide]
      simp [h]
    · rw [decide_eq_decide]
      simp [h]
  unfold addsubFinite
  simp only [hswap, ← heff]
  by_cases hlt : expU a < expU b ∨ (expU a = expU b ∧ mant a < mant b)
  · simp only [hlt, decide_true, if_true]
    have htotal : signed (sign a) (mag a) + signed effSignB (mag b) =
        signed effSignB (if sign a == effSignB then mag b + mag a else mag b - mag a) := by
      rw [add_comm, signed_add_signed, Bool.beq_comm]
    rw [htotal]
    refine roundAligned_eq effSignB (sign a == effSignB) (by omega) fun h ↦ ?_
    rcases hlt with h' | h'
    · omega
    · exact BitVec.le_of_lt h'.2
  · simp only [hlt, decide_false, Bool.false_eq_true, if_false]
    rw [signed_add_signed]
    refine roundAligned_eq (sign a) (sign a == effSignB) (by omega) fun h ↦ ?_
    rw [not_or, not_and] at hlt
    exact BitVec.not_lt.1 (hlt.2 h.symm)

/-! ## `FMUL` -/

/-- The product of the significands. -/
def product (a b : BitVec 32) : BitVec 48 := (mant a).setWidth 48 * (mant b).setWidth 48

theorem toNat_product (a b : BitVec 32) :
    (product a b).toNat = (mant a).toNat * (mant b).toNat := by
  have ha := (mant_bounds a).2
  have hb := (mant_bounds b).2
  have hlt : (mant a).toNat * (mant b).toNat < 2 ^ 24 * 2 ^ 24 := Nat.mul_lt_mul'' ha hb
  rw [product, BitVec.toNat_mul, BitVec.toNat_setWidth_of_le (by decide),
    BitVec.toNat_setWidth_of_le (by decide)]
  exact Nat.mod_eq_of_lt hlt

theorem product_ge (a b : BitVec 32) : 2 ^ 46 ≤ (product a b).toNat := by
  rw [toNat_product, show 2 ^ 46 = 2 ^ 23 * 2 ^ 23 from rfl]
  exact Nat.mul_le_mul (mant_bounds a).1 (mant_bounds b).1

theorem product_mag (a b : BitVec 32) {e : ℤ} (he : e = expU a + expU b - 46) :
    ((product a b).toNat : ℚ) * 2 ^ e = mag a * mag b := by
  rw [toNat_product, mag, mag, he, show expU a + expU b - 46 = expU a - 23 + (expU b - 23) by ring,
    zpow_add₀ two_ne_zero, Nat.cast_mul]
  ring

theorem decide_extractLsb_ne {N k : ℕ} (v : BitVec N) :
    (v.extractLsb' 0 k != 0) = decide (v.toNat % 2 ^ k ≠ 0) := by
  have hnat : (v.extractLsb' 0 k).toNat = v.toNat % 2 ^ k := by
    rw [BitVec.extractLsb'_toNat, Nat.shiftRight_zero]
  rw [bne, Bool.eq_iff_iff, Bool.not_eq_true', beq_eq_false_iff_ne, decide_eq_true_iff, ← hnat]
  exact not_congr ⟨fun h ↦ by rw [h]; simp, fun h ↦ BitVec.eq_of_toNat_eq (by simpa using h)⟩

/-- Round and sticky bit together. -/
theorem round_or_sticky {N : ℕ} (v : BitVec N) (k : ℕ) :
    (v.getLsbD k || v.extractLsb' 0 k != 0) = decide (v.toNat % 2 ^ (k + 1) ≠ 0) := by
  rw [decide_extractLsb_ne, BitVec.getLsbD, Nat.testBit_eq_decide_div_mod_eq, ← Bool.decide_or,
    decide_eq_decide, pow_succ, Nat.mod_mul]
  have hpos := Nat.two_pow_pos k
  rcases Nat.mod_two_eq_zero_or_one (v.toNat / 2 ^ k) with h | h
  · simp [h]
  · simp [h]

/-- Rounding of the leading 24 of the bits of `v`. -/
theorem roundAndPack_extract {N j : ℕ} {v : BitVec N} (hlow : 2 ^ (j + 25) ≤ v.toNat)
    (hhigh : v.toNat < 2 ^ (j + 26)) (sgn : Bool) (e : ℤ) (rm : BitVec 3) :
    roundAndPack sgn e (0#1 ++ v.extractLsb' (j + 2) 24) (v.getLsbD (j + 1)) (v.getLsbD j)
        (v.extractLsb' 0 j != 0) rm =
      roundExact sgn (v.toNat * 2 ^ (e - (j + 25 : ℕ))) rm := by
  refine roundAndPack_odd (.inl rfl) hlow ?_ rfl (round_or_sticky v j)
  rw [BitVec.toNat_append, BitVec.toNat_ofNat, Nat.zero_mod, Nat.zero_shiftLeft, Nat.zero_or,
    BitVec.extractLsb'_toNat, Nat.shiftRight_eq_div_pow, Nat.mod_eq_of_lt]
  rw [Nat.div_lt_iff_lt_mul (Nat.two_pow_pos _), ← pow_add, show 24 + (j + 2) = j + 26 by omega]
  exact hhigh

/-- The path of the multiplier for two normal numbers. -/
def mulFinite (rm : BitVec 3) (a b : BitVec 32) : Result :=
  let s := sign a ^^ sign b
  let p := product a b
  if p.getLsbD 47 then
    roundAndPack s (expU a + expU b + 1) (0#1 ++ p.extractLsb' 24 24) (p.getLsbD 23)
      (p.getLsbD 22) (p.extractLsb' 0 22 != 0) rm
  else
    roundAndPack s (expU a + expU b) (0#1 ++ p.extractLsb' 23 24) (p.getLsbD 22)
      (p.getLsbD 21) (p.extractLsb' 0 21 != 0) rm

/-- The operands that need no multiplication. -/
def mulSpecial (a b : BitVec 32) : Option Result :=
  let s := sign a ^^ sign b
  if isNan a || isNan b then
    some { result := canonicalNan, flags := flagNv (isSnan a || isSnan b) }
  else if (isInf a && isZero b) || (isZero a && isInf b) then
    some { result := canonicalNan, flags := flagNv true }
  else if isInf a || isInf b then some { result := infinity s }
  else if isZero a || isZero b then some { result := zero s }
  else none

theorem mul_eq (rm : BitVec 3) (a b : BitVec 32) :
    mul rm a b = (mulSpecial a b).getD (mulFinite rm a b) := by
  have hdef : mul rm a b =
      if isNan a || isNan b then
        { result := canonicalNan, flags := flagNv (isSnan a || isSnan b) }
      else if (isInf a && isZero b) || (isZero a && isInf b) then
        { result := canonicalNan, flags := flagNv true }
      else if isInf a || isInf b then { result := infinity (sign a ^^ sign b) }
      else if isZero a || isZero b then { result := zero (sign a ^^ sign b) }
      else mulFinite rm a b := rfl
  rw [hdef]
  unfold mulSpecial
  dsimp only
  split_ifs <;> rfl

theorem mulFinite_eq (rm : BitVec 3) (a b : BitVec 32) :
    mulFinite rm a b = roundExact (sign a ^^ sign b) (mag a * mag b) rm := by
  have hge := product_ge a b
  have hlt := (product a b).isLt
  have htop := getLsbD_top 47 hlt
  unfold mulFinite
  dsimp only
  split_ifs with h47
  · rw [← product_mag a b (e := expU a + expU b + 1 - (22 + 25 : ℕ)) (by push_cast; ring)]
    exact roundAndPack_extract (htop.1 h47) hlt _ _ rm
  · have hlt' : (product a b).toNat < 2 ^ 47 := not_le.1 fun h ↦ h47 (htop.2 h)
    rw [← product_mag a b (e := expU a + expU b - (21 + 25 : ℕ)) (by push_cast; ring)]
    exact roundAndPack_extract hge hlt' _ _ rm

/-! ## Against the reference -/

theorem roundExact_result (sgn : Bool) (x : ℚ) (rm : BitVec 3) :
    (roundExact sgn x rm).result = (f32RoundFromFraction sgn x rm).result :=
  packRounded_result _ _ _ _ _

theorem roundSumExact_result (total : ℚ) (rm : BitVec 3) :
    (roundSumExact total rm).result = (roundSum total rm).result := by
  unfold roundSumExact roundSum
  split_ifs
  · rfl
  · exact roundExact_result _ _ _

theorem flagNv_eq (b : Bool) : flagNv b = flagIf b fNv := by
  cases b <;> rfl

theorem canonicalNan_eq : canonicalNan = IssFloat.canonicalNan := rfl

theorem fAdd_eq (isSub : Bool) (rm : BitVec 3) (a b : BitVec 32) :
    fAdd a b rm isSub = (addsubSpecial isSub rm a b).getD
      (roundSum (signed (sign a) (mag a) + signed (sign b ^^ isSub) (mag b)) rm) := by
  unfold fAdd addsubSpecial
  simp only [decode_isNan, decode_isSnan, decode_isInf, decode_isZero, decode_sign, flagNv_eq,
    infinity_eq, zero_eq, pack_exp_frac, canonicalNan_eq]
  split_ifs with hnan hinv hia hib hzz hs hza hzb
  any_goals rfl
  -- what is left is the sum of two normal numbers
  rw [Bool.or_eq_true, not_or, Bool.not_eq_true, Bool.not_eq_true] at hnan
  have ha : Normal a := ⟨hnan.1, by simpa using hia, by simpa using hza⟩
  have hb : Normal b := ⟨hnan.2, by simpa using hib, by simpa using hzb⟩
  rw [ha.magnitude, hb.magnitude]
  rfl

theorem fMul_eq (rm : BitVec 3) (a b : BitVec 32) :
    fMul a b rm = (mulSpecial a b).getD
      (f32RoundFromFraction (sign a ^^ sign b) (mag a * mag b) rm) := by
  unfold fMul mulSpecial
  simp only [decode_isNan, decode_isSnan, decode_isInf, decode_isZero, decode_sign, flagNv_eq,
    infinity_eq, zero_eq, canonicalNan_eq]
  split_ifs with hnan hinv hinf hz
  any_goals rfl
  simp only [Bool.or_eq_true, not_or, Bool.not_eq_true] at hnan hinf hz
  have ha : Normal a := ⟨hnan.1, hinf.1, hz.1⟩
  have hb : Normal b := ⟨hnan.2, hinf.2, hz.2⟩
  rw [ha.magnitude, hb.magnitude]
  rfl

/-- The adder and the multiplier of `FALU.v` return the correctly rounded results. -/
theorem falu_addMul (rm : BitVec 3) (rs2Sel : BitVec 5) (a b : BitVec 32) :
    (falu funct5Fadd rm rs2Sel a b).result = (fAdd a b rm false).result ∧
    (falu funct5Fsub rm rs2Sel a b).result = (fAdd a b rm true).result ∧
    (falu funct5Fmul rm rs2Sel a b).result = (fMul a b rm).result := by
  have hadd : ∀ isSub, (addsub isSub rm a b).result = (fAdd a b rm isSub).result := by
    intro isSub
    rw [addsub_eq, fAdd_eq]
    cases addsubSpecial isSub rm a b with
    | some r => rfl
    | none =>
      rw [Option.getD_none, Option.getD_none, addsubFinite_eq]
      exact roundSumExact_result _ rm
  refine ⟨hadd false, hadd true, ?_⟩
  change (mul rm a b).result = _
  rw [mul_eq, fMul_eq]
  cases mulSpecial a b with
  | some r => rfl
  | none =>
    rw [Option.getD_none, Option.getD_none, mulFinite_eq]
    exact roundExact_result _ _ rm

end Fp

end RvPipeline
