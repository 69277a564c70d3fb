import RvPipeline.Fp.AddMul

/-!
# Fused multiply-add

`FMADDUnit.v` adds the addend to the product of 48 bits in a frame of 112 bits and rounds once.
-/

namespace RvPipeline

open Rounding

namespace Fp

open IssFloat

/-- The product with its leading one in the last place of the frame. -/
def prodNorm (a b : BitVec 32) : BitVec 48 :=
  if (product a b).getLsbD 47 then product a b else product a b <<< 1

def prodLeadExp (a b : BitVec 32) : ℤ :=
  if (product a b).getLsbD 47 then expU a + expU b + 1 else expU a + expU b

theorem prodNorm_ge (a b : BitVec 32) : 2 ^ 47 ≤ (prodNorm a b).toNat := by
  have hge := product_ge a b
  have htop := getLsbD_top 47 (product a b).isLt
  unfold prodNorm
  split_ifs with h47
  · exact htop.1 h47
  · have hlt : (product a b).toNat < 2 ^ 47 := not_le.1 fun h ↦ h47 (htop.2 h)
    rw [BitVec.toNat_shiftLeft, Nat.shiftLeft_eq, Nat.mod_eq_of_lt (by omega)]
    omega

theorem prodNorm_mag (a b : BitVec 32) :
    ((prodNorm a b).toNat : ℚ) * 2 ^ (prodLeadExp a b - 47) = mag a * mag b := by
  have htop := getLsbD_top 47 (product a b).isLt
  unfold prodNorm prodLeadExp
  split_ifs with h47
  · exact product_mag a b (by ring)
  · have hlt : (product a b).toNat < 2 ^ 47 := not_le.1 fun h ↦ h47 (htop.2 h)
    have hval : (product a b <<< 1).toNat = (product a b).toNat * 2 := by
      rw [BitVec.toNat_shiftLeft, Nat.shiftLeft_eq, pow_one, Nat.mod_eq_of_lt (by omega)]
    rw [hval, ← product_mag a b rfl, Nat.cast_mul, mul_assoc]
    congr 1
    rw [show expU a + expU b - 46 = 1 + (expU a + expU b - 47) by ring, zpow_add₀ two_ne_zero]
    norm_num

/-! ## The frame of the sum -/

theorem frame_prod (a b : BitVec 32) :
    ((prodNorm a b ++ 0#64 : BitVec 112).toNat : ℚ) * 2 ^ (prodLeadExp a b - (111 : ℕ)) =
      mag a * mag b := by
  rw [toNat_append_zero, ← prodNorm_mag, Nat.cast_mul, mul_assoc]
  congr 1
  push_cast
  rw [show prodLeadExp a b - 111 = prodLeadExp a b - 47 - 64 by ring, zpow_sub₀ two_ne_zero _ 64]
  exact mul_div_cancel₀ _ (by norm_num)

theorem frame_addend (c : BitVec 32) :
    ((mant c ++ 0#88 : BitVec 112).toNat : ℚ) * 2 ^ (expU c - (111 : ℕ)) = mag c := by
  rw [toNat_append_zero, mag, Nat.cast_mul, mul_assoc]
  congr 1
  push_cast
  rw [show expU c - 111 = expU c - 23 - 88 by ring, zpow_sub₀ two_ne_zero _ 88]
  exact mul_div_cancel₀ _ (by norm_num)

/-- The sum of two frames, the smaller shifted by the distance of the exponents. -/
def fusedSum (same : Bool) (big small : BitVec 112) (d : ℤ) : BitVec 113 :=
  if same then 0#1 ++ big + (0#1 ++ shiftRightSticky small d)
  else 0#1 ++ big - (0#1 ++ shiftRightSticky small d)

/-- How the unit rounds its sum. -/
def roundFused (sgn : Bool) (e : ℤ) (sum : BitVec 113) (rm : BitVec 3) : Result :=
  if sum = 0 then { result := zero (decide (rm = rmRdn)) }
  else
    let p := if !sum.getLsbD 112 && !sum.getLsbD 111 then renormLoop 111 111 sum else (sum, 0)
    roundAndPack sgn (e - p.2) (p.1.extractLsb' 88 25) (p.1.getLsbD 87) (p.1.getLsbD 86)
      (p.1.extractLsb' 0 86 != 0) rm

theorem roundFused_eq {big small : BitVec 112} {E E' : ℤ} {vB vS : ℚ} (sgn same : Bool)
    (rm : BitVec 3) (hE : E' ≤ E) (hbig : 2 ^ 111 ≤ big.toNat) (hbe : big.toNat % 2 = 0)
    (hse : small.toNat % 2 = 0) (hge : E' = E → small.toNat ≤ big.toNat)
    (hvB : (big.toNat : ℚ) * 2 ^ (E - (111 : ℕ)) = vB)
    (hvS : (small.toNat : ℚ) * 2 ^ (E' - (111 : ℕ)) = vS) :
    roundFused sgn E (fusedSum same big small (E - E')) rm =
      roundSumExact (signed sgn (if same then vB + vS else vB - vS)) rm :=
  roundSum_framed (j := 85) hE hbig hbe hse hge hvB hvS (by decide) rfl
    (round_or_sticky _ 86)

/-- The path of the unit for three normal numbers. -/
def fusedFinite (op : BitVec 2) (rm : BitVec 3) (a b c : BitVec 32) : Result :=
  let prodSign := sign a ^^ sign b ^^ op.getLsbD 1
  let effSignC := sign c ^^ op.getLsbD 0
  let cIsBig := decide (prodLeadExp a b < expU c) ||
    (decide (expU c = prodLeadExp a b) && decide (prodNorm a b < (mant c ++ 0#24 : BitVec 48)))
  let prodFrame : BitVec 112 := prodNorm a b ++ 0#64
  let cFrame : BitVec 112 := mant c ++ 0#88
  roundFused (if cIsBig then effSignC else prodSign)
    (if cIsBig then expU c else prodLeadExp a b)
    (fusedSum (prodSign == effSignC) (if cIsBig then cFrame else prodFrame)
      (if cIsBig then prodFrame else cFrame)
      (if cIsBig then expU c - prodLeadExp a b else prodLeadExp a b - expU c)) rm

theorem toNat_addend (c : BitVec 32) :
    (mant c ++ 0#24 : BitVec 48).toNat * 2 ^ 64 = (mant c ++ 0#88 : BitVec 112).toNat := by
  rw [toNat_append_zero, toNat_append_zero, mul_assoc, ← pow_add]

theorem fusedFinite_eq (op : BitVec 2) (rm : BitVec 3) (a b c : BitVec 32) :
    fusedFinite op rm a b c =
      roundSumExact (signed (sign a ^^ sign b ^^ op.getLsbD 1) (mag a * mag b) +
        signed (sign c ^^ op.getLsbD 0) (mag c)) rm := by
  unfold fusedFinite
  dsimp only
  set prodSign := sign a ^^ sign b ^^ op.getLsbD 1
  set effSignC := sign c ^^ op.getLsbD 0
  have hP : (prodNorm a b ++ 0#64 : BitVec 112).toNat = (prodNorm a b).toNat * 2 ^ 64 :=
    toNat_append_zero _
  have hC : (mant c ++ 0#88 : BitVec 112).toNat = (mant c).toNat * 2 ^ 88 := toNat_append_zero _
  have hP111 := prodNorm_ge a b
  have hC111 := (mant_bounds c).1
  have hcmp := toNat_addend c
  rw [← Bool.decide_and, ← Bool.decide_or]
  by_cases hbig : prodLeadExp a b < expU c ∨
      (expU c = prodLeadExp a b ∧ prodNorm a b < (mant c ++ 0#24 : BitVec 48))
  · simp only [hbig, decide_true, if_true]
    have htotal : signed prodSign (mag a * mag b) + signed effSignC (mag c) =
        signed effSignC (if prodSign == effSignC then mag c + mag a * mag b
          else mag c - mag a * mag b) := by
      rw [add_comm, signed_add_signed, Bool.beq_comm]
    rw [htotal]
    refine roundFused_eq effSignC (prodSign == effSignC) rm (by omega) (by rw [hC]; omega)
      (by rw [hC]; omega) (by rw [hP]; omega) (fun h ↦ ?_) (frame_addend c) (frame_prod a b)
    rcases hbig with h' | h'
    · omega
    · have hlt := BitVec.lt_def.1 h'.2
      rw [hP]
      omega
  · simp only [hbig, decide_false, Bool.false_eq_true, if_false]
    rw [signed_add_signed]
    refine roundFused_eq prodSign (prodSign == effSignC) rm (by omega) (by rw [hP]; omega)
      (by rw [hP]; omega) (by rw [hC]; omega) (fun h ↦ ?_) (frame_prod a b) (frame_addend c)
    rw [not_or, not_and] at hbig
    have hle := BitVec.le_def.1 (BitVec.not_lt.1 (hbig.2 h))
    rw [hP]
    omega

/-! ## Special operands -/

/-- The operands that need no addition. -/
def fusedSpecial (op : BitVec 2) (rm : BitVec 3) (a b c : BitVec 32) : Option Result :=
  let prodSign := sign a ^^ sign b ^^ op.getLsbD 1
  let effSignC := sign c ^^ op.getLsbD 0
  if isNan a || isNan b || isNan c then
    some { result := canonicalNan, flags := flagNv (isSnan a || isSnan b || isSnan c) }
  else if (isInf a && isZero b) || (isZero a && isInf b) then
    some { result := canonicalNan, flags := flagNv true }
  else if (isInf a || isInf b) && isInf c && (prodSign != effSignC) then
    some { result := canonicalNan, flags := flagNv true }
  else if isInf a || isInf b then some { result := infinity prodSign }
  else if isInf c then some { result := infinity effSignC }
  else if isZero a || isZero b then
    if isZero c then
      some { result := zero (if prodSign == effSignC then prodSign else decide (rm = rmRdn)) }
    else some { result := pack effSignC (exp c) (frac c) }
  else none

/-- The product alone, for a zero addend. -/
def fusedProduct (op : BitVec 2) (rm : BitVec 3) (a b : BitVec 32) : Result :=
  roundAndPack (sign a ^^ sign b ^^ op.getLsbD 1) (prodLeadExp a b)
    (0#1 ++ (prodNorm a b).extractLsb' 24 24) ((prodNorm a b).getLsbD 23)
    ((prodNorm a b).getLsbD 22) ((prodNorm a b).extractLsb' 0 22 != 0) rm

theorem fmadd_eq (op : BitVec 2) (rm : BitVec 3) (a b c : BitVec 32) :
    fmadd op rm a b c = (fusedSpecial op rm a b c).getD
      (if isZero c then fusedProduct op rm a b else fusedFinite op rm a b c) := by
  have hdef : fmadd op rm a b c =
      if isNan a || isNan b || isNan c then
        { result := canonicalNan, flags := flagNv (isSnan a || isSnan b || isSnan c) }
      else if (isInf a && isZero b) || (isZero a && isInf b) then
        { result := canonicalNan, flags := flagNv true }
      else if (isInf a || isInf b) && isInf c &&
          ((sign a ^^ sign b ^^ op.getLsbD 1) != (sign c ^^ op.getLsbD 0)) then
        { result := canonicalNan, flags := flagNv true }
      else if isInf a || isInf b then { result := infinity (sign a ^^ sign b ^^ op.getLsbD 1) }
      else if isInf c then { result := infinity (sign c ^^ op.getLsbD 0) }
      else if isZero a || isZero b then
        if isZero c then
          { result := zero (if (sign a ^^ sign b ^^ op.getLsbD 1) == (sign c ^^ op.getLsbD 0) then
              sign a ^^ sign b ^^ op.getLsbD 1 else decide (rm = rmRdn)) }
        else { result := pack (sign c ^^ op.getLsbD 0) (exp c) (frac c) }
      else if isZero c then fusedProduct op rm a b
      else fusedFinite op rm a b c := rfl
  rw [hdef]
  unfold fusedSpecial
  dsimp only
  split_ifs <;> rfl

theorem fusedProduct_eq (op : BitVec 2) (rm : BitVec 3) (a b : BitVec 32) :
    fusedProduct op rm a b =
      roundSumExact (signed (sign a ^^ sign b ^^ op.getLsbD 1) (mag a * mag b)) rm := by
  have hpos : 0 < mag a * mag b := mul_pos (mag_pos a) (mag_pos b)
  rw [roundSumExact_signed _ hpos.le, if_neg hpos.ne', ← prodNorm_mag]
  exact roundAndPack_extract (j := 22) (prodNorm_ge a b) (prodNorm a b).isLt _ _ rm

/-! ## Against the reference -/

theorem isZero_magnitude {x : BitVec 32} (h : isZero x = true) : (f32Decode x).magnitude = 0 := by
  have h0 : (x.extractLsb' 23 8).toNat = 0 :=
    (exp_toNat_eq_iff x 0x00#8).2 (by simpa [isZero] using h)
  unfold f32Decode
  simp [h0]

/-- The magnitude of a finite operand, zero included. -/
def magZ (x : BitVec 32) : ℚ := if isZero x then 0 else mag x

theorem magnitude_eq_magZ {x : BitVec 32} (hnan : isNan x = false) (hinf : isInf x = false) :
    (f32Decode x).magnitude = magZ x := by
  unfold magZ
  split_ifs with h
  · exact isZero_magnitude h
  · exact Normal.magnitude ⟨hnan, hinf, by simpa using h⟩

theorem fMadd_eq (op : BitVec 2) (rm : BitVec 3) (a b c : BitVec 32) :
    fMadd a b c rm (op.getLsbD 1) (op.getLsbD 0) = (fusedSpecial op rm a b c).getD
      (roundSum (signed (sign a ^^ sign b ^^ op.getLsbD 1) (mag a * mag b) +
        signed (sign c ^^ op.getLsbD 0) (magZ c)) rm) := by
  unfold fMadd fusedSpecial
  simp only [decode_isNan, decode_isSnan, decode_isInf, decode_isZero, decode_sign, flagNv_eq,
    infinity_eq, zero_eq, pack_exp_frac, canonicalNan_eq]
  split_ifs with hnan hinv hinf2 hpi hci hz hzc hs
  any_goals rfl
  simp only [Bool.or_eq_true, not_or, Bool.not_eq_true] at hnan hpi hz hci
  have ha : Normal a := ⟨hnan.1.1, hpi.1, hz.1⟩
  have hb : Normal b := ⟨hnan.1.2, hpi.2, hz.2⟩
  rw [ha.magnitude, hb.magnitude, magnitude_eq_magZ hnan.2 hci]
  rfl

theorem fused_general (op : BitVec 2) (rm : BitVec 3) (a b c : BitVec 32) :
    (if isZero c then fusedProduct op rm a b else fusedFinite op rm a b c) =
      roundSumExact (signed (sign a ^^ sign b ^^ op.getLsbD 1) (mag a * mag b) +
        signed (sign c ^^ op.getLsbD 0) (magZ c)) rm := by
  unfold magZ
  split_ifs with hz
  · rw [fusedProduct_eq, show signed (sign c ^^ op.getLsbD 0) 0 = 0 by unfold signed; simp, add_zero]
  · exact fusedFinite_eq op rm a b c

/-- `FMADDUnit.v` returns the exact product and sum rounded once. -/
theorem fmadd_result (op : BitVec 2) (rm : BitVec 3) (a b c : BitVec 32) :
    (fmadd op rm a b c).result =
      (fMadd a b c rm (op.getLsbD 1) (op.getLsbD 0)).result := by
  rw [fmadd_eq, fMadd_eq]
  cases fusedSpecial op rm a b c with
  | some r => rfl
  | none =>
    rw [Option.getD_none, Option.getD_none, fused_general]
    exact roundSumExact_result _ rm

end Fp

end RvPipeline
