import RvPipeline.Fp.Convert

/-!
# Subnormal results

Rounding flushes what is too small to zero, and a zero operand is any with a zero exponent; so no
operation of the simulator but the square root makes a subnormal number.
-/

namespace RvPipeline

open IssFloat

namespace Fp

/-- The exponent is zero and the fraction is not. -/
def Subnormal (x : BitVec 32) : Prop := exp x = 0 ∧ frac x ≠ 0

instance : DecidablePred Subnormal := fun _ ↦ inferInstanceAs (Decidable (_ ∧ _))

/-! ## Packed numbers -/

theorem subnormal_pack (s : Bool) (e : BitVec 8) (f : BitVec 23) :
    Subnormal (pack s e f) ↔ e = 0 ∧ f ≠ 0 := by
  rw [Subnormal, exp_pack, frac_pack]

theorem not_subnormal_canonicalNan : ¬Subnormal IssFloat.canonicalNan := by decide

theorem not_subnormal_zero (s : Bool) : ¬Subnormal (f32PackZero s) := by
  cases s <;> decide

theorem not_subnormal_inf (s : Bool) : ¬Subnormal (f32PackInf s) := by
  cases s <;> decide

/-- An operand that does not count as zero. -/
theorem not_subnormal_of_isZero {x : BitVec 32} (h : ¬(f32Decode x).isZero = true) :
    ¬Subnormal x := by
  rintro ⟨hexp, -⟩
  rw [decode_isZero, isZero, hexp] at h
  exact h rfl

theorem not_subnormal_withSign {x : BitVec 32} (s : Bool) (h : ¬(f32Decode x).isZero = true) :
    ¬Subnormal (signBit s ||| (x &&& 0x7FFFFFFF)) := by
  rw [← pack_exp_frac, subnormal_pack]
  rintro ⟨hexp, -⟩
  rw [decode_isZero, isZero, hexp] at h
  exact h rfl

/-! ## Rounded results -/

theorem ofNat_and_frac (n : ℕ) : BitVec.ofNat 32 n &&& (0x7FFFFF : BitVec 32) =
    BitVec.ofNat 32 (BitVec.ofNat 25 n).toNat &&& 0x7FFFFF := by
  have hmask : ∀ k : Fin 32, (0x7FFFFF : BitVec 32).getLsbD k = decide (k.val < 23) := by decide
  apply BitVec.eq_of_getLsbD_eq
  intro i hi
  rw [BitVec.getLsbD_and, BitVec.getLsbD_and, hmask ⟨i, hi⟩, BitVec.getLsbD_ofNat,
    BitVec.getLsbD_ofNat, BitVec.toNat_ofNat, Nat.testBit_mod_two_pow]
  by_cases h23 : i < 23
  · simp [show i < 25 by omega]
  · simp [h23]

theorem not_subnormal_packRounded (s : Bool) (e : ℤ) (sigFloor : ℕ) (cls : Cls) (rm : BitVec 3) :
    ¬Subnormal (f32PackRounded s e sigFloor cls rm).result := by
  simp only [f32PackRounded]
  generalize (if (f32RoundUpDecision cls sigFloor s rm && sigFloor + 1 == 2 ^ 24) = true then e + 1
    else e) = e'
  generalize (if f32RoundUpDecision cls sigFloor s rm = true then
    if (f32RoundUpDecision cls sigFloor s rm && sigFloor + 1 == 2 ^ 24) = true then
      (sigFloor + 1) >>> 1 else sigFloor + 1 else sigFloor) = sig
  split_ifs with hhigh hmax hlow
  · cases s <;> decide
  · cases s <;> decide
  · exact not_subnormal_zero s
  · -- the biased exponent lies between 1 and 254
    dsimp only
    rw [ofNat_and_frac, ← pack_exp_sig s (not_lt.mp hlow) (not_lt.mp hhigh), subnormal_pack]
    rintro ⟨hexp, -⟩
    have hnat := congrArg BitVec.toNat hexp
    rw [BitVec.toNat_add, BitVec.toNat_ofInt] at hnat
    have hzero : (0 : BitVec 8).toNat = 0 := rfl
    have hbias : (127#8).toNat = 127 := rfl
    rw [hzero, hbias] at hnat
    omega

theorem not_subnormal_fraction (s : Bool) (x : ℚ) (rm : BitVec 3) :
    ¬Subnormal (f32RoundFromFraction s x rm).result :=
  not_subnormal_packRounded s _ _ _ rm

theorem not_subnormal_roundSum (x : ℚ) (rm : BitVec 3) : ¬Subnormal (roundSum x rm).result := by
  rw [roundSum]
  split_ifs
  · exact not_subnormal_zero _
  · exact not_subnormal_fraction _ _ _

/-! ## Operations -/

theorem not_subnormal_fAdd (a b : BitVec 32) (rm : BitVec 3) (isSub : Bool) :
    ¬Subnormal (fAdd a b rm isSub).result := by
  simp only [fAdd]
  split_ifs with hnan hinv hia hib hzz hs hza hzb
  · exact not_subnormal_canonicalNan
  · exact not_subnormal_canonicalNan
  · exact not_subnormal_inf _
  · exact not_subnormal_inf _
  · exact not_subnormal_zero _
  · exact not_subnormal_zero _
  · refine not_subnormal_withSign _ fun hzb ↦ hzz ?_
    rw [hza, hzb]
    rfl
  · exact not_subnormal_of_isZero hza
  · exact not_subnormal_roundSum _ _

theorem not_subnormal_fMul (a b : BitVec 32) (rm : BitVec 3) : ¬Subnormal (fMul a b rm).result := by
  simp only [fMul]
  split_ifs
  · exact not_subnormal_canonicalNan
  · exact not_subnormal_canonicalNan
  · exact not_subnormal_inf _
  · exact not_subnormal_zero _
  · exact not_subnormal_fraction _ _ _

theorem not_subnormal_fDiv (a b : BitVec 32) (rm : BitVec 3) : ¬Subnormal (fDiv a b rm).result := by
  simp only [fDiv]
  split_ifs
  · exact not_subnormal_canonicalNan
  · exact not_subnormal_canonicalNan
  · exact not_subnormal_canonicalNan
  · exact not_subnormal_inf _
  · exact not_subnormal_zero _
  · exact not_subnormal_inf _
  · exact not_subnormal_zero _
  · exact not_subnormal_fraction _ _ _

theorem not_subnormal_fMadd (a b c : BitVec 32) (rm : BitVec 3) (negProd negAddend : Bool) :
    ¬Subnormal (fMadd a b c rm negProd negAddend).result := by
  simp only [fMadd]
  split_ifs with hnan hinv hopp hprod hc hz hzc hs
  · exact not_subnormal_canonicalNan
  · exact not_subnormal_canonicalNan
  · exact not_subnormal_canonicalNan
  · exact not_subnormal_inf _
  · exact not_subnormal_inf _
  · exact not_subnormal_zero _
  · exact not_subnormal_zero _
  · exact not_subnormal_withSign _ hzc
  · exact not_subnormal_roundSum _ _

theorem not_subnormal_fCvtFromInt (a : BitVec 32) (rm : BitVec 3) (unsigned : Bool) :
    ¬Subnormal (fCvtFromInt a rm unsigned).result := by
  simp only [fCvtFromInt]
  split_ifs
  · decide
  · exact not_subnormal_fraction _ _ _
  · exact not_subnormal_fraction _ _ _

/-- The square root hands a zero operand back, and a subnormal one counts as zero. -/
theorem subnormal_fSqrt {a : BitVec 32} {rm : BitVec 3} {r : Result} (h : fSqrt a rm = some r) :
    Subnormal r.result ↔ Subnormal a := by
  simp only [fSqrt] at h
  split_ifs at h with hnan hz hs hinf
  · obtain rfl := Option.some.inj h
    refine iff_of_false not_subnormal_canonicalNan ?_
    rintro ⟨hexp, -⟩
    rw [decode_isNan, isNan, hexp] at hnan
    exact Bool.false_ne_true hnan
  · obtain rfl := Option.some.inj h
    exact Iff.rfl
  · obtain rfl := Option.some.inj h
    exact iff_of_false not_subnormal_canonicalNan (not_subnormal_of_isZero hz)
  · obtain rfl := Option.some.inj h
    exact Iff.rfl
  · obtain ⟨p, -, rfl⟩ := Option.map_eq_some_iff.mp h
    exact iff_of_false (not_subnormal_packRounded _ _ _ _ _) (not_subnormal_of_isZero hz)

end Fp

end RvPipeline
