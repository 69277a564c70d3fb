import RvPipeline.Fp.Flags

/-!
# Conversions

`fcvt` in both directions against the reference, and back again: an integer of at most 24
significant bits has a single-precision number of its own.
-/

namespace RvPipeline

open Rounding IssFloat

namespace Fp

section Pack

variable (s : Bool) (e : BitVec 8) (f : BitVec 23)

@[simp] theorem sign_pack : sign (pack s e f) = s := by
  unfold sign pack
  rw [BitVec.getLsbD_append, BitVec.getLsbD_append]
  simp

@[simp] theorem exp_pack : exp (pack s e f) = e := by
  unfold exp pack
  rw [BitVec.extractLsb'_append_eq_of_le (by decide),
    BitVec.extractLsb'_append_eq_of_add_le (by decide), BitVec.extractLsb'_eq_self]

@[simp] theorem frac_pack : frac (pack s e f) = f := by
  unfold frac pack
  rw [BitVec.extractLsb'_append_eq_of_add_le (by decide), BitVec.extractLsb'_eq_self]

end Pack

/-! ## Exact integers -/

/-- The exponent and the significand of an integer of at most 24 bits. -/
theorem exists_sig {m : ℕ} (hpos : 0 < m) (hle : m ≤ 2 ^ 24) :
    ∃ (e : ℕ) (sig : BitVec 25), e ≤ 24 ∧ 2 ^ 23 ≤ sig.toNat ∧ sig.toNat < 2 ^ 24 ∧
      (m : ℚ) * 2 ^ ((23 : ℕ) - e : ℤ) = sig.toNat := by
  rcases hle.lt_or_eq with hlt | rfl
  · obtain ⟨e, he⟩ : ∃ e, e = m.log2 := ⟨_, rfl⟩
    have hlow : 2 ^ e ≤ m := he ▸ Nat.log2_self_le hpos.ne'
    have hhigh : m < 2 ^ (e + 1) := he ▸ Nat.lt_log2_self
    have he23 : e ≤ 23 := by
      by_contra hgt
      have : 2 ^ 24 ≤ 2 ^ e := Nat.pow_le_pow_right Nat.two_pos (by omega)
      omega
    have hsig_low : 2 ^ 23 ≤ m * 2 ^ (23 - e) := by
      calc 2 ^ 23 = 2 ^ e * 2 ^ (23 - e) := by rw [← pow_add, Nat.add_sub_cancel' he23]
        _ ≤ m * 2 ^ (23 - e) := Nat.mul_le_mul_right _ hlow
    have hsig_high : m * 2 ^ (23 - e) < 2 ^ 24 := by
      calc m * 2 ^ (23 - e) < 2 ^ (e + 1) * 2 ^ (23 - e) :=
            Nat.mul_lt_mul_of_pos_right hhigh (Nat.two_pow_pos _)
        _ = 2 ^ 24 := by rw [← pow_add]; congr 1; omega
    have hnat : (BitVec.ofNat 25 (m * 2 ^ (23 - e))).toNat = m * 2 ^ (23 - e) := by
      rw [BitVec.toNat_ofNat]
      exact Nat.mod_eq_of_lt (hsig_high.trans (by decide))
    refine ⟨e, BitVec.ofNat 25 (m * 2 ^ (23 - e)), by omega, ?_, ?_, ?_⟩
    · rw [hnat]
      exact hsig_low
    · rw [hnat]
      exact hsig_high
    · rw [hnat, show ((23 : ℕ) : ℤ) - e = ((23 - e : ℕ) : ℤ) by omega, zpow_natCast]
      push_cast
      rfl
  · refine ⟨24, BitVec.ofNat 25 (2 ^ 23), le_rfl, by decide, by decide, ?_⟩
    norm_num

/-- A single-precision number with an integer of at most 24 bits for its magnitude. -/
structure Holds (s : Bool) (m : ℕ) (x : BitVec 32) : Prop where
  normal : Normal x
  sign : Fp.sign x = s
  mag : Fp.mag x = m

theorem holds_pack (s : Bool) {m e : ℕ} {sig : BitVec 25} (he : e ≤ 24) (hlow : 2 ^ 23 ≤ sig.toNat)
    (hhigh : sig.toNat < 2 ^ 24) (hval : (m : ℚ) * 2 ^ ((23 : ℕ) - e : ℤ) = sig.toNat) :
    Holds s m (pack s (BitVec.ofInt 8 e + 127#8) (sig.extractLsb' 0 23)) := by
  have hexp : (BitVec.ofInt 8 (e : ℤ) + 127#8).toNat = e + 127 := by
    rw [BitVec.toNat_add, BitVec.ofInt_natCast, BitVec.toNat_ofNat, BitVec.toNat_ofNat]
    omega
  have hff : BitVec.ofInt 8 (e : ℤ) + 127#8 ≠ 0xFF#8 := by
    intro h
    rw [h] at hexp
    simp at hexp
    omega
  have hzero : BitVec.ofInt 8 (e : ℤ) + 127#8 ≠ 0x00#8 := by
    intro h
    rw [h] at hexp
    simp at hexp
  refine ⟨⟨?_, ?_, ?_⟩, sign_pack _ _ _, ?_⟩
  · rw [isNan, exp_pack, beq_false_of_ne hff, Bool.false_and]
  · rw [isInf, exp_pack, beq_false_of_ne hff, Bool.false_and]
  · rw [isZero, exp_pack, beq_false_of_ne hzero]
  have hmant : (mant (pack s (BitVec.ofInt 8 (e : ℤ) + 127#8) (sig.extractLsb' 0 23))).toNat =
      sig.toNat := by
    rw [toNat_mant, frac_pack, BitVec.extractLsb'_toNat, Nat.shiftRight_zero]
    omega
  have hz : (2 : ℚ) ^ ((23 : ℕ) - e : ℤ) * 2 ^ ((e : ℤ) - 23) = 1 := by
    rw [← zpow_add₀ two_ne_zero]
    simp
  rw [mag, hmant, expU, exp_pack, hexp, ← hval, mul_assoc]
  push_cast at hz ⊢
  rw [show (e : ℤ) + 127 - 127 - 23 = e - 23 by ring, hz, mul_one]

/-- An integer of at most 24 bits is rounded to itself. -/
theorem roundFromFraction_holds (s : Bool) {m : ℕ} (hpos : 0 < m) (hle : m ≤ 2 ^ 24)
    (rm : BitVec 3) :
    ∃ x, f32RoundFromFraction s m rm = { result := x } ∧ Holds s m x := by
  obtain ⟨e, sig, he, hlow, hhigh, hval⟩ := exists_sig hpos hle
  refine ⟨_, ?_, holds_pack s he hlow hhigh hval⟩
  have hsplit : Split ((m : ℚ) * 2 ^ ((23 : ℕ) - e : ℤ)) sig.toNat false false := by
    rw [hval]
    exact Split.self _
  have hround : f32RoundUpDecision .exact sig.toNat s rm = false := rfl
  rw [f32RoundFromFraction, f32NormalizeFraction_eq hsplit hlow hhigh]
  simp only [clsOf, f32PackRounded, hround, Bool.false_and, Bool.false_eq_true, if_false]
  rw [if_neg (by omega), if_neg (by omega), pack_exp_sig s (by omega) (by omega)]
  rfl

/-- A number with an integer for its magnitude converts to that integer, whatever the mode. -/
theorem Holds.fCvtToInt_eq {s : Bool} {m : ℕ} {x : BitVec 32} (h : Holds s m x) (rm : BitVec 3)
    {unsigned : Bool} (hle : m ≤ 2 ^ 24) (hs : unsigned = true → s = false) :
    fCvtToInt x rm unsigned =
      { result := if s then BitVec.ofInt 32 (-m) else BitVec.ofNat 32 m } := by
  have hsplit : Split (m : ℚ) m false false := Split.self m
  have hfloor := floor_toNat hsplit.le hsplit.lt
  have hcls := classify_eq hsplit
  have hround : f32RoundUpDecision (clsOf false false) m s rm = false := rfl
  unfold fCvtToInt
  simp only [decode_isNan, decode_isZero, decode_isInf, decode_sign, h.normal.notNan,
    h.normal.notZero, h.normal.notInf, h.normal.magnitude, h.mag, h.sign, hfloor, hcls, hround,
    Bool.false_eq_true, if_false, add_zero]
  rw [if_neg]
  · rfl
  · cases unsigned
    · cases s <;> simp <;> omega
    · rw [hs rfl]
      simp
      omega

/-! ## There and back -/

/-- The integer a register holds for `fcvt`. -/
def intOf (unsigned : Bool) (a : BitVec 32) : ℤ := if unsigned then a.toNat else a.toInt

theorem toNat_magnitude_le {unsigned : Bool} {a : BitVec 32} (ha : |intOf unsigned a| ≤ 2 ^ 24) :
    (if (!unsigned && a.getLsbD 31) then -a else a).toNat ≤ 2 ^ 24 := by
  have hlt := a.isLt
  rw [abs_le] at ha
  cases unsigned with
  | true =>
    simp only [intOf, if_true] at ha
    simp only [Bool.not_true, Bool.false_and, Bool.false_eq_true, if_false]
    omega
  | false =>
    have hmsb : a.getLsbD 31 = a.msb := rfl
    simp only [intOf, Bool.false_eq_true, if_false, BitVec.toInt_eq_msb_cond] at ha
    rw [Bool.not_false, Bool.true_and, hmsb]
    cases hm : a.msb with
    | false =>
      simp only [hm, Bool.false_eq_true, if_false] at ha ⊢
      omega
    | true =>
      simp only [hm, if_true] at ha ⊢
      rw [BitVec.toNat_neg]
      omega

theorem cvt_roundTrip (rm rm' : BitVec 3) (rs2Sel : BitVec 5) (a : BitVec 32)
    (ha : |intOf (rs2Sel == rs2FcvtWu) a| ≤ 2 ^ 24) :
    (cvtFromInt rm rs2Sel a).flags = 0 ∧
      cvtToInt rm' rs2Sel (cvtFromInt rm rs2Sel a).result = { result := a } := by
  rw [cvtFromInt_eq, cvtToInt_eq]
  set unsigned := rs2Sel == rs2FcvtWu
  unfold fCvtFromInt
  by_cases h0 : a = 0
  · subst h0
    rw [if_pos rfl]
    exact ⟨rfl, rfl⟩
  have hneg : ~~~a + 1 = -a := (BitVec.neg_eq_not_add a).symm
  rw [if_neg h0, hneg]
  dsimp only
  set s := !unsigned && a.getLsbD 31 with hs
  set v := if s then -a else a with hv
  have hback : (if s then BitVec.ofInt 32 (-(v.toNat : ℤ)) else BitVec.ofNat 32 v.toNat) = a := by
    rw [hv]
    cases s with
    | false => simp
    | true =>
      rw [if_pos rfl, if_pos rfl, BitVec.ofInt_neg, BitVec.ofInt_natCast, BitVec.ofNat_toNat,
        BitVec.setWidth_eq, BitVec.neg_neg]
  have hpos : 0 < v.toNat := by
    rw [Nat.pos_iff_ne_zero]
    intro hzero
    rw [hzero] at hback
    apply h0
    rw [← hback]
    cases s <;> rfl
  have hle : v.toNat ≤ 2 ^ 24 := toNat_magnitude_le ha
  have hus : unsigned = true → s = false := by
    intro h
    rw [hs, h]
    rfl
  obtain ⟨x, hx, hold⟩ := roundFromFraction_holds s hpos hle rm
  rw [hx]
  exact ⟨rfl, (hold.fCvtToInt_eq rm' hle hus).trans (by rw [hback])⟩

/-- `fcvt` in both directions is the reference's, result and flags, in every rounding mode; and an
integer of magnitude at most `2 ^ 24` comes back from its float without a flag, whichever modes
the two conversions use. -/
theorem falu_cvt (rm rm' : BitVec 3) (rs2Sel : BitVec 5) (a b b' : BitVec 32) :
    falu funct5FcvtWS rm rs2Sel a b = fCvtToInt a rm (rs2Sel == rs2FcvtWu) ∧
    falu funct5FcvtSW rm rs2Sel a b = fCvtFromInt a rm (rs2Sel == rs2FcvtWu) ∧
    (|intOf (rs2Sel == rs2FcvtWu) a| ≤ 2 ^ 24 →
      (falu funct5FcvtSW rm rs2Sel a b).flags = 0 ∧
        falu funct5FcvtWS rm' rs2Sel (falu funct5FcvtSW rm rs2Sel a b).result b' =
          { result := a, flags := 0 }) :=
  ⟨cvtToInt_eq rm rs2Sel a, cvtFromInt_eq rm rs2Sel a, cvt_roundTrip rm rm' rs2Sel a⟩

/-- `-2 ^ 24` to float, rounding down, and back, rounding up. -/
theorem falu_cvt_limit :
    falu funct5FcvtWS rmRup 0 (falu funct5FcvtSW rmRdn 0 0xFF000000#32 0).result 0 =
      { result := 0xFF000000#32, flags := 0 } :=
  ((falu_cvt rmRdn rmRup 0 0xFF000000#32 0 0).2.2 (by decide)).2

end Fp

end RvPipeline
