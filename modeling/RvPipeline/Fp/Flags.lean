import RvPipeline.Fp.DivSqrt
import RvPipeline.Fp.Fused
import Mathlib.Algebra.Order.Archimedean.Basic

/-!
# Exception flags

The units and the reference raise the same flags, except where a result that needs no rounding is
flushed to zero: the units then leave the inexact flag clear.
-/

namespace RvPipeline

open Rounding

namespace Fp

open IssFloat

/-! ## Exact results below the normal numbers -/

/-- A nonzero value of at most 24 significant bits, too small for a normal number. -/
structure ExactTiny (x : ℚ) : Prop where
  ne : x ≠ 0
  lt : |x| < 2 ^ (-126 : ℤ)
  exact : ∃ (m : ℕ) (e : ℤ), m < 2 ^ 24 ∧ |x| = m * 2 ^ e

theorem split_floor {y : ℚ} (hy : 0 ≤ y) :
    Split y ⌊y⌋₊ (decide ((⌊y⌋₊ : ℚ) + 1 / 2 ≤ y))
      (decide (¬(y = ⌊y⌋₊ ∨ y = ⌊y⌋₊ + 1 / 2))) where
  le := Nat.floor_le hy
  lt := Nat.lt_floor_add_one y
  half_iff := decide_eq_true_iff
  rest_iff := by rw [decide_eq_false_iff_not, not_not]

theorem exists_split {x : ℚ} (hx : 0 < x) :
    ∃ (e : ℤ) (m : ℕ) (half rest : Bool), Split (x * 2 ^ ((23 : ℕ) - e : ℤ)) m half rest ∧
      2 ^ 23 ≤ m ∧ m < 2 ^ 24 := by
  obtain ⟨e, hle, hlt⟩ := exists_mem_Ico_zpow hx (one_lt_two : (1 : ℚ) < 2)
  set y := x * 2 ^ ((23 : ℕ) - e : ℤ) with hy
  have hpos : (0 : ℚ) < 2 ^ ((23 : ℕ) - e : ℤ) := by positivity
  have hy0 : 0 ≤ y := (mul_pos hx hpos).le
  have hlow : (2 : ℚ) ^ 23 ≤ y := by
    have h := mul_le_mul_of_nonneg_right hle hpos.le
    rwa [← zpow_add₀ two_ne_zero, add_sub_cancel, zpow_natCast] at h
  have hhigh : y < (2 : ℚ) ^ 24 := by
    have h := mul_lt_mul_of_pos_right hlt hpos
    rwa [← zpow_add₀ two_ne_zero, show e + 1 + ((23 : ℕ) - e) = (24 : ℕ) by push_cast; ring,
      zpow_natCast] at h
  refine ⟨e, ⌊y⌋₊, _, _, split_floor hy0, ?_, ?_⟩
  · exact Nat.le_floor (by exact_mod_cast hlow)
  · exact (Nat.floor_lt hy0).2 (by exact_mod_cast hhigh)

/-- A value of at most 24 bits is a significand of 24 bits. -/
theorem eq_sig_of_exact {x : ℚ} {e : ℤ} {m : ℕ} {half rest : Bool}
    (h : Split (x * 2 ^ ((23 : ℕ) - e : ℤ)) m half rest) (hlow : 2 ^ 23 ≤ m) (hhigh : m < 2 ^ 24)
    {n : ℕ} {e' : ℤ} (hn : n < 2 ^ 24) (hx : x = n * 2 ^ e') : (half || rest) = false := by
  obtain ⟨hle, -⟩ := h.bounds hlow hhigh
  have hlt : x < 2 ^ ((24 : ℕ) + e') := by
    rw [hx, zpow_add₀ two_ne_zero, zpow_natCast]
    exact mul_lt_mul_of_pos_right (by exact_mod_cast hn) (by positivity)
  have he : e < (24 : ℕ) + e' :=
    (zpow_lt_zpow_iff_right₀ one_lt_two).1 (lt_of_le_of_lt hle hlt)
  obtain ⟨k, hk⟩ : ∃ k : ℕ, e' + ((23 : ℕ) - e) = k :=
    ⟨(e' + ((23 : ℕ) - e)).toNat, (Int.toNat_of_nonneg (by push_cast at he ⊢; omega)).symm⟩
  -- the scaled value is a natural number, so it is its own floor
  have hscaled : x * 2 ^ ((23 : ℕ) - e : ℤ) = (n * 2 ^ k : ℕ) := by
    rw [hx, mul_assoc, ← zpow_add₀ two_ne_zero, hk, zpow_natCast]
    push_cast
    rfl
  rw [hscaled] at h
  have hm : n * 2 ^ k = m := by
    have h1 : m ≤ n * 2 ^ k := by exact_mod_cast h.le
    have h2 : n * 2 ^ k < m + 1 := by exact_mod_cast h.lt
    omega
  rw [← h.eq_iff, hm]

theorem roundExact_flags_iff {x : ℚ} (hx : 0 < x) (sgn : Bool) (rm : BitVec 3) :
    (roundExact sgn x rm).flags = (f32RoundFromFraction sgn x rm).flags ↔ ¬ExactTiny x := by
  obtain ⟨e, m, half, rest, hs, hlow, hhigh⟩ := exists_split hx
  obtain ⟨hle, hlt⟩ := hs.bounds hlow hhigh
  have hcls : clsOf half rest = .exact ↔ (half || rest) = false := by
    rw [← clsOf_ne_exact, bne_eq_false_iff_eq]
  have htiny : ExactTiny x ↔ clsOf half rest = .exact ∧ e < -126 := by
    rw [hcls]
    constructor
    · rintro ⟨-, hsmall, n, e', hn, hexact⟩
      rw [abs_of_pos hx] at hsmall hexact
      exact ⟨eq_sig_of_exact hs hlow hhigh hn hexact,
        (zpow_lt_zpow_iff_right₀ one_lt_two).1 (lt_of_le_of_lt hle hsmall)⟩
    · rintro ⟨hexact, he⟩
      refine ⟨hx.ne', ?_, m, e - (23 : ℕ), hhigh, ?_⟩
      · rw [abs_of_pos hx]
        exact lt_of_lt_of_le hlt (zpow_le_zpow_right₀ one_le_two (by omega))
      · rw [abs_of_pos hx, ← hs.eq_iff.2 hexact, mul_assoc, ← zpow_add₀ two_ne_zero]
        simp
  rw [htiny]
  simp only [roundExact, f32RoundFromFraction, f32NormalizeFraction_eq hs hlow hhigh, packRounded]
  by_cases h : clsOf half rest = .exact ∧ e < -126
  · obtain ⟨hexact, he⟩ := h
    have hup : f32RoundUpDecision .exact m sgn rm = false := rfl
    simp only [hexact, he, and_self, if_true, not_true_eq_false, iff_false, f32PackRounded, hup,
      Bool.false_and, Bool.false_eq_true, if_false, not_lt.2 (by omega : e ≤ 127)]
    decide
  · rw [if_neg h]
    exact ⟨fun _ ↦ h, fun _ ↦ rfl⟩

theorem Result.eq_of_fields {p q : Result} (hr : p.result = q.result) (hf : p.flags = q.flags) :
    p = q := by
  cases p
  cases q
  exact congrArg₂ Result.mk hr hf

theorem roundExact_eq {x : ℚ} (hx : 0 < x) (h : ¬ExactTiny x) (sgn : Bool) (rm : BitVec 3) :
    roundExact sgn x rm = f32RoundFromFraction sgn x rm :=
  Result.eq_of_fields (roundExact_result sgn x rm) ((roundExact_flags_iff hx sgn rm).2 h)

theorem exactTiny_abs {x : ℚ} : ExactTiny |x| ↔ ExactTiny x := by
  constructor
  · rintro ⟨hne, hlt, hexact⟩
    rw [abs_abs] at hlt hexact
    exact ⟨abs_ne_zero.1 hne, hlt, hexact⟩
  · rintro ⟨hne, hlt, hexact⟩
    refine ⟨abs_ne_zero.2 hne, ?_, ?_⟩
    · rwa [abs_abs]
    · rwa [abs_abs]

theorem roundSumExact_flags_iff (total : ℚ) (rm : BitVec 3) :
    (roundSumExact total rm).flags = (roundSum total rm).flags ↔ ¬ExactTiny total := by
  unfold roundSumExact roundSum
  split_ifs with h0
  · exact ⟨fun _ h ↦ h.ne h0, fun _ ↦ rfl⟩
  · rw [roundExact_flags_iff (abs_pos.2 h0), exactTiny_abs]

/-! ## Operands -/

/-- The value of a finite operand; a subnormal number counts as zero. -/
def value (x : BitVec 32) : ℚ := signed (f32Decode x).sign (f32Decode x).magnitude

structure IsFinite (x : BitVec 32) : Prop where
  notNan : (f32Decode x).isNan = false
  notInf : (f32Decode x).isInf = false

theorem abs_signed (s : Bool) (y : ℚ) : |signed s y| = |y| := by
  cases s <;> simp [signed]

theorem exactTiny_signed {s : Bool} {y : ℚ} : ExactTiny (signed s y) ↔ ExactTiny y := by
  rw [← exactTiny_abs, abs_signed, exactTiny_abs]

theorem Normal.isFinite {x : BitVec 32} (h : Normal x) : IsFinite x :=
  ⟨by simpa using h.notNan, by simpa using h.notInf⟩

theorem IsFinite.normal {x : BitVec 32} (h : IsFinite x) (hz : isZero x = false) : Normal x :=
  ⟨by simpa using h.notNan, by simpa using h.notInf, hz⟩

theorem IsFinite.value_eq {x : BitVec 32} (h : IsFinite x) : value x = signed (sign x) (magZ x) := by
  rw [value, decode_sign, magnitude_eq_magZ (by simpa using h.notNan) (by simpa using h.notInf)]

theorem Normal.value_eq {x : BitVec 32} (h : Normal x) : value x = signed (sign x) (mag x) := by
  rw [h.isFinite.value_eq, magZ, h.notZero, if_neg Bool.false_ne_true]

theorem two_zpow_expU_le (x : BitVec 32) : (2 : ℚ) ^ expU x ≤ mag x := by
  have hm : (2 : ℚ) ^ 23 ≤ (mant x).toNat := by exact_mod_cast (mant_bounds x).1
  calc (2 : ℚ) ^ expU x = 2 ^ 23 * 2 ^ (expU x - 23) := by
        rw [← zpow_natCast, ← zpow_add₀ two_ne_zero]
        congr 1
        push_cast
        ring
    _ ≤ mag x := mul_le_mul_of_nonneg_right hm (by positivity)

theorem Normal.mag_ge {x : BitVec 32} (h : Normal x) : (2 : ℚ) ^ (-126 : ℤ) ≤ mag x := by
  have hexp : -126 ≤ expU x := by
    have hne : (exp x).toNat ≠ 0 := fun h0 ↦ h.exp_ne.2 (BitVec.eq_of_toNat_eq h0)
    unfold expU
    omega
  exact (zpow_le_zpow_right₀ one_le_two hexp).trans (two_zpow_expU_le x)

theorem not_exactTiny_zero : ¬ExactTiny 0 := fun h ↦ h.ne rfl

theorem not_exactTiny_magZ {x : BitVec 32} (h : IsFinite x) : ¬ExactTiny (magZ x) := by
  unfold magZ
  split_ifs with hz
  · exact not_exactTiny_zero
  · intro ht
    have hlt := ht.lt
    rw [abs_of_pos (mag_pos x)] at hlt
    exact absurd hlt (not_lt.2 (h.normal (by simpa using hz)).mag_ge)

theorem magZ_of_zero {x : BitVec 32} (h : isZero x = true) : magZ x = 0 := if_pos h

theorem signed_zero (s : Bool) : signed s 0 = 0 := by
  cases s <;> simp [signed]

/-- A pair of finite operands with a zero. -/
theorem IsFinite.zero_of_not_normal {a b : BitVec 32} (ha : IsFinite a) (hb : IsFinite b)
    (h : ¬(Normal a ∧ Normal b)) : magZ a = 0 ∨ magZ b = 0 := by
  by_contra hcon
  rw [not_or] at hcon
  refine h ⟨ha.normal ?_, hb.normal ?_⟩
  · exact Bool.eq_false_iff.2 fun hz ↦ hcon.1 (magZ_of_zero hz)
  · exact Bool.eq_false_iff.2 fun hz ↦ hcon.2 (magZ_of_zero hz)

/-! ## The flags of each operation -/

theorem signed_not (s : Bool) (y : ℚ) : signed (s ^^ true) y = -signed s y := by
  cases s <;> simp [signed]

/-- The sum or difference of the values. -/
def sumValue (isSub : Bool) (a b : BitVec 32) : ℚ :=
  if isSub then value a - value b else value a + value b

theorem sumValue_eq (isSub : Bool) {a b : BitVec 32} (ha : IsFinite a) (hb : IsFinite b) :
    sumValue isSub a b = signed (sign a) (magZ a) + signed (sign b ^^ isSub) (magZ b) := by
  unfold sumValue
  rw [ha.value_eq, hb.value_eq]
  cases isSub with
  | false => simp
  | true => rw [if_pos rfl, signed_not, sub_eq_add_neg]

theorem addsubSpecial_eq_none_iff (isSub : Bool) (rm : BitVec 3) (a b : BitVec 32) :
    addsubSpecial isSub rm a b = none ↔ Normal a ∧ Normal b := by
  unfold addsubSpecial
  constructor
  · intro h
    dsimp only at h
    split_ifs at h with hnan hinv hia hib hzz hza hzb
    simp only [Bool.or_eq_true, not_or, Bool.not_eq_true] at hnan hia hib hza hzb
    exact ⟨⟨hnan.1, hia, hza⟩, hnan.2, hib, hzb⟩
  · rintro ⟨ha, hb⟩
    simp [ha.notNan, hb.notNan, ha.notInf, hb.notInf, ha.notZero, hb.notZero]

theorem addsub_flags_iff (isSub : Bool) (rm : BitVec 3) (a b : BitVec 32) :
    (addsub isSub rm a b).flags = (fAdd a b rm isSub).flags ↔
      ¬(IsFinite a ∧ IsFinite b ∧ ExactTiny (sumValue isSub a b)) := by
  rw [addsub_eq, fAdd_eq]
  cases hs : addsubSpecial isSub rm a b with
  | none =>
    obtain ⟨ha, hb⟩ := (addsubSpecial_eq_none_iff isSub rm a b).1 hs
    have hvalue : sumValue isSub a b =
        signed (sign a) (mag a) + signed (sign b ^^ isSub) (mag b) := by
      rw [sumValue_eq isSub ha.isFinite hb.isFinite, magZ, magZ, ha.notZero, hb.notZero]
      rfl
    rw [Option.getD_none, Option.getD_none, addsubFinite_eq, roundSumExact_flags_iff, hvalue]
    exact not_congr ⟨fun h ↦ ⟨ha.isFinite, hb.isFinite, h⟩, fun h ↦ h.2.2⟩
  | some r =>
    refine ⟨fun _ ↦ ?_, fun _ ↦ rfl⟩
    rintro ⟨ha, hb, ht⟩
    have hnone : ¬(Normal a ∧ Normal b) := by
      rw [← addsubSpecial_eq_none_iff isSub rm, hs]
      exact Option.some_ne_none r
    rw [sumValue_eq isSub ha hb] at ht
    rcases ha.zero_of_not_normal hb hnone with h0 | h0
    · rw [h0, signed_zero, zero_add, exactTiny_signed] at ht
      exact not_exactTiny_magZ hb ht
    · rw [h0, signed_zero, add_zero, exactTiny_signed] at ht
      exact not_exactTiny_magZ ha ht

theorem mulSpecial_eq_none_iff (a b : BitVec 32) :
    mulSpecial a b = none ↔ Normal a ∧ Normal b := by
  unfold mulSpecial
  constructor
  · intro h
    dsimp only at h
    split_ifs at h with hnan hinv hinf hz
    simp only [Bool.or_eq_true, not_or, Bool.not_eq_true] at hnan hinf hz
    exact ⟨⟨hnan.1, hinf.1, hz.1⟩, hnan.2, hinf.2, hz.2⟩
  · rintro ⟨ha, hb⟩
    simp [ha.notNan, hb.notNan, ha.notInf, hb.notInf, ha.notZero, hb.notZero]

theorem FDivider.special_eq_none_iff (a b : BitVec 32) :
    FDivider.special a b = none ↔ Normal a ∧ Normal b := by
  unfold FDivider.special
  constructor
  · intro h
    dsimp only at h
    split_ifs at h with hnan hinf hzero hia hib hzb hza
    simp only [Bool.or_eq_true, not_or, Bool.not_eq_true] at hnan hia hib hza hzb
    exact ⟨⟨hnan.1, hia, hza⟩, hnan.2, hib, hzb⟩
  · rintro ⟨ha, hb⟩
    simp [ha.notNan, hb.notNan, ha.notInf, hb.notInf, ha.notZero, hb.notZero]

theorem fusedSpecial_eq_none_iff (op : BitVec 2) (rm : BitVec 3) (a b c : BitVec 32) :
    fusedSpecial op rm a b c = none ↔ Normal a ∧ Normal b ∧ IsFinite c := by
  unfold fusedSpecial
  constructor
  · intro h
    dsimp only at h
    split_ifs at h with hnan hinv hinf2 hpi hci hz hzc
    simp only [Bool.or_eq_true, not_or, Bool.not_eq_true] at hnan hpi hci hz
    exact ⟨⟨hnan.1.1, hpi.1, hz.1⟩, ⟨hnan.1.2, hpi.2, hz.2⟩, by simpa using hnan.2, by simpa using hci⟩
  · rintro ⟨ha, hb, hc⟩
    have hcnan : isNan c = false := by simpa using hc.notNan
    have hcinf : isInf c = false := by simpa using hc.notInf
    simp [ha.notNan, hb.notNan, ha.notInf, hb.notInf, ha.notZero, hb.notZero, hcnan, hcinf]

theorem signed_mul_signed (s s' : Bool) (p q : ℚ) :
    signed s p * signed s' q = signed (s ^^ s') (p * q) := by
  cases s <;> cases s' <;> simp [signed]

theorem signed_div_signed (s s' : Bool) (p q : ℚ) :
    signed s p / signed s' q = signed (s ^^ s') (p / q) := by
  cases s <;> cases s' <;> simp [signed, neg_div, div_neg]

theorem value_zero_of_not_normal {a b : BitVec 32} (ha : IsFinite a) (hb : IsFinite b)
    (h : ¬(Normal a ∧ Normal b)) : value a = 0 ∨ value b = 0 := by
  rw [ha.value_eq, hb.value_eq]
  rcases ha.zero_of_not_normal hb h with h0 | h0
  · exact .inl (by rw [h0, signed_zero])
  · exact .inr (by rw [h0, signed_zero])

theorem mul_flags_iff (rm : BitVec 3) (a b : BitVec 32) :
    (mul rm a b).flags = (fMul a b rm).flags ↔
      ¬(IsFinite a ∧ IsFinite b ∧ ExactTiny (value a * value b)) := by
  rw [mul_eq, fMul_eq]
  cases hs : mulSpecial a b with
  | none =>
    obtain ⟨ha, hb⟩ := (mulSpecial_eq_none_iff a b).1 hs
    rw [Option.getD_none, Option.getD_none, mulFinite_eq,
      roundExact_flags_iff (mul_pos (mag_pos a) (mag_pos b)), ha.value_eq, hb.value_eq,
      signed_mul_signed, exactTiny_signed]
    exact not_congr ⟨fun h ↦ ⟨ha.isFinite, hb.isFinite, h⟩, fun h ↦ h.2.2⟩
  | some r =>
    refine ⟨fun _ ↦ ?_, fun _ ↦ rfl⟩
    rintro ⟨ha, hb, ht⟩
    have hnone : ¬(Normal a ∧ Normal b) := by
      rw [← mulSpecial_eq_none_iff, hs]
      exact Option.some_ne_none r
    apply ht.ne
    rcases value_zero_of_not_normal ha hb hnone with h0 | h0
    · rw [h0, zero_mul]
    · rw [h0, mul_zero]

theorem divide_flags_iff (rm : BitVec 3) (a b : BitVec 32) :
    (FDivider.divide rm a b).flags = (fDiv a b rm).flags ↔
      ¬(IsFinite a ∧ IsFinite b ∧ ExactTiny (value a / value b)) := by
  rw [FDivider.divide_eq, FDivider.fDiv_eq]
  cases hs : FDivider.special a b with
  | none =>
    obtain ⟨ha, hb⟩ := (FDivider.special_eq_none_iff a b).1 hs
    rw [Option.getD_none, Option.getD_none,
      roundExact_flags_iff (div_pos (mag_pos a) (mag_pos b)), ha.value_eq, hb.value_eq,
      signed_div_signed, exactTiny_signed]
    exact not_congr ⟨fun h ↦ ⟨ha.isFinite, hb.isFinite, h⟩, fun h ↦ h.2.2⟩
  | some r =>
    refine ⟨fun _ ↦ ?_, fun _ ↦ rfl⟩
    rintro ⟨ha, hb, ht⟩
    have hnone : ¬(Normal a ∧ Normal b) := by
      rw [← FDivider.special_eq_none_iff, hs]
      exact Option.some_ne_none r
    apply ht.ne
    rcases value_zero_of_not_normal ha hb hnone with h0 | h0
    · rw [h0, zero_div]
    · rw [h0, div_zero]

/-- The exact result of the fused operation `op`. -/
def fusedValue (op : BitVec 2) (a b c : BitVec 32) : ℚ :=
  signed (op.getLsbD 1) (value a * value b) + signed (op.getLsbD 0) (value c)

theorem signed_signed (s s' : Bool) (y : ℚ) : signed s (signed s' y) = signed (s' ^^ s) y := by
  cases s <;> cases s' <;> simp [signed]

theorem fused_flags_iff (op : BitVec 2) (rm : BitVec 3) (a b c : BitVec 32) :
    (fmadd op rm a b c).flags = (fMadd a b c rm (op.getLsbD 1) (op.getLsbD 0)).flags ↔
      ¬(IsFinite a ∧ IsFinite b ∧ IsFinite c ∧ ExactTiny (fusedValue op a b c)) := by
  rw [fmadd_eq, fMadd_eq]
  cases hs : fusedSpecial op rm a b c with
  | none =>
    obtain ⟨ha, hb, hc⟩ := (fusedSpecial_eq_none_iff op rm a b c).1 hs
    rw [Option.getD_none, Option.getD_none, fused_general, roundSumExact_flags_iff, fusedValue,
      ha.value_eq, hb.value_eq, hc.value_eq, signed_mul_signed, signed_signed, signed_signed]
    exact not_congr ⟨fun h ↦ ⟨ha.isFinite, hb.isFinite, hc, h⟩, fun h ↦ h.2.2.2⟩
  | some r =>
    refine ⟨fun _ ↦ ?_, fun _ ↦ rfl⟩
    rintro ⟨ha, hb, hc, ht⟩
    have hnone : ¬(Normal a ∧ Normal b) := fun h ↦ by
      have := (fusedSpecial_eq_none_iff op rm a b c).2 ⟨h.1, h.2, hc⟩
      rw [hs] at this
      cases this
    have hprod : value a * value b = 0 := mul_eq_zero.2 (value_zero_of_not_normal ha hb hnone)
    rw [fusedValue, hprod, signed_zero, zero_add, hc.value_eq, signed_signed, exactTiny_signed] at ht
    exact not_exactTiny_magZ hc ht

/-! ## Comparisons and conversions -/

theorem minmax_flags (funct3 : BitVec 3) (a b : BitVec 32) :
    (minmax funct3 a b).flags = (fMinmax a b funct3).flags := by
  unfold minmax fMinmax
  simp only [decode_isNan, decode_isSnan, flagNv_eq]
  split_ifs <;> rfl

theorem cmp_flags (funct3 : BitVec 3) (a b : BitVec 32) :
    (cmp funct3 a b).flags = (fCmp a b funct3).flags := by
  unfold cmp fCmp
  simp only [decode_isNan, decode_isSnan, flagNv_eq, f3Feq]
  split_ifs <;> rfl

theorem cvtFromInt_eq (rm : BitVec 3) (rs2Sel : BitVec 5) (a : BitVec 32) :
    cvtFromInt rm rs2Sel a = fCvtFromInt a rm (rs2Sel == rs2FcvtWu) := by
  unfold cvtFromInt fCvtFromInt
  by_cases h0 : a = 0
  · rw [if_pos h0, if_pos h0]
  rw [if_neg h0, if_neg h0]
  dsimp only
  have hneg : ~~~a + 1 = -a := (BitVec.neg_eq_not_add a).symm
  rw [hneg, bne]
  set srcSign := !(rs2Sel == rs2FcvtWu) && a.getLsbD 31
  set v := if srcSign then -a else a with hv
  have hne : v.toNat ≠ 0 := by
    intro h
    have hz : v = 0 := BitVec.eq_of_toNat_eq h
    rw [hv] at hz
    split_ifs at hz
    · exact h0 (by simpa using hz)
    · exact h0 hz
  obtain ⟨hshift, hge, hlt⟩ := renormLoop_spec (by decide : 31 < 32) 31 v v.isLt (by omega)
  have hone : (1 : ℚ) ≤ v.toNat := by exact_mod_cast Nat.pos_of_ne_zero hne
  have hvalue : ((renormLoop 31 31 v).1.toNat : ℚ) *
      2 ^ (31 - ((renormLoop 31 31 v).2 : ℤ) - (6 + 25 : ℕ)) = v.toNat := by
    rw [hshift, Nat.cast_mul, Nat.cast_pow, Nat.cast_ofNat, mul_assoc, ← zpow_natCast,
      ← zpow_add₀ two_ne_zero]
    simp
  rw [roundAndPack_extract (j := 6) hge hlt, hvalue, roundExact_eq (by linarith)]
  intro ht
  have hsmall := ht.lt
  rw [abs_of_pos (by linarith)] at hsmall
  have h1 : (2 : ℚ) ^ (-126 : ℤ) ≤ 2 ^ (0 : ℤ) := zpow_le_zpow_right₀ one_le_two (by norm_num)
  rw [zpow_zero] at h1
  linarith

/-- The integer part that `fcvt` rounds, with the bits below it. -/
def intPart (a : BitVec 32) : BitVec 64 × Bool × Bool × Bool :=
  let shifted : BitVec 27 := shiftRightSticky (mant a ++ 0b000#3) (23 - expU a)
  let wide := decide (23 ≤ expU a)
  (if wide then (mant a).setWidth 64 <<< (expU a - 23).toNat
    else (shifted.extractLsb' 3 24).setWidth 64,
    !wide && shifted.getLsbD 2, !wide && shifted.getLsbD 1, !wide && shifted.getLsbD 0)

theorem intPart_split {a : BitVec 32} (h : expU a ≤ 31) :
    Split (mag a) (intPart a).1.toNat (intPart a).2.1 ((intPart a).2.2.1 || (intPart a).2.2.2) ∧
      (intPart a).1.toNat < 2 ^ 32 := by
  have hm := (mant_bounds a).2
  unfold intPart
  dsimp only
  by_cases hwide : 23 ≤ expU a
  · -- every bit of the significand is at or above the unit
    obtain ⟨k, hk⟩ : ∃ k : ℕ, expU a = 23 + k := ⟨(expU a - 23).toNat, by omega⟩
    have hk8 : k ≤ 8 := by omega
    have hpow : 2 ^ k ≤ 2 ^ 8 := Nat.pow_le_pow_right Nat.two_pos hk8
    have hlt : (mant a).toNat * 2 ^ k < 2 ^ 32 := by
      calc (mant a).toNat * 2 ^ k ≤ (mant a).toNat * 2 ^ 8 := Nat.mul_le_mul_left _ hpow
        _ < 2 ^ 32 := by omega
    have hnat : ((mant a).setWidth 64 <<< (expU a - 23).toNat).toNat = (mant a).toNat * 2 ^ k := by
      rw [hk, show (23 + (k : ℤ) - 23).toNat = k by omega, BitVec.toNat_shiftLeft,
        BitVec.toNat_setWidth_of_le (by decide), Nat.shiftLeft_eq, Nat.mod_eq_of_lt (by omega)]
    have hmag : mag a = ((mant a).toNat * 2 ^ k : ℕ) := by
      rw [mag, hk, show 23 + (k : ℤ) - 23 = k by ring, zpow_natCast]
      push_cast
      rfl
    simp only [hwide, decide_true, if_true, Bool.not_true, Bool.false_and, Bool.or_self]
    rw [hnat, hmag]
    exact ⟨Split.self _, hlt⟩
  · obtain ⟨d, hd⟩ : ∃ d : ℕ, 23 - expU a = d := ⟨(23 - expU a).toNat, by omega⟩
    have hframe : (mant a ++ 0b000#3 : BitVec 27).toNat = (mant a).toNat * 2 ^ 3 :=
      toNat_append_zero _
    have hshifted := toNat_shiftRightSticky (by decide) (mant a ++ 0b000#3 : BitVec 27) (23 - expU a)
    rw [hframe, hd, Int.toNat_natCast] at hshifted
    have hsplit := (OddApprox.shift (K := ℚ) ((mant a).toNat * 2 ^ 3) d).split 1
    rw [← hshifted] at hsplit
    have hmag : (((mant a).toNat * 2 ^ 3 : ℕ) : ℚ) / 2 ^ d / 2 ^ (1 + 2) = mag a := by
      rw [mag, show expU a - 23 = -(d : ℤ) by omega, zpow_neg, zpow_natCast]
      push_cast
      field_simp
      norm_num
    set shifted : BitVec 27 := shiftRightSticky (mant a ++ 0b000#3) (d : ℤ) with hsh
    have hnat : ((shifted.extractLsb' 3 24).setWidth 64).toNat = shifted.toNat / 2 ^ (1 + 2) := by
      have hlt := shifted.isLt
      rw [BitVec.toNat_setWidth_of_le (by decide), BitVec.extractLsb'_toNat,
        Nat.shiftRight_eq_div_pow, Nat.mod_eq_of_lt (by omega)]
    have hrest := bits_two shifted
    simp only [hwide, decide_false, Bool.false_eq_true, if_false, Bool.not_false, Bool.true_and, hd,
      ← hsh]
    rw [hnat, hrest, ← hmag]
    refine ⟨hsplit, ?_⟩
    have hlt := shifted.isLt
    omega

/-- What `fcvt` makes of an integer part. -/
def cvtFinite (rm : BitVec 3) (unsigned sgn : Bool) (p : BitVec 64 × Bool × Bool × Bool) : Result :=
  let magnitude :=
    if roundUp rm sgn (p.1.getLsbD 0) p.2.1 p.2.2.1 p.2.2.2 then p.1 + 1 else p.1
  let outOfRange :=
    if unsigned then (sgn && magnitude != 0) || decide (0xFFFFFFFF#64 < magnitude)
    else
      (!sgn && decide (0x7FFFFFFF#64 < magnitude)) || (sgn && decide (0x80000000#64 < magnitude))
  if outOfRange then { result := saturate unsigned sgn, flags := flagNv true }
  else
    { result := if sgn then -(magnitude.setWidth 32) else magnitude.setWidth 32
      flags := 0b0000#4 ++ BitVec.ofBool (p.2.1 || p.2.2.1 || p.2.2.2) }

/-- The reference for the same. -/
def cvtExact (rm : BitVec 3) (unsigned sgn : Bool) (x : ℚ) : Result :=
  let floorMag := (x.num / x.den).toNat
  let cls := IssFloat.classify (x - floorMag)
  let magnitude := floorMag + if f32RoundUpDecision cls floorMag sgn rm then 1 else 0
  let outOfRange :=
    if unsigned then (sgn && magnitude != 0) || decide (magnitude > 0xFFFFFFFF)
    else
      (!sgn && decide (magnitude > 0x7FFFFFFF)) || (sgn && decide (magnitude > 0x80000000))
  if outOfRange then { result := saturated unsigned sgn, flags := fNv }
  else
    { result := if sgn then BitVec.ofInt 32 (-magnitude) else BitVec.ofNat 32 magnitude
      flags := flagIf (cls != .exact) fNx }

theorem saturate_eq (unsigned sgn : Bool) : saturate unsigned sgn = saturated unsigned sgn := by
  cases unsigned <;> cases sgn <;> rfl

theorem cvtFinite_eq {rm : BitVec 3} {unsigned sgn : Bool} {p : BitVec 64 × Bool × Bool × Bool}
    {x : ℚ} (h : Split x p.1.toNat p.2.1 (p.2.2.1 || p.2.2.2)) (hlt : p.1.toNat < 2 ^ 32) :
    cvtFinite rm unsigned sgn p = cvtExact rm unsigned sgn x := by
  unfold cvtFinite cvtExact
  dsimp only
  rw [floor_toNat h.le h.lt, classify_eq h, BitVec.getLsbD, roundUp_eq, clsOf_ne_exact]
  set up := f32RoundUpDecision (clsOf p.2.1 (p.2.2.1 || p.2.2.2)) p.1.toNat sgn rm
  set magnitude := if up then p.1 + 1 else p.1 with hmag
  have hnat : magnitude.toNat = p.1.toNat + if up then 1 else 0 := by
    rw [hmag]
    split_ifs
    · rw [BitVec.toNat_add]
      exact Nat.mod_eq_of_lt (by simp; omega)
    · rfl
  have hzero : (magnitude != 0) = (magnitude.toNat != 0) := by
    rw [Bool.eq_iff_iff, bne_iff_ne, bne_iff_ne, ne_eq, ne_eq, ← BitVec.toNat_inj]
    rfl
  have hgt : ∀ n : ℕ, n < 2 ^ 64 →
      decide (BitVec.ofNat 64 n < magnitude) = decide (magnitude.toNat > n) := by
    intro n hn
    rw [decide_eq_decide, BitVec.lt_def, BitVec.toNat_ofNat, Nat.mod_eq_of_lt hn]
  have hpos : magnitude.setWidth 32 = BitVec.ofNat 32 magnitude.toNat :=
    BitVec.eq_of_toNat_eq (by simp)
  have hneg : -(magnitude.setWidth 32) = BitVec.ofInt 32 (-(magnitude.toNat : ℤ)) := by
    rw [hpos, BitVec.ofInt_neg, BitVec.ofInt_natCast]
  rw [← hnat, hzero, hgt _ (by decide), hgt _ (by decide), hgt _ (by decide), saturate_eq, hneg, hpos,
    Bool.or_assoc]
  have hflags : ∀ b : Bool, (0b0000#4 ++ BitVec.ofBool b : BitVec 5) = flagIf b fNx := by decide
  rw [hflags]
  rfl

/-- From `2 ^ 32` on every conversion is out of range. -/
theorem cvtExact_of_ge {rm : BitVec 3} {unsigned sgn : Bool} {x : ℚ} (h : (2 : ℚ) ^ 32 ≤ x) :
    cvtExact rm unsigned sgn x = { result := saturated unsigned sgn, flags := fNv } := by
  have hx : (0 : ℚ) ≤ x := le_trans (by norm_num) h
  have hs := split_floor hx
  have hge : 2 ^ 32 ≤ ⌊x⌋₊ := Nat.le_floor (by exact_mod_cast h)
  unfold cvtExact
  dsimp only
  rw [floor_toNat hs.le hs.lt]
  generalize (if f32RoundUpDecision (IssFloat.classify (x - (⌊x⌋₊ : ℕ))) ⌊x⌋₊ sgn rm then 1 else 0) = up
  rw [if_pos]
  have h1 : ⌊x⌋₊ + up > 0xFFFFFFFF := by omega
  have h2 : ⌊x⌋₊ + up > 0x7FFFFFFF := by omega
  have h3 : ⌊x⌋₊ + up > 0x80000000 := by omega
  cases unsigned <;> cases sgn <;> simp [h1, h2, h3]

theorem cvtToInt_eq (rm : BitVec 3) (rs2Sel : BitVec 5) (a : BitVec 32) :
    cvtToInt rm rs2Sel a = fCvtToInt a rm (rs2Sel == rs2FcvtWu) := by
  set unsigned := rs2Sel == rs2FcvtWu with hu
  have hdef : cvtToInt rm rs2Sel a =
      if isNan a then { result := saturate unsigned false, flags := flagNv true }
      else if isZero a then { result := 0 }
      else if isInf a || decide (31 < expU a) then
        { result := saturate unsigned (sign a), flags := flagNv true }
      else cvtFinite rm unsigned (sign a) (intPart a) := rfl
  have href : fCvtToInt a rm unsigned =
      if (f32Decode a).isNan then
        { result := if unsigned then 0xFFFFFFFF else 0x7FFFFFFF, flags := fNv }
      else if (f32Decode a).isZero then { result := 0 }
      else if (f32Decode a).isInf then
        { result := saturated unsigned (f32Decode a).sign, flags := fNv }
      else cvtExact rm unsigned (f32Decode a).sign (f32Decode a).magnitude := rfl
  rw [hdef, href]
  simp only [decode_isNan, decode_isZero, decode_isInf, decode_sign, saturate_eq, flagNv_eq]
  by_cases hnan : isNan a = true
  · rw [if_pos hnan, if_pos hnan]
    rfl
  rw [if_neg hnan, if_neg hnan]
  by_cases hz : isZero a = true
  · rw [if_pos hz, if_pos hz]
  rw [if_neg hz, if_neg hz]
  by_cases hinf : isInf a = true
  · rw [if_pos (by rw [hinf, Bool.true_or]), if_pos hinf]
    rfl
  have ha : Normal a := ⟨by simpa using hnan, by simpa using hinf, by simpa using hz⟩
  rw [ha.notInf, Bool.false_or, if_neg Bool.false_ne_true, ha.magnitude]
  by_cases hbig : 31 < expU a
  · have hge : (2 : ℚ) ^ 32 ≤ mag a := by
      have h := zpow_le_zpow_right₀ (one_le_two : (1 : ℚ) ≤ 2) (by omega : ((32 : ℕ) : ℤ) ≤ expU a)
      rw [zpow_natCast] at h
      exact h.trans (two_zpow_expU_le a)
    rw [decide_eq_true hbig, if_pos rfl, cvtExact_of_ge hge]
    rfl
  · obtain ⟨hsplit, hlt⟩ := intPart_split (not_lt.1 hbig)
    rw [decide_eq_false hbig, if_neg Bool.false_ne_true, cvtFinite_eq hsplit hlt]

/-! ## All units -/

/-- The flags delivered with a result are those of the reference, except for a result that is
flushed to zero without having lost anything. -/
theorem flags_agree_iff {d : FDivider} {i : ℕ → FDivider.In} {r : FSqrt} {j : ℕ → FSqrt.In}
    (hd : FDivider.clocked.Init d) (hr : FSqrt.clocked.Init r)
    (hdheld : HeldUntilDone (fun k ↦ (i k).start) fun k ↦ (FDivider.clocked.run d i k).done)
    (hrheld : HeldUntilDone (fun k ↦ (j k).start) fun k ↦ (FSqrt.clocked.run r j k).done)
    (op : BitVec 2) (rm : BitVec 3) (rs2Sel : BitVec 5) (a b c : BitVec 32) :
    ((falu funct5Fadd rm rs2Sel a b).flags = (fAdd a b rm false).flags ↔
      ¬(IsFinite a ∧ IsFinite b ∧ ExactTiny (value a + value b))) ∧
    ((falu funct5Fsub rm rs2Sel a b).flags = (fAdd a b rm true).flags ↔
      ¬(IsFinite a ∧ IsFinite b ∧ ExactTiny (value a - value b))) ∧
    ((falu funct5Fmul rm rs2Sel a b).flags = (fMul a b rm).flags ↔
      ¬(IsFinite a ∧ IsFinite b ∧ ExactTiny (value a * value b))) ∧
    ((fmadd op rm a b c).flags = (fMadd a b c rm (op.getLsbD 1) (op.getLsbD 0)).flags ↔
      ¬(IsFinite a ∧ IsFinite b ∧ IsFinite c ∧ ExactTiny (fusedValue op a b c))) ∧
    (∃ n, Answered (fun k ↦ (i k).start) (fun k ↦ (FDivider.clocked.run d i k).busy)
        (fun k ↦ (FDivider.clocked.run d i k).done) n ∧
      ((FDivider.clocked.run d i n).out.flags = (fDiv (i 0).a (i 0).b (i (n - 1)).rm).flags ↔
        ¬(IsFinite (i 0).a ∧ IsFinite (i 0).b ∧ ExactTiny (value (i 0).a / value (i 0).b)))) ∧
    (∃ n, Answered (fun k ↦ (j k).start) (fun k ↦ (FSqrt.clocked.run r j k).busy)
        (fun k ↦ (FSqrt.clocked.run r j k).done) n ∧
      some (FSqrt.clocked.run r j n).out.flags =
        (fSqrt (j 0).a (j (n - 1)).rm).map (·.flags)) ∧
    (falu funct5FcvtWS rm rs2Sel a b).flags = (fCvtToInt a rm (rs2Sel == rs2FcvtWu)).flags ∧
    (falu funct5FcvtSW rm rs2Sel a b).flags = (fCvtFromInt a rm (rs2Sel == rs2FcvtWu)).flags ∧
    (falu funct5Fminmax rm rs2Sel a b).flags = (fMinmax a b rm).flags ∧
    (falu funct5Fcmp rm rs2Sel a b).flags = (fCmp a b rm).flags := by
  obtain ⟨n, hn, hout⟩ := FDivider.exists_answered_divide hd hdheld
  obtain ⟨m, hm, hout'⟩ := FSqrt.exists_answered_root hr hrheld
  refine ⟨addsub_flags_iff false rm a b, addsub_flags_iff true rm a b, mul_flags_iff rm a b,
    fused_flags_iff op rm a b c, ⟨n, hn, ?_⟩, ⟨m, hm, ?_⟩, ?_, ?_, minmax_flags rm a b,
    cmp_flags rm a b⟩
  · rw [hout]
    exact divide_flags_iff _ _ _
  · rw [hout', FSqrt.fSqrt_eq]
    rfl
  · exact congrArg Result.flags (cvtToInt_eq rm rs2Sel a)
  · exact congrArg Result.flags (cvtFromInt_eq rm rs2Sel a)

theorem flags_agree_iff_idle :
    (falu funct5Fmul 0 0 0x0D800000 0x0D800000).flags = (fMul 0x0D800000 0x0D800000 0).flags ↔
      ¬(IsFinite 0x0D800000 ∧ IsFinite 0x0D800000 ∧
        ExactTiny (value 0x0D800000 * value 0x0D800000)) :=
  (flags_agree_iff (d := default) (r := default)
    (i := fun _ ↦ ⟨true, 0, 0x3F800000, 0x40400000⟩) (j := fun _ ↦ ⟨true, 0, 0x40400000⟩)
    ⟨rfl, rfl⟩ ⟨rfl, rfl⟩ (fun _ _ ↦ rfl) (fun _ _ ↦ rfl) 0 0 0 0x0D800000 0x0D800000 0).2.2.1

/-- The square of `2 ^ -100` is flushed with `UF` alone; the reference raises `UF` and `NX`. -/
theorem flags_differ :
    ¬∀ (rm : BitVec 3) (rs2Sel : BitVec 5) (a b : BitVec 32),
      (falu funct5Fmul rm rs2Sel a b).flags = (fMul a b rm).flags :=
  fun h ↦ absurd (h 0 0 0x0D800000 0x0D800000) (by decide +kernel)

end Fp

end RvPipeline
