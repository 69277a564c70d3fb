import RvPipeline.Fp.Round

/-!
# Aligned sums

The adder of `FALU.v` and the wider one of `FMADDUnit.v` align the smaller operand with a sticky
bit, add or subtract, shift the leading one back to its place and round.
-/

namespace RvPipeline

open Rounding

namespace Fp

open IssFloat

theorem toNat_shiftRightSticky {n : ℕ} (hn : 0 < n) (v : BitVec n) (d : ℤ) :
    (shiftRightSticky v d).toNat = sticky v.toNat d.toNat := by
  have hone : (1 : BitVec n).toNat = 1 := BitVec.toNat_one hn
  unfold shiftRightSticky
  split_ifs with h0 hbig hz
  · rw [Int.toNat_of_nonpos h0, sticky_of_dvd (by simp [Nat.mod_one]), pow_zero, Nat.div_one]
  · simp [hz, sticky]
  · have hlt : v.toNat < 2 ^ d.toNat :=
      lt_of_lt_of_le v.isLt (Nat.pow_le_pow_right Nat.two_pos (by omega))
    have hne : v.toNat ≠ 0 := fun h ↦ hz (BitVec.eq_of_toNat_eq (by simpa using h))
    rw [sticky, Nat.div_eq_of_lt hlt, Nat.mod_eq_of_lt hlt, if_neg hne, hone, Nat.zero_or]
  · dsimp only
    rw [sticky, BitVec.toNat_or, BitVec.toNat_ushiftRight, Nat.shiftRight_eq_div_pow]
    split_ifs
    · simp
    · rw [hone]

theorem bits_two {N : ℕ} (Q : BitVec N) :
    (Q.getLsbD 1 || Q.getLsbD 0) = decide (Q.toNat % 2 ^ 2 ≠ 0) := by
  rw [BitVec.getLsbD, BitVec.getLsbD, Nat.testBit_eq_decide_div_mod_eq,
    Nat.testBit_eq_decide_div_mod_eq, ← Bool.decide_or, decide_eq_decide]
  omega

/-! ## Renormalisation -/

theorem getLsbD_top {N : ℕ} (top : ℕ) {v : BitVec N} (hlt : v.toNat < 2 ^ (top + 1)) :
    v.getLsbD top = true ↔ 2 ^ top ≤ v.toNat := by
  rw [BitVec.getLsbD, Nat.testBit_eq_decide_div_mod_eq, decide_eq_true_iff]
  have hdiv : v.toNat / 2 ^ top < 2 := by
    rw [Nat.div_lt_iff_lt_mul (Nat.two_pow_pos top), mul_comm, ← pow_succ]
    exact hlt
  rw [Nat.mod_eq_of_lt hdiv]
  constructor
  · intro h
    by_contra hlt'
    rw [Nat.div_eq_of_lt (not_le.1 hlt')] at h
    cases h
  · intro h
    have hge := Nat.div_pos h (Nat.two_pow_pos top)
    omega

theorem renormLoop_spec {N top : ℕ} (hN : top < N) (fuel : ℕ) (v : BitVec N)
    (hlt : v.toNat < 2 ^ (top + 1)) (hfuel : 2 ^ top ≤ v.toNat * 2 ^ fuel) :
    (renormLoop top fuel v).1.toNat = v.toNat * 2 ^ (renormLoop top fuel v).2 ∧
      2 ^ top ≤ (renormLoop top fuel v).1.toNat ∧
      (renormLoop top fuel v).1.toNat < 2 ^ (top + 1) := by
  induction fuel generalizing v with
  | zero =>
    rw [renormLoop]
    simp only [pow_zero, mul_one] at hfuel ⊢
    exact ⟨trivial, hfuel, hlt⟩
  | succ fuel ih =>
    rw [renormLoop]
    split_ifs with hbit
    · simp only [pow_zero, mul_one]
      exact ⟨trivial, (getLsbD_top top hlt).1 hbit, hlt⟩
    · have hsmall : v.toNat < 2 ^ top := not_le.1 fun h ↦ hbit ((getLsbD_top top hlt).2 h)
      have hdouble : (v <<< 1).toNat = v.toNat * 2 := by
        have hle : 2 ^ (top + 1) ≤ 2 ^ N := Nat.pow_le_pow_right Nat.two_pos hN
        rw [pow_succ] at hle
        rw [BitVec.toNat_shiftLeft, Nat.shiftLeft_eq, pow_one, Nat.mod_eq_of_lt (by omega)]
      have hrec := ih (v <<< 1) (by rw [hdouble, pow_succ]; omega)
        (by rw [hdouble, mul_assoc, ← pow_succ']; exact hfuel)
      rw [hdouble, mul_assoc, ← pow_succ'] at hrec
      exact hrec

/-- The guarded loop: a value with a carry or a leading one stays as it is. -/
def renorm {N : ℕ} (top fuel : ℕ) (sum : BitVec N) : BitVec N × ℕ :=
  if !sum.getLsbD (top + 1) && !sum.getLsbD top then renormLoop top fuel sum else (sum, 0)

structure Renormed {N : ℕ} (top : ℕ) (sum : BitVec N) (p : BitVec N × ℕ) : Prop where
  shifted : p.1.toNat = sum.toNat * 2 ^ p.2
  ge : 2 ^ top ≤ p.1.toNat
  lt : p.1.toNat < 2 ^ (top + 2)
  moved : p.2 ≠ 0 → p.1.toNat < 2 ^ (top + 1)

theorem renorm_spec {N : ℕ} (top : ℕ) {fuel : ℕ} (hN : top < N) (hfuel : top ≤ fuel) {sum : BitVec N}
    (hpos : sum.toNat ≠ 0) (hlt : sum.toNat < 2 ^ (top + 2)) :
    Renormed top sum (renorm top fuel sum) := by
  have hbit1 := getLsbD_top (top + 1) hlt
  unfold renorm
  split_ifs with hloop
  · rw [Bool.and_eq_true, Bool.not_eq_true', Bool.not_eq_true'] at hloop
    have hlt1 : sum.toNat < 2 ^ (top + 1) := by
      by_contra hge
      rw [hbit1.2 (not_lt.1 hge)] at hloop
      exact absurd hloop.1 (by simp)
    have hf : 2 ^ top ≤ sum.toNat * 2 ^ fuel :=
      (Nat.pow_le_pow_right Nat.two_pos hfuel).trans (Nat.le_mul_of_pos_left _ (by omega))
    obtain ⟨hs, hge, hlt'⟩ := renormLoop_spec hN fuel sum hlt1 hf
    have hle : 2 ^ (top + 1) ≤ 2 ^ (top + 2) := Nat.pow_le_pow_right Nat.two_pos (by omega)
    exact ⟨hs, hge, lt_of_lt_of_le hlt' hle, fun _ ↦ hlt'⟩
  · refine ⟨by simp, ?_, hlt, fun h ↦ absurd rfl h⟩
    by_contra hsmall
    have hsmall : sum.toNat < 2 ^ top := not_le.1 hsmall
    have hle : 2 ^ top ≤ 2 ^ (top + 1) := Nat.pow_le_pow_right Nat.two_pos (by omega)
    apply hloop
    rw [Bool.and_eq_true, Bool.not_eq_true', Bool.not_eq_true']
    constructor
    · rw [← Bool.not_eq_true, hbit1]
      omega
    · rw [← Bool.not_eq_true, getLsbD_top top (by omega)]
      omega

/-! ## Rounding a frame -/

/-- A frame of `j + 27` bits and a carry, renormalised and rounded. -/
theorem roundAndPack_framed {N j fuel : ℕ} {sgn r st : Bool} {rm : BitVec 3} {E : ℤ} {x : ℚ}
    {sum : BitVec N} (hN : j + 27 < N) (hfuel : j + 26 ≤ fuel)
    (h : Framed (j + 27) x sum.toNat) (hne : sum.toNat ≠ 0)
    (hrest : (r || st) = decide ((renorm (j + 26) fuel sum).1.toNat % 2 ^ (j + 2) ≠ 0)) :
    roundAndPack sgn (E - (renorm (j + 26) fuel sum).2)
        ((renorm (j + 26) fuel sum).1.extractLsb' (j + 3) 25)
        ((renorm (j + 26) fuel sum).1.getLsbD (j + 2)) r st rm =
      roundExact sgn (x * 2 ^ (E - (j + 26 : ℕ))) rm := by
  have hp := renorm_spec (j + 26) (by omega) hfuel hne h.lt
  set p := renorm (j + 26) fuel sum with hpdef
  -- more than one place is made up only for an exact value
  have hk : p.2 ≤ 1 ∨ x = sum.toNat := by
    rcases Nat.lt_or_ge 1 p.2 with hgt | hle
    · right
      apply h.exact
      have hlt := hp.moved (by omega)
      rw [hp.shifted] at hlt
      have h4 : sum.toNat * 2 ^ 2 ≤ sum.toNat * 2 ^ p.2 :=
        Nat.mul_le_mul_left _ (Nat.pow_le_pow_right Nat.two_pos hgt)
      have hpow : 2 ^ (j + 26 + 1) = 2 ^ (j + 27 - 2) * 2 ^ 2 := by
        rw [← pow_add]
        congr 1
      rw [hpow] at hlt
      omega
    · exact .inl hle
  have hsplit := h.approx.split_shiftLeft hk j
  have hsig : (p.1.extractLsb' (j + 3) 25).toNat = sum.toNat * 2 ^ p.2 / 2 ^ (j + 3) := by
    have hlt := hp.lt
    rw [BitVec.extractLsb'_toNat, hp.shifted, Nat.shiftRight_eq_div_pow, Nat.mod_eq_of_lt]
    rw [Nat.div_lt_iff_lt_mul (Nat.two_pow_pos _), ← pow_add, ← hp.shifted]
    rw [show 25 + (j + 3) = j + 26 + 2 by omega]
    exact hlt
  have hx : x * 2 ^ (E - (j + 26 : ℕ)) * 2 ^ ((23 : ℕ) - (E - p.2) : ℤ) =
      x * 2 ^ p.2 / 2 ^ (j + 3) := by
    rw [mul_assoc, ← zpow_add₀ two_ne_zero, mul_div_assoc, ← zpow_natCast, ← zpow_natCast,
      ← zpow_sub₀ two_ne_zero]
    congr 2
    push_cast
    ring
  apply roundAndPack_eq
  · rw [hx, hsig, hrest, BitVec.getLsbD, hp.shifted]
    exact hsplit
  · rw [hsig, ← hp.shifted, Nat.le_div_iff_mul_le (Nat.two_pow_pos _), ← pow_add,
      show 23 + (j + 3) = j + 26 by omega]
    exact hp.ge

/-! ## The aligned sum -/

section Aligned

variable {F : ℕ} {B S : BitVec F} {d : ℤ}

theorem toNat_sum (hF : 0 < F) :
    ((0#1 ++ B : BitVec (1 + F)) + (0#1 ++ shiftRightSticky S d)).toNat =
      B.toNat + sticky S.toNat d.toNat := by
  have hS := (shiftRightSticky S d).isLt
  have hB := B.isLt
  have hpow : 2 ^ (1 + F) = 2 ^ F * 2 := by rw [Nat.add_comm, pow_succ]
  rw [BitVec.toNat_add, BitVec.toNat_append, BitVec.toNat_append]
  simp only [BitVec.toNat_ofNat, Nat.zero_mod, Nat.zero_shiftLeft, Nat.zero_or]
  rw [hpow, Nat.mod_eq_of_lt (by omega), toNat_shiftRightSticky hF]

theorem toNat_diff (hF : 0 < F) (hle : sticky S.toNat d.toNat ≤ B.toNat) :
    ((0#1 ++ B : BitVec (1 + F)) - (0#1 ++ shiftRightSticky S d)).toNat =
      B.toNat - sticky S.toNat d.toNat := by
  have hS : (0#1 ++ shiftRightSticky S d : BitVec (1 + F)).toNat = sticky S.toNat d.toNat := by
    rw [BitVec.toNat_append, toNat_shiftRightSticky hF]
    simp
  have hB : (0#1 ++ B : BitVec (1 + F)).toNat = B.toNat := by
    rw [BitVec.toNat_append]
    simp
  rw [BitVec.toNat_sub_of_le (by rw [BitVec.le_def, hS, hB]; exact hle), hS, hB]

/-- The sum in the frame, of numbers with a leading one and an even last place. -/
theorem framed_sum (hF : 3 ≤ F) (hB : 2 ^ (F - 1) ≤ B.toNat) (hBe : B.toNat % 2 = 0)
    (hSe : S.toNat % 2 = 0) (hge : d.toNat = 0 → S.toNat ≤ B.toNat) (same : Bool) :
    Framed F (if same then (B.toNat : ℚ) + S.toNat / 2 ^ d.toNat
        else B.toNat - S.toNat / 2 ^ d.toNat)
      (if same then (0#1 ++ B : BitVec (1 + F)) + (0#1 ++ shiftRightSticky S d)
        else 0#1 ++ B - (0#1 ++ shiftRightSticky S d)).toNat := by
  cases same with
  | true =>
    rw [if_pos rfl, if_pos rfl, toNat_sum (by omega)]
    exact Framed.add (by omega) hB B.isLt hBe S.isLt
  | false =>
    have hle := Framed.sticky_le (by omega) hB S.isLt hge
    rw [if_neg Bool.false_ne_true, if_neg Bool.false_ne_true, toNat_diff (by omega) hle]
    exact Framed.sub hF hB B.isLt hBe S.isLt hSe hge

end Aligned

/-! ## Exact sums -/

/-- The reference's rounding of a sum, with the flags of the hardware. -/
def roundSumExact (total : ℚ) (rm : BitVec 3) : Result :=
  if total = 0 then { result := f32PackZero (decide (rm = rmRdn)) }
  else roundExact (decide (total < 0)) |total| rm

theorem roundSumExact_signed (s : Bool) {y : ℚ} (hy : 0 ≤ y) (rm : BitVec 3) :
    roundSumExact (signed s y) rm =
      if y = 0 then { result := zero (decide (rm = rmRdn)) } else roundExact s y rm := by
  rw [zero_eq]
  unfold roundSumExact signed
  rcases eq_or_lt_of_le hy with rfl | hpos
  · simp
  · rw [if_neg hpos.ne']
    cases s with
    | false =>
      simp [hpos.ne', hpos.not_gt, abs_of_pos hpos]
    | true =>
      simp [hpos.ne', hpos, abs_of_pos hpos]

/-- A sum of signed magnitudes, by the sign of the larger. -/
theorem signed_add_signed (s s' : Bool) (p q : ℚ) :
    signed s p + signed s' q = signed s (if s == s' then p + q else p - q) := by
  cases s <;> cases s' <;> simp [signed] <;> ring

theorem toNat_append_zero {n m : ℕ} (v : BitVec n) : (v ++ 0#m).toNat = v.toNat * 2 ^ m := by
  rw [BitVec.toNat_append, BitVec.toNat_ofNat, Nat.zero_mod, Nat.or_zero, Nat.shiftLeft_eq]

/-- The value of a frame whose leading one stands for `2 ^ E`. -/
theorem frame_value {F : ℕ} (B S : ℕ) {E E' : ℤ} (hE : E' ≤ E) (same : Bool) :
    (if same then (B : ℚ) + S / 2 ^ (E - E').toNat else B - S / 2 ^ (E - E').toNat) *
        2 ^ (E - (F : ℕ)) =
      if same then (B : ℚ) * 2 ^ (E - (F : ℕ)) + S * 2 ^ (E' - (F : ℕ))
      else B * 2 ^ (E - (F : ℕ)) - S * 2 ^ (E' - (F : ℕ)) := by
  have hS : (S : ℚ) / 2 ^ (E - E').toNat * 2 ^ (E - (F : ℕ)) = S * 2 ^ (E' - (F : ℕ)) := by
    rw [div_mul_eq_mul_div, mul_div_assoc, ← zpow_natCast, ← zpow_sub₀ two_ne_zero,
      Int.toNat_of_nonneg (by omega)]
    congr 2
    omega
  split_ifs
  · rw [add_mul, hS]
  · rw [sub_mul, hS]

/-- Rounding of the sum of two frames of `j + 27` bits, the larger first. -/
theorem roundSum_framed {j fuel : ℕ} {B S : BitVec (j + 27)} {E E' : ℤ} {vB vS : ℚ}
    {sgn same r st : Bool} {rm : BitVec 3} {sum : BitVec (1 + (j + 27))} (hE : E' ≤ E)
    (hB : 2 ^ (j + 26) ≤ B.toNat) (hBe : B.toNat % 2 = 0) (hSe : S.toNat % 2 = 0)
    (hge : E' = E → S.toNat ≤ B.toNat) (hvB : (B.toNat : ℚ) * 2 ^ (E - (j + 26 : ℕ)) = vB)
    (hvS : (S.toNat : ℚ) * 2 ^ (E' - (j + 26 : ℕ)) = vS) (hfuel : j + 26 ≤ fuel)
    (hsum : sum = if same then 0#1 ++ B + (0#1 ++ shiftRightSticky S (E - E'))
      else 0#1 ++ B - (0#1 ++ shiftRightSticky S (E - E')))
    (hrest : (r || st) = decide ((renorm (j + 26) fuel sum).1.toNat % 2 ^ (j + 2) ≠ 0)) :
    (if sum = 0 then { result := zero (decide (rm = rmRdn)) }
      else
        roundAndPack sgn (E - (renorm (j + 26) fuel sum).2)
          ((renorm (j + 26) fuel sum).1.extractLsb' (j + 3) 25)
          ((renorm (j + 26) fuel sum).1.getLsbD (j + 2)) r st rm) =
      roundSumExact (signed sgn (if same then vB + vS else vB - vS)) rm := by
  have hge' : (E - E').toNat = 0 → S.toNat ≤ B.toNat := fun h ↦ hge (by omega)
  have hframed := framed_sum (d := E - E') (Nat.le_add_left 3 (j + 24)) hB hBe hSe hge' same
  rw [← hsum] at hframed
  have hvalue := frame_value (F := j + 26) B.toNat S.toNat hE same
  rw [hvB, hvS] at hvalue
  have hy : 0 ≤ if same then vB + vS else vB - vS := by
    rw [← hvalue]
    exact mul_nonneg hframed.approx.nonneg (by positivity)
  have hzero : (if same then vB + vS else vB - vS) = 0 ↔ sum = 0 := by
    rw [← hvalue, mul_eq_zero, or_iff_left (by positivity), hframed.eq_zero_iff, ← BitVec.toNat_inj]
    rfl
  rw [roundSumExact_signed sgn hy]
  by_cases h0 : sum = 0
  · rw [if_pos h0, if_pos (hzero.2 h0)]
  · have hne : sum.toNat ≠ 0 := fun h ↦ h0 (BitVec.eq_of_toNat_eq h)
    rw [if_neg h0, if_neg fun h ↦ h0 (hzero.1 h),
      roundAndPack_framed (by omega) hfuel hframed hne hrest, hvalue]

end Fp

end RvPipeline
