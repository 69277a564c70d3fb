import RvPipeline.Lib.Digits
import RvPipeline.Seq.Units

/-!
# The divider divides

After `j` rounds the working pair holds the remainder of the leading `j` bits of the dividend, and
its other bits in front of their quotient.
-/

namespace RvPipeline

/-! ## The registers of a round -/

theorem two_mul_or {a b : ℕ} (hb : b < 2) : 2 * a ||| b = 2 * a + b := by
  have h := Nat.two_pow_add_eq_or_of_lt (i := 1) (by simpa using hb) a
  simpa using h.symm

/-- The remainder register with the next bit of the dividend. -/
theorem toNat_shiftIn {r W : ℕ} (R : BitVec r) (Q : BitVec W) (hW : 0 < W)
    (hR : 2 * R.toNat + 1 < 2 ^ r) :
    (R <<< 1 ||| (Q >>> (W - 1)).setWidth r).toNat = 2 * R.toNat + Q.toNat / 2 ^ (W - 1) := by
  have hbit : Q.toNat / 2 ^ (W - 1) < 2 := by
    rw [Nat.div_lt_iff_lt_mul (Nat.two_pow_pos _), ← pow_succ', Nat.sub_add_cancel hW]
    exact Q.isLt
  rw [BitVec.toNat_or, BitVec.toNat_shiftLeft, BitVec.toNat_setWidth, BitVec.toNat_ushiftRight,
    Nat.shiftRight_eq_div_pow, Nat.shiftLeft_eq, pow_one, Nat.mod_eq_of_lt (by omega),
    Nat.mod_eq_of_lt (by omega), mul_comm _ 2, two_mul_or hbit]

theorem toNat_shiftLeft_one {W : ℕ} (Q : BitVec W) : (Q <<< 1).toNat = 2 * Q.toNat % 2 ^ W := by
  rw [BitVec.toNat_shiftLeft, Nat.shiftLeft_eq, pow_one, mul_comm]

theorem toNat_shiftLeft_or_one {W : ℕ} (Q : BitVec W) (hW : 0 < W) :
    (Q <<< 1 ||| 1).toNat = 2 * Q.toNat % 2 ^ W + 1 := by
  have hpow : 2 ^ W = 2 * 2 ^ (W - 1) := by
    rw [← pow_succ', Nat.sub_add_cancel hW]
  have hone : (1 : BitVec W).toNat = 1 := BitVec.toNat_one hW
  rw [BitVec.toNat_or, toNat_shiftLeft_one, hone, hpow, Nat.mul_mod_mul_left, two_mul_or one_lt_two]

namespace Divider

variable {w : ℕ}

/-! ## Rounds of the divider -/

/-- The working pair after the leading bits of `x` down to bit `m` have been divided by `d`. -/
structure Divided (x d m : ℕ) (p : BitVec w × BitVec w) : Prop where
  rem : p.1.toNat = x / 2 ^ m % d
  quot : p.2.toNat = x % 2 ^ m * 2 ^ (w - m) + x / 2 ^ m / d

theorem toNat_divStep {D : BitVec w} {p : BitVec w × BitVec w} (hw : 0 < w)
    (hR : 2 * p.1.toNat + 1 < 2 ^ w) :
    ((divStep D p).1.toNat, (divStep D p).2.toNat) =
      Digits.divRound w D.toNat (p.1.toNat, p.2.toNat) := by
  have hshift := toNat_shiftIn p.1 p.2 hw hR
  rw [BitVec.setWidth_eq] at hshift
  unfold divStep Digits.divRound
  dsimp only
  rw [← hshift]
  by_cases hsub : D ≤ p.1 <<< 1 ||| p.2 >>> (w - 1)
  · rw [if_pos hsub, if_pos (BitVec.le_def.1 hsub), BitVec.toNat_sub_of_le hsub,
      toNat_shiftLeft_or_one p.2 hw]
  · rw [if_neg hsub, if_neg fun h ↦ hsub (BitVec.le_def.2 h), toNat_shiftLeft_one]

theorem divStep_divided {x m : ℕ} {D : BitVec w} {p : BitVec w × BitVec w} (hx : x < 2 ^ w)
    (hm : m + 1 ≤ w) (hD : 0 < D.toNat) (h : Divided x D.toNat (m + 1) p) :
    Divided x D.toNat m (divStep D p) := by
  have hnat : Digits.Divided w x D.toNat (m + 1) (p.1.toNat, p.2.toNat) := ⟨h.rem, h.quot⟩
  have hR : 2 * p.1.toNat + 1 < 2 ^ w := by
    have hlt : p.1.toNat < 2 ^ (w - (m + 1)) := hnat.rem_lt hx hm
    have hle : 2 ^ (w - (m + 1)) ≤ 2 ^ (w - 1) := Nat.pow_le_pow_right Nat.two_pos (by omega)
    have hpow : 2 ^ w = 2 * 2 ^ (w - 1) := by
      rw [← pow_succ', Nat.sub_add_cancel (by omega)]
    omega
  have hround := hnat.round hx hm hD
  rw [← toNat_divStep (by omega) hR] at hround
  exact ⟨hround.rem, hround.quot⟩

theorem absVal_pos {isSigned : Bool} {y : BitVec w} (hy : y ≠ 0) :
    0 < (absVal isSigned y).toNat := by
  have hne : absVal isSigned y ≠ 0 := by
    unfold absVal
    split_ifs
    · simpa using hy
    · exact hy
  rw [Nat.pos_iff_ne_zero]
  exact fun h ↦ hne (BitVec.eq_of_toNat_eq (by simpa using h))

theorem iterate_divided (isSigned : Bool) (x : BitVec w) {y : BitVec w} (hy : y ≠ 0) {j : ℕ}
    (hj : j ≤ w) :
    Divided (absVal isSigned x).toNat (absVal isSigned y).toNat (w - j)
      (iterate isSigned x y j) := by
  induction j with
  | zero =>
    have hlt := (absVal isSigned x).isLt
    constructor
    · simp [iterate, Nat.div_eq_of_lt hlt]
    · simp [iterate, Nat.div_eq_of_lt hlt, Nat.mod_eq_of_lt hlt]
  | succ j ih =>
    have hprev := ih (Nat.le_of_succ_le hj)
    rw [show w - j = w - (j + 1) + 1 by omega] at hprev
    rw [iterate, Function.iterate_succ_apply']
    exact divStep_divided (absVal isSigned x).isLt (by omega) (absVal_pos hy) hprev

/-- The whole iteration divides the absolute values. -/
theorem iterate_eq (hw : 0 < w) (isSigned : Bool) (x : BitVec w) {y : BitVec w} (hy : y ≠ 0) :
    iterate isSigned x y (w - 1 + 1) =
      (absVal isSigned x % absVal isSigned y, absVal isSigned x / absVal isSigned y) := by
  rw [Nat.sub_add_cancel hw]
  obtain ⟨hrem, hquot⟩ := iterate_divided isSigned x hy le_rfl
  rw [Nat.sub_self] at hrem hquot
  refine Prod.ext (BitVec.eq_of_toNat_eq ?_) (BitVec.eq_of_toNat_eq ?_)
  · simpa using hrem
  · simpa [Nat.mod_one] using hquot

/-! ## Quotient and remainder -/

theorem divide_unsigned (hw : 0 < w) (x : BitVec w) {y : BitVec w} (hy : y ≠ 0) :
    divide false x y = (x / y, x % y) := by
  rw [divide, if_neg hy, Bool.false_and, Bool.false_and, if_neg Bool.false_ne_true,
    iterate_eq hw false x hy]
  simp [absVal]

theorem divide_signed (hw : 0 < w) (x : BitVec w) {y : BitVec w} (hy : y ≠ 0) :
    divide true x y = (x.sdiv y, x.srem y) := by
  rw [divide, if_neg hy]
  by_cases hover : (true && x == BitVec.twoPow w (w - 1) && y == BitVec.allOnes w) = true
  · -- the one quotient that does not fit: dividend and quotient are the least number
    obtain ⟨hx, hy⟩ : x = BitVec.intMin w ∧ y = BitVec.allOnes w := by simpa [BitVec.intMin] using hover
    have hneg : -BitVec.allOnes w = 1#w := by rw [← BitVec.neg_one_eq_allOnes, BitVec.neg_neg]
    rw [if_pos hover, hx, hy]
    simp [BitVec.sdiv, BitVec.srem, BitVec.msb_intMin, BitVec.msb_allOnes hw, hw, hneg]
  · rw [if_neg hover, iterate_eq hw true x hy]
    unfold BitVec.sdiv BitVec.srem
    cases hx : x.msb <;> cases hy : y.msb <;> simp [absVal, hx, hy]

end Divider

end RvPipeline
