import RvPipeline.Fp.AddMul
import RvPipeline.Seq.Handshake

/-!
# Division and square root

The 51 rounds of `FDivider.v` and the 26 rounds of `FSqrt.v`, and how the remainder decides the
rounding of the exact quotient and of the root.
-/

namespace RvPipeline

open Rounding

namespace Fp

open IssFloat

/-! ## `FDivider.v` -/

namespace FDivider

theorem toNat_divStep {D : BitVec 24} {p : BitVec 25 × BitVec quotientWidth}
    (hR : p.1.toNat < D.toNat) :
    ((divStep D p).1.toNat, (divStep D p).2.toNat) =
      Digits.divRound 51 D.toNat (p.1.toNat, p.2.toNat) := by
  have hD := D.isLt
  have hshift : (p.1 <<< 1 ||| (p.2 >>> 50).setWidth 25).toNat =
      2 * p.1.toNat + p.2.toNat / 2 ^ 50 := toNat_shiftIn p.1 p.2 (by decide) (by omega)
  have hwide : (D.setWidth 25).toNat = D.toNat := BitVec.toNat_setWidth_of_le (by decide)
  unfold divStep Digits.divRound
  dsimp only
  rw [show 51 - 1 = 50 from rfl, ← hshift]
  by_cases hsub : D.setWidth 25 ≤ p.1 <<< 1 ||| (p.2 >>> 50).setWidth 25
  · have hle := BitVec.le_def.1 hsub
    rw [hwide] at hle
    rw [if_pos hsub, if_pos hle, BitVec.toNat_sub_of_le hsub, hwide,
      toNat_shiftLeft_or_one p.2 (by decide)]
  · have hle : ¬D.toNat ≤ (p.1 <<< 1 ||| (p.2 >>> 50).setWidth 25).toNat := by
      rw [← hwide]
      exact fun h ↦ hsub (BitVec.le_def.2 h)
    rw [if_neg hsub, if_neg hle, toNat_shiftLeft_one]

theorem iterate_divided (a b : BitVec 32) {j : ℕ} (hj : j ≤ 51) :
    Digits.Divided 51 ((mant a).toNat * 2 ^ 27) (mant b).toNat (51 - j)
      ((iterate a b j).1.toNat, (iterate a b j).2.toNat) := by
  have hx : (mant a).toNat * 2 ^ 27 < 2 ^ 51 := by
    have ha := (mant_bounds a).2
    omega
  have hpos : 0 < (mant b).toNat := by
    have hb := (mant_bounds b).1
    omega
  induction j with
  | zero =>
    have hQ : (iterate a b 0).2.toNat = (mant a).toNat * 2 ^ 27 := toNat_append_zero (mant a)
    rw [hQ]
    exact Digits.Divided.start hx
  | succ j ih =>
    have hprev := ih (by omega)
    rw [show 51 - j = 51 - (j + 1) + 1 by omega] at hprev
    have hR : (iterate a b j).1.toNat < (mant b).toNat := by
      have hrem := hprev.rem
      dsimp only at hrem
      rw [hrem]
      exact Nat.mod_lt _ hpos
    have hround := hprev.round hx (by omega) hpos
    rw [← toNat_divStep hR] at hround
    rw [iterate, Function.iterate_succ_apply']
    exact hround

/-- The quotient register and the remainder after the last round. -/
theorem iterate_last (a b : BitVec 32) :
    (iterate a b 51).1.toNat = (mant a).toNat * 2 ^ 27 % (mant b).toNat ∧
      (iterate a b 51).2.toNat = (mant a).toNat * 2 ^ 27 / (mant b).toNat := by
  obtain ⟨hrem, hquot⟩ := iterate_divided a b le_rfl
  constructor
  · simpa using hrem
  · simpa [Nat.mod_one] using hquot

/-- The quotient with the remainder in one more bit. -/
theorem oddApprox_quotient {x d : ℕ} (hd : 0 < d) :
    OddApprox (2 * ((x : ℚ) / d)) (2 * (x / d) + if decide (x % d ≠ 0) then 1 else 0) := by
  have hd' : (0 : ℚ) < d := by exact_mod_cast hd
  have hx : (x : ℚ) = d * (x / d : ℕ) + (x % d : ℕ) := by
    exact_mod_cast (Nat.div_add_mod x d).symm
  have hr : ((x % d : ℕ) : ℚ) < d := by exact_mod_cast Nat.mod_lt x hd
  have hr0 : (0 : ℚ) ≤ (x % d : ℕ) := Nat.cast_nonneg _
  refine OddApprox.of_floor ?_ ?_ ?_
  · rw [le_div_iff₀ hd']
    linarith
  · rw [div_lt_iff₀ hd']
    linarith
  · rw [decide_eq_false_iff_not, not_not, div_eq_iff hd'.ne']
    constructor
    · intro h0
      rw [h0, Nat.cast_zero] at hx
      linarith
    · intro h
      have h0 : ((x % d : ℕ) : ℚ) = 0 := by linarith
      exact_mod_cast h0

theorem quotient_mag (a b : BitVec 32) :
    2 * (((mant a).toNat * 2 ^ 27 : ℕ) / ((mant b).toNat : ℚ)) * 2 ^ (expU a - expU b - 28) =
      mag a / mag b := by
  have hb : ((mant b).toNat : ℚ) ≠ 0 := by
    have := (mant_bounds b).1
    exact_mod_cast (by omega : (mant b).toNat ≠ 0)
  have hpow : (2 : ℚ) ^ (expU a - expU b - 28) * 2 ^ 28 * 2 ^ (expU b - 23) = 2 ^ (expU a - 23) := by
    rw [← zpow_natCast, ← zpow_add₀ two_ne_zero, ← zpow_add₀ two_ne_zero]
    congr 1
    push_cast
    ring
  rw [mag, mag, ← hpow]
  have hb2 : (2 : ℚ) ^ (expU b - 23) ≠ 0 := by positivity
  push_cast
  field_simp
  ring

/-- A number of `c + 25` bits with a last bit, rounded to its leading 24. -/
theorem round_floor {N c q : ℕ} {Q : BitVec N} {x : ℚ} {sgn r st rest : Bool} {rm : BitVec 3} {e : ℤ}
    (hQ : Q.toNat = q) (h : OddApprox x (2 * q + if rest then 1 else 0)) (hlow : 2 ^ (c + 24) ≤ q)
    (hhigh : q < 2 ^ (c + 25)) (hrest : (r || st) = (decide (q % 2 ^ c ≠ 0) || rest)) :
    roundAndPack sgn e (0#1 ++ Q.extractLsb' (c + 1) 24) (Q.getLsbD c) r st rm =
      roundExact sgn (x * 2 ^ (e - (c + 25 : ℕ))) rm := by
  have hbit : (if rest then 1 else 0) < 2 := by split_ifs <;> omega
  refine roundAndPack_odd h ?_ ?_ ?_ ?_
  · rw [show c + 25 = c + 24 + 1 by omega, pow_succ]
    omega
  · have hlt : q / 2 ^ (c + 1) < 2 ^ 24 := by
      rw [Nat.div_lt_iff_lt_mul (Nat.two_pow_pos _), ← pow_add, show 24 + (c + 1) = c + 25 by omega]
      exact hhigh
    rw [BitVec.toNat_append, BitVec.toNat_ofNat, Nat.zero_mod, Nat.zero_shiftLeft, Nat.zero_or,
      BitVec.extractLsb'_toNat, Nat.shiftRight_eq_div_pow, hQ, Nat.mod_eq_of_lt hlt, pow_succ' 2 (c + 1),
      ← Nat.div_div_eq_div_mul, Nat.mul_add_div Nat.two_pos, Nat.div_eq_of_lt hbit, add_zero]
  · rw [BitVec.getLsbD, hQ, Nat.testBit_succ, Nat.mul_add_div Nat.two_pos, Nat.div_eq_of_lt hbit,
      add_zero]
  · have hmod : (2 * q + if rest then 1 else 0) % 2 ^ (c + 1) =
        2 * (q % 2 ^ c) + if rest then 1 else 0 := by
      rw [pow_succ', Nat.mod_mul, Nat.mul_add_mod, Nat.mod_eq_of_lt hbit, Nat.mul_add_div Nat.two_pos,
        Nat.div_eq_of_lt hbit, add_zero, add_comm]
    rw [hrest, hmod]
    cases rest with
    | true => simp
    | false => simp

theorem bits_three {N : ℕ} (Q : BitVec N) :
    (Q.getLsbD 2 || (Q.getLsbD 1 || Q.getLsbD 0)) = decide (Q.toNat % 2 ^ 3 ≠ 0) := by
  rw [bits_two, BitVec.getLsbD, Nat.testBit_eq_decide_div_mod_eq, ← Bool.decide_or,
    decide_eq_decide]
  omega

theorem finish_eq (s : Bool) (rm : BitVec 3) (a b : BitVec 32) :
    finish s (expU a - expU b) (iterate a b 51) rm = roundExact s (mag a / mag b) rm := by
  obtain ⟨hR, hQ⟩ := iterate_last a b
  obtain ⟨hal, hah⟩ := mant_bounds a
  obtain ⟨hbl, hbh⟩ := mant_bounds b
  have hodd := oddApprox_quotient (x := (mant a).toNat * 2 ^ 27) (d := (mant b).toNat) (by omega)
  set q := (mant a).toNat * 2 ^ 27 / (mant b).toNat with hq
  have hq26 : 2 ^ 26 ≤ q := by
    rw [hq, Nat.le_div_iff_mul_le (by omega)]
    omega
  have hq28 : q < 2 ^ 28 := by
    rw [hq, Nat.div_lt_iff_lt_mul (by omega)]
    omega
  have hst : ((iterate a b 51).1 != 0) = decide ((mant a).toNat * 2 ^ 27 % (mant b).toNat ≠ 0) := by
    rw [← hR, bne, Bool.eq_iff_iff, Bool.not_eq_true', beq_eq_false_iff_ne, decide_eq_true_iff]
    exact not_congr ⟨fun h ↦ by rw [h]; rfl, fun h ↦ BitVec.eq_of_toNat_eq h⟩
  have htop := getLsbD_top 27 (v := (iterate a b 51).2) (by omega)
  rw [hQ] at htop
  rw [← quotient_mag]
  unfold finish
  dsimp only
  split_ifs with h27
  · refine round_floor (c := 3) hQ hodd (htop.1 h27) hq28 ?_
    rw [hst, ← hQ, ← bits_three]
    simp only [Bool.or_assoc]
  · have hlt : q < 2 ^ 27 := not_le.1 fun h ↦ h27 (htop.2 h)
    have hexp : expU a - expU b - 28 = expU a - expU b - 1 - (2 + 25 : ℕ) := by
      push_cast
      ring
    rw [hexp]
    refine round_floor (c := 2) hQ hodd hq26 hlt ?_
    rw [hst, ← hQ, ← bits_two, Bool.or_assoc]

theorem fDiv_eq (rm : BitVec 3) (a b : BitVec 32) :
    fDiv a b rm = (special a b).getD
      (f32RoundFromFraction (sign a ^^ sign b) (mag a / mag b) rm) := by
  unfold fDiv special
  simp only [decode_isNan, decode_isSnan, decode_isInf, decode_isZero, decode_sign, flagNv_eq,
    infinity_eq, zero_eq, canonicalNan_eq]
  split_ifs with hnan hinf2 hzero2 hia hib hzb hza
  any_goals rfl
  rw [Bool.or_eq_true, not_or, Bool.not_eq_true, Bool.not_eq_true] at hnan
  have ha : Normal a := ⟨hnan.1, by simpa using hia, by simpa using hza⟩
  have hb : Normal b := ⟨hnan.2, by simpa using hib, by simpa using hzb⟩
  rw [ha.magnitude, hb.magnitude]
  rfl

theorem divide_eq (rm : BitVec 3) (a b : BitVec 32) :
    divide rm a b = (special a b).getD (roundExact (sign a ^^ sign b) (mag a / mag b) rm) := by
  unfold divide
  cases special a b with
  | some r => rfl
  | none => exact finish_eq _ rm a b

theorem divide_result (rm : BitVec 3) (a b : BitVec 32) :
    (divide rm a b).result = (fDiv a b rm).result := by
  rw [divide_eq, fDiv_eq]
  cases special a b with
  | some r => rfl
  | none => exact roundExact_result _ _ rm

end FDivider

/-! ## `FSqrt.v` -/

namespace FSqrt

theorem toNat_rootStep {p : BitVec 52 × BitVec 28 × BitVec 26} (hR : p.2.1.toNat ≤ 2 * p.2.2.toNat)
    (hq : p.2.2.toNat < 2 ^ 25) :
    ((rootStep p).1.toNat, (rootStep p).2.1.toNat, (rootStep p).2.2.toNat) =
      Digits.rootRound 26 (p.1.toNat, p.2.1.toNat, p.2.2.toNat) := by
  have hbit : p.1.toNat / 2 ^ 50 < 4 := by
    have hlt := p.1.isLt
    omega
  have hshift : (p.2.1 <<< 2 ||| (p.1 >>> 50).setWidth 28).toNat =
      4 * p.2.1.toNat + p.1.toNat / 2 ^ 50 := by
    have hor : 4 * p.2.1.toNat ||| p.1.toNat / 2 ^ 50 = 4 * p.2.1.toNat + p.1.toNat / 2 ^ 50 := by
      have h := Nat.two_pow_add_eq_or_of_lt (i := 2) (by simpa using hbit) p.2.1.toNat
      simpa using h.symm
    rw [BitVec.toNat_or, BitVec.toNat_shiftLeft, BitVec.toNat_setWidth, BitVec.toNat_ushiftRight,
      Nat.shiftRight_eq_div_pow, Nat.shiftLeft_eq, Nat.mod_eq_of_lt (by omega),
      Nat.mod_eq_of_lt (by omega), mul_comm, ← hor]
  have htrial : (p.2.2 ++ 0b01#2 : BitVec 28).toNat = 4 * p.2.2.toNat + 1 := by
    rw [BitVec.toNat_append, ← Nat.shiftLeft_add_eq_or_of_lt (by decide), Nat.shiftLeft_eq, mul_comm]
    rfl
  have hrad : (p.1 <<< 2).toNat = 4 * p.1.toNat % 4 ^ 26 := by
    rw [BitVec.toNat_shiftLeft, Nat.shiftLeft_eq, mul_comm]
    rfl
  have hroot : 2 * p.2.2.toNat % 2 ^ 26 = 2 * p.2.2.toNat := Nat.mod_eq_of_lt (by omega)
  unfold rootStep Digits.rootRound
  dsimp only
  rw [show 4 ^ (26 - 1) = 2 ^ 50 from rfl, ← hshift, ← htrial, ← hrad]
  by_cases hle : (p.2.2 ++ 0b01#2 : BitVec 28) ≤ p.2.1 <<< 2 ||| (p.1 >>> 50).setWidth 28
  · rw [if_pos hle, if_pos (BitVec.le_def.1 hle), BitVec.toNat_sub_of_le hle,
      toNat_shiftLeft_or_one p.2.2 (by decide), hroot]
  · rw [if_neg hle, if_neg fun h ↦ hle (BitVec.le_def.2 h), toNat_shiftLeft_one, hroot]

theorem iterate_rooted (a : BitVec 32) {j : ℕ} (hj : j ≤ 26) :
    Digits.Rooted 26 (radicand a).toNat (26 - j)
      ((iterate a j).1.toNat, (iterate a j).2.1.toNat, (iterate a j).2.2.toNat) := by
  have hx : (radicand a).toNat < 4 ^ 26 := (radicand a).isLt
  induction j with
  | zero => exact Digits.Rooted.start hx
  | succ j ih =>
    have hprev := ih (by omega)
    rw [show 26 - j = 26 - (j + 1) + 1 by omega] at hprev
    have hq : (iterate a j).2.2.toNat < 2 ^ 25 := by
      have hlt := hprev.root_lt hx (by omega)
      have hle : 2 ^ (26 - (26 - (j + 1) + 1)) ≤ 2 ^ 25 := Nat.pow_le_pow_right Nat.two_pos (by omega)
      exact lt_of_lt_of_le hlt hle
    have hround := hprev.round (by omega)
    rw [← toNat_rootStep hprev.rem_le hq] at hround
    rw [iterate, Function.iterate_succ_apply']
    exact hround

/-- The root and the remainder after the last round. -/
theorem iterate_last (a : BitVec 32) :
    (iterate a 26).2.2.toNat = (radicand a).toNat.sqrt ∧
      (iterate a 26).2.1.toNat =
        (radicand a).toNat - (radicand a).toNat.sqrt * (radicand a).toNat.sqrt := by
  obtain ⟨-, hroot, hrem⟩ := iterate_rooted a le_rfl
  have hq : (iterate a 26).2.2.toNat = (radicand a).toNat.sqrt := by simpa using hroot
  refine ⟨hq, ?_⟩
  rw [← hq]
  simpa using hrem

theorem toNat_radicand (a : BitVec 32) :
    (radicand a).toNat = (mant a).toNat * if expU a % 2 = 0 then 2 ^ 27 else 2 ^ 28 := by
  unfold radicand
  split_ifs
  · rw [toNat_append_zero, toNat_append_zero, BitVec.toNat_append, BitVec.toNat_ofNat, Nat.zero_mod,
      Nat.zero_shiftLeft, Nat.zero_or, mul_assoc]
    rfl
  · rw [toNat_append_zero, toNat_append_zero, mul_assoc]
    rfl

theorem two_mul_rootExp (a : BitVec 32) :
    2 * rootExp a = if expU a % 2 = 0 then expU a else expU a - 1 := by
  unfold rootExp
  split_ifs with h
  · exact Int.mul_tdiv_cancel' (by omega)
  · exact Int.mul_tdiv_cancel' (by omega)

theorem radicand_mag (a : BitVec 32) :
    ((radicand a).toNat : ℚ) * 2 ^ (2 * rootExp a - 50) = mag a := by
  have hpow : ∀ (n : ℕ) (e : ℤ), ((2 ^ n : ℕ) : ℚ) * 2 ^ e = 2 ^ (n + e) := by
    intro n e
    rw [zpow_add₀ two_ne_zero, zpow_natCast, Nat.cast_pow, Nat.cast_ofNat]
  rw [toNat_radicand, two_mul_rootExp, mag, Nat.cast_mul, mul_assoc]
  congr 1
  split_ifs
  · rw [hpow]
    congr 1
    push_cast
    ring
  · rw [hpow]
    congr 1
    push_cast
    ring

theorem sqrt_div_sixteen {n q : ℕ} (hq : q = (16 * n).sqrt) : n.sqrt = q / 4 := by
  have hle := Nat.sqrt_le (16 * n)
  have hlt := Nat.lt_succ_sqrt (16 * n)
  rw [← hq] at hle hlt
  symm
  rw [Nat.eq_sqrt]
  have hdiv : 4 * (q / 4) ≤ q := Nat.mul_div_le q 4
  have hdiv' : q + 1 ≤ 4 * (q / 4 + 1) := by omega
  constructor
  · have h := Nat.mul_le_mul hdiv hdiv
    nlinarith
  · have h := Nat.mul_le_mul hdiv' hdiv'
    rw [Nat.succ_eq_add_one] at hlt
    nlinarith

/-- Two more digits of the root decide how to round it. -/
theorem clsOf_root {n q : ℕ} (hq : q = (16 * n).sqrt) :
    clsOf (q.testBit 1) (q.testBit 0 || decide (16 * n - q * q ≠ 0)) =
      if n.sqrt * n.sqrt = n then .exact
      else if 4 * n < (2 * n.sqrt + 1) ^ 2 then .below
      else if 4 * n > (2 * n.sqrt + 1) ^ 2 then .above
      else .tie := by
  have hle := Nat.sqrt_le (16 * n)
  rw [← hq] at hle
  rw [sqrt_div_sixteen hq]
  set s := q / 4 with hs
  -- the middle is `4 * s + 2` in units of the last digit
  have hmid : 4 * n < (2 * s + 1) ^ 2 ↔ q < 4 * s + 2 := by
    rw [hq, Nat.sqrt_lt]
    constructor
    · intro h
      nlinarith
    · intro h
      nlinarith
  have hbit1 : q.testBit 1 = decide (4 * s + 2 ≤ q) := by
    rw [Nat.testBit_eq_decide_div_mod_eq, decide_eq_decide]
    omega
  have hbit0 : q.testBit 0 = decide (q % 2 = 1) := by
    rw [Nat.testBit_eq_decide_div_mod_eq, pow_zero, Nat.div_one]
  rw [hbit1, hbit0, ← Bool.decide_or]
  by_cases hlow : q < 4 * s + 2
  · rw [if_pos (hmid.2 hlow), decide_eq_false (by omega)]
    by_cases hrest : q % 2 = 1 ∨ 16 * n - q * q ≠ 0
    · rw [decide_eq_true hrest, if_neg]
      · rfl
      · intro hexact
        have hroot : q = 4 * s := by
          rw [hq, ← hexact, show 16 * (s * s) = 4 * s * (4 * s) by ring, Nat.sqrt_eq]
        rw [hroot, ← hexact] at hrest
        rcases hrest with hodd | hne
        · omega
        · exact hne (by rw [show 16 * (s * s) = 4 * s * (4 * s) by ring, Nat.sub_self])
    · rw [decide_eq_false hrest, if_pos]
      · rfl
      · have hq4 : q = 4 * s := by omega
        rw [not_or, not_not] at hrest
        rw [hq4] at hle hrest
        have heq : 16 * n = 4 * s * (4 * s) := by omega
        nlinarith
  · rw [if_neg (fun h ↦ hlow (hmid.1 h)), decide_eq_true (by omega), if_neg]
    · by_cases hrest : q % 2 = 1 ∨ 16 * n - q * q ≠ 0
      · rw [decide_eq_true hrest, if_pos]
        · rfl
        · rcases hrest with hodd | hne
          · have hq3 : q = 4 * s + 3 := by omega
            rw [hq3] at hle
            nlinarith
          · have hlt : q * q < 16 * n := by omega
            have hsq : (4 * s + 2) * (4 * s + 2) ≤ q * q := Nat.mul_le_mul (by omega) (by omega)
            nlinarith
      · rw [decide_eq_false hrest, if_neg]
        · rfl
        · rw [not_or, not_not] at hrest
          have hq2 : q = 4 * s + 2 := by omega
          have heq : 16 * n = q * q := by omega
          rw [hq2] at heq
          nlinarith
    · intro hexact
      apply hlow
      rw [hq, Nat.sqrt_lt, ← hexact]
      nlinarith

/-- Rounding of a root, with an argument of 52 bits. -/
theorem f32SqrtNormalize_eq {x k : ℕ} {e : ℤ} (hx : x = 16 * k) (hlow : 2 ^ 50 ≤ x)
    (hhigh : x < 2 ^ 52) :
    f32SqrtNormalize ((x : ℚ) * 2 ^ (2 * e - 50)) =
      some (e, x.sqrt / 4, clsOf (x.sqrt.testBit 1)
        (x.sqrt.testBit 0 || decide (x - x.sqrt * x.sqrt ≠ 0))) := by
  have hpow : ∀ n : ℕ, (2 : ℚ) ^ (2 * e - 50 + n) = (2 ^ n : ℕ) * 2 ^ (2 * e - 50) := by
    intro n
    rw [zpow_add₀ two_ne_zero, zpow_natCast, mul_comm, Nat.cast_pow, Nat.cast_ofNat]
  have hle : (2 : ℚ) ^ (2 * e) ≤ x * 2 ^ (2 * e - 50) := by
    have h50 := hpow 50
    rw [show 2 * e - 50 + (50 : ℕ) = 2 * e by push_cast; ring] at h50
    rw [h50]
    exact mul_le_mul_of_nonneg_right (by exact_mod_cast hlow) (by positivity)
  have hlt : (x : ℚ) * 2 ^ (2 * e - 50) < 2 ^ (2 * (e + 1)) := by
    have h52 := hpow 52
    rw [show 2 * e - 50 + (52 : ℕ) = 2 * (e + 1) by push_cast; ring] at h52
    rw [h52]
    exact mul_lt_mul_of_pos_right (by exact_mod_cast hhigh) (by positivity)
  have hscaled : (x : ℚ) * 2 ^ (2 * e - 50) * 2 ^ (2 * (23 - e)) = (k : ℕ) := by
    rw [mul_assoc, ← zpow_add₀ two_ne_zero, show 2 * e - 50 + 2 * (23 - e) = -4 by ring, hx]
    push_cast
    norm_num
    ring
  have hroot := sqrt_div_sixteen (n := k) (q := x.sqrt) (by rw [hx])
  have hcls := clsOf_root (n := k) (q := x.sqrt) (by rw [hx])
  rw [← hx] at hcls
  simp only [f32SqrtNormalize, searchExp_eq (.inr rfl) hle hlt, hscaled, Rat.den_natCast,
    Rat.num_natCast, Int.toNat_natCast, ne_eq, not_true_eq_false, if_false]
  rw [← hcls, hroot]

theorem radicand_bounds (a : BitVec 32) :
    2 ^ 50 ≤ (radicand a).toNat ∧ (radicand a).toNat < 2 ^ 52 := by
  have hm := mant_bounds a
  refine ⟨?_, (radicand a).isLt⟩
  rw [toNat_radicand]
  split_ifs <;> omega

theorem rootExp_ge (a : BitVec 32) : -126 ≤ rootExp a := by
  have h : -127 ≤ expU a := by
    unfold expU
    omega
  have h2 := two_mul_rootExp a
  split_ifs at h2 <;> omega

/-- The reference rounds the root to what the unit returns. -/
theorem f32RoundFromSqrt_eq (rm : BitVec 3) (a : BitVec 32) :
    f32RoundFromSqrt false (mag a) rm = some (finish (rootExp a) (iterate a 26) rm) := by
  obtain ⟨hq, hR⟩ := iterate_last a
  obtain ⟨hlow, hhigh⟩ := radicand_bounds a
  obtain ⟨k, hk⟩ : ∃ k, (radicand a).toNat = 16 * k := by
    rw [toNat_radicand]
    split_ifs
    · exact ⟨(mant a).toNat * 2 ^ 23, by ring⟩
    · exact ⟨(mant a).toNat * 2 ^ 24, by ring⟩
  have hst : ((iterate a 26).2.1 != 0) =
      decide ((radicand a).toNat - (radicand a).toNat.sqrt * (radicand a).toNat.sqrt ≠ 0) := by
    rw [← hR, bne, Bool.eq_iff_iff, Bool.not_eq_true', beq_eq_false_iff_ne, decide_eq_true_iff]
    exact not_congr ⟨fun h ↦ by rw [h]; rfl, fun h ↦ BitVec.eq_of_toNat_eq h⟩
  have hsig : (0#1 ++ (iterate a 26).2.2.extractLsb' 2 24 : BitVec 25).toNat =
      (radicand a).toNat.sqrt / 4 := by
    have hlt := (iterate a 26).2.2.isLt
    rw [hq] at hlt
    rw [BitVec.toNat_append, BitVec.toNat_ofNat, Nat.zero_mod, Nat.zero_shiftLeft, Nat.zero_or,
      BitVec.extractLsb'_toNat, Nat.shiftRight_eq_div_pow, hq, Nat.mod_eq_of_lt (by omega)]
  have hroot : 2 ^ 25 ≤ (radicand a).toNat.sqrt ∧ (radicand a).toNat.sqrt < 2 ^ 26 := by
    rw [Nat.le_sqrt, Nat.sqrt_lt]
    exact ⟨hlow, hhigh⟩
  have hnormal : roundAndPack false (rootExp a) (0#1 ++ (iterate a 26).2.2.extractLsb' 2 24)
      ((iterate a 26).2.2.getLsbD 1) ((iterate a 26).2.2.getLsbD 0) ((iterate a 26).2.1 != 0) rm = _ :=
    roundAndPack_of_normal (by omega) (by omega)
  unfold f32RoundFromSqrt finish
  rw [hnormal, ← radicand_mag, f32SqrtNormalize_eq hk hlow hhigh, hsig, hst, BitVec.getLsbD,
    BitVec.getLsbD, hq, packRounded, if_neg fun h ↦ absurd h.2 (not_lt.2 (rootExp_ge a))]
  rfl

theorem fSqrt_eq (rm : BitVec 3) (a : BitVec 32) : fSqrt a rm = some (root rm a) := by
  unfold fSqrt root special
  simp only [decode_isNan, decode_isSnan, decode_isInf, decode_isZero, decode_sign, flagNv_eq,
    canonicalNan_eq]
  split_ifs with hnan hz hs hinf
  any_goals rfl
  have ha : Normal a := ⟨by simpa using hnan, by simpa using hinf, by simpa using hz⟩
  rw [ha.magnitude]
  exact f32RoundFromSqrt_eq rm a

end FSqrt

/-! ## One request -/

namespace FDivider

/-- The ports of `FDivider.v` in one cycle. -/
structure In where
  start : Bool
  rm : BitVec 3
  a : BitVec 32
  b : BitVec 32

/-- The unit out of reset, from idle. -/
def clocked : Clocked FDivider In where
  Init d := d.busy = false ∧ d.done = false
  step d i := d.step i.start i.rm i.a i.b

theorem step_of_busy {d : FDivider} (h : d.busy = true) (start : Bool) (rm : BitVec 3)
    (a b a' b' : BitVec 32) : d.step start rm a b = d.step true rm a' b' := by
  unfold FDivider.step
  simp [h]

/-- The rounding mode counts only for the answer. -/
theorem Tracks.of_pending {rm rm' : BitVec 3} {a b : BitVec 32} {d : FDivider}
    (h : Tracks rm a b d) (hd : d.done = false) : Tracks rm' a b d :=
  ⟨h.busy, fun hdone ↦ by simp [hd] at hdone⟩

section Request

variable {d : FDivider} {ins : ℕ → In}

theorem clocked_unitStep (d : FDivider) (ins : ℕ → In) (k : ℕ) :
    UnitStep (ins k).start (clocked.run d ins k).busy (clocked.run d ins k).done
      (clocked.run d ins (k + 1)).busy (clocked.run d ins (k + 1)).done
      (clocked.run d ins k).count (clocked.run d ins (k + 1)).count 50#6 :=
  unitStep _ _ _ _ _

theorem tracks_of_pending (h₀ : clocked.Init d)
    (hheld : HeldUntilDone (fun k ↦ (ins k).start) fun k ↦ (clocked.run d ins k).done) {n : ℕ}
    (hpos : 0 < n) (hn : ∀ k < n, (clocked.run d ins k).done = false) :
    Tracks (ins (n - 1)).rm (ins 0).a (ins 0).b (clocked.run d ins n) := by
  refine pending_invariant (clocked_unitStep d ins) hheld (P := fun n ↦ Tracks (ins (n - 1)).rm
    (ins 0).a (ins 0).b (clocked.run d ins n)) ?_ ?_ hpos hn
  · have hstart : (ins 0).start = true := start_first hheld h₀.2
    have hrun : clocked.run d ins 1 = d.step (ins 0).start (ins 0).rm (ins 0).a (ins 0).b := rfl
    rw [hrun, hstart]
    exact (tracks_of_idle h₀.1 h₀.2).step fun _ _ ↦ ⟨rfl, rfl⟩
  · intro k hbusy hdone hk
    have hrun : clocked.run d ins (k + 1) =
      (clocked.run d ins k).step (ins k).start (ins k).rm (ins k).a (ins k).b := rfl
    rw [hrun, step_of_busy hbusy _ _ _ _ (ins 0).a (ins 0).b]
    exact (hk.of_pending hdone).step fun _ _ ↦ ⟨rfl, rfl⟩

/-- Spec of one request; the rounding mode is that of the cycle before the answer. -/
theorem exists_answered_divide (h₀ : clocked.Init d)
    (hheld : HeldUntilDone (fun k ↦ (ins k).start) fun k ↦ (clocked.run d ins k).done) :
    ∃ n, Answered (fun k ↦ (ins k).start) (fun k ↦ (clocked.run d ins k).busy)
        (fun k ↦ (clocked.run d ins k).done) n ∧
      (clocked.run d ins n).out = divide (ins (n - 1)).rm (ins 0).a (ins 0).b := by
  obtain ⟨n, hn⟩ := exists_answered (clocked_unitStep d ins) hheld h₀.2
  exact ⟨n, hn, (tracks_of_pending h₀ hheld (hn.pos h₀.2) hn.pending).done hn.answered⟩

end Request

end FDivider

namespace FSqrt

/-- The ports of `FSqrt.v` in one cycle. -/
structure In where
  start : Bool
  rm : BitVec 3
  a : BitVec 32

/-- The unit out of reset, from idle. -/
def clocked : Clocked FSqrt In where
  Init d := d.busy = false ∧ d.done = false
  step d i := d.step i.start i.rm i.a

theorem step_of_busy {d : FSqrt} (h : d.busy = true) (start : Bool) (rm : BitVec 3)
    (a a' : BitVec 32) : d.step start rm a = d.step true rm a' := by
  unfold FSqrt.step
  simp [h]

theorem Tracks.of_pending {rm rm' : BitVec 3} {a : BitVec 32} {d : FSqrt} (h : Tracks rm a d)
    (hd : d.done = false) : Tracks rm' a d :=
  ⟨h.busy, fun hdone ↦ by simp [hd] at hdone⟩

section Request

variable {d : FSqrt} {ins : ℕ → In}

theorem clocked_unitStep (d : FSqrt) (ins : ℕ → In) (k : ℕ) :
    UnitStep (ins k).start (clocked.run d ins k).busy (clocked.run d ins k).done
      (clocked.run d ins (k + 1)).busy (clocked.run d ins (k + 1)).done
      (clocked.run d ins k).count (clocked.run d ins (k + 1)).count 25#5 :=
  unitStep _ _ _ _

theorem tracks_of_pending (h₀ : clocked.Init d)
    (hheld : HeldUntilDone (fun k ↦ (ins k).start) fun k ↦ (clocked.run d ins k).done) {n : ℕ}
    (hpos : 0 < n) (hn : ∀ k < n, (clocked.run d ins k).done = false) :
    Tracks (ins (n - 1)).rm (ins 0).a (clocked.run d ins n) := by
  refine pending_invariant (clocked_unitStep d ins) hheld (P := fun n ↦ Tracks (ins (n - 1)).rm
    (ins 0).a (clocked.run d ins n)) ?_ ?_ hpos hn
  · have hstart : (ins 0).start = true := start_first hheld h₀.2
    have hrun : clocked.run d ins 1 = d.step (ins 0).start (ins 0).rm (ins 0).a := rfl
    rw [hrun, hstart]
    exact (tracks_of_idle h₀.1 h₀.2).step fun _ _ ↦ rfl
  · intro k hbusy hdone hk
    have hrun : clocked.run d ins (k + 1) =
      (clocked.run d ins k).step (ins k).start (ins k).rm (ins k).a := rfl
    rw [hrun, step_of_busy hbusy _ _ _ (ins 0).a]
    exact (hk.of_pending hdone).step fun _ _ ↦ rfl

theorem exists_answered_root (h₀ : clocked.Init d)
    (hheld : HeldUntilDone (fun k ↦ (ins k).start) fun k ↦ (clocked.run d ins k).done) :
    ∃ n, Answered (fun k ↦ (ins k).start) (fun k ↦ (clocked.run d ins k).busy)
        (fun k ↦ (clocked.run d ins k).done) n ∧
      (clocked.run d ins n).out = root (ins (n - 1)).rm (ins 0).a := by
  obtain ⟨n, hn⟩ := exists_answered (clocked_unitStep d ins) hheld h₀.2
  exact ⟨n, hn, (tracks_of_pending h₀ hheld (hn.pos h₀.2) hn.pending).done hn.answered⟩

end Request

end FSqrt

/-- Both units answer a request once, with the result of the reference. -/
theorem division_root {d : FDivider} {i : ℕ → FDivider.In} {r : FSqrt} {j : ℕ → FSqrt.In}
    (hd : FDivider.clocked.Init d) (hr : FSqrt.clocked.Init r)
    (hdheld : HeldUntilDone (fun k ↦ (i k).start) fun k ↦ (FDivider.clocked.run d i k).done)
    (hrheld : HeldUntilDone (fun k ↦ (j k).start) fun k ↦ (FSqrt.clocked.run r j k).done) :
    (∃ n, Answered (fun k ↦ (i k).start) (fun k ↦ (FDivider.clocked.run d i k).busy)
        (fun k ↦ (FDivider.clocked.run d i k).done) n ∧
      (FDivider.clocked.run d i n).out.result =
        (fDiv (i 0).a (i 0).b (i (n - 1)).rm).result) ∧
    ∃ n, Answered (fun k ↦ (j k).start) (fun k ↦ (FSqrt.clocked.run r j k).busy)
        (fun k ↦ (FSqrt.clocked.run r j k).done) n ∧
      some (FSqrt.clocked.run r j n).out.result =
        (fSqrt (j 0).a (j (n - 1)).rm).map (·.result) := by
  obtain ⟨n, hn, hout⟩ := FDivider.exists_answered_divide hd hdheld
  obtain ⟨m, hm, hout'⟩ := FSqrt.exists_answered_root hr hrheld
  refine ⟨⟨n, hn, ?_⟩, m, hm, ?_⟩
  · rw [hout]
    exact FDivider.divide_result _ _ _
  · rw [hout', FSqrt.fSqrt_eq]
    rfl

theorem division_root_third :
    (∃ n, (FDivider.clocked.run default (fun _ ↦ ⟨true, 0, 0x3F800000, 0x40400000⟩) n).out.result =
      (fDiv 0x3F800000 0x40400000 0).result) ∧
    ∃ n, some (FSqrt.clocked.run default (fun _ ↦ ⟨true, 0, 0x40400000⟩) n).out.result =
      (fSqrt 0x40400000 0).map (·.result) := by
  obtain ⟨⟨n, -, hn⟩, m, -, hm⟩ := division_root (d := default) (r := default)
    (i := fun _ ↦ ⟨true, 0, 0x3F800000, 0x40400000⟩) (j := fun _ ↦ ⟨true, 0, 0x40400000⟩)
    ⟨rfl, rfl⟩ ⟨rfl, rfl⟩ (fun _ _ ↦ rfl) (fun _ _ ↦ rfl)
  exact ⟨⟨n, hn⟩, m, hm⟩

end Fp

end RvPipeline
