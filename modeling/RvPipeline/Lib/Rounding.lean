import Mathlib.Algebra.Order.Field.Basic
import Mathlib.Algebra.Order.Field.Power
import Mathlib.Data.Nat.Cast.Field
import Mathlib.Tactic.FieldSimp
import Mathlib.Tactic.IntervalCases
import Mathlib.Tactic.Linarith
import Mathlib.Tactic.Positivity
import Mathlib.Tactic.Ring

/-!
# Rounding bits

What the bits below a kept number say about an exact value: which half of the interval it is in,
and whether it is at an end or in the middle.  A value that lost bits on the right keeps enough of
them when its last bit is forced to one.
-/

namespace Rounding

variable {K : Type*} [Field K] [LinearOrder K] [IsStrictOrderedRing K]

/-! ## The interval above a number -/

/-- `x` is in `[m, m + 1)`: from the middle on if `half`, at neither the lower end nor the middle
if `rest`. -/
structure Split (x : K) (m : ℕ) (half rest : Bool) : Prop where
  le : (m : K) ≤ x
  lt : x < m + 1
  half_iff : half = true ↔ (m : K) + 1 / 2 ≤ x
  rest_iff : rest = false ↔ x = m ∨ x = m + 1 / 2

namespace Split

variable {x : K} {m : ℕ} {half rest : Bool}

theorem self (n : ℕ) : Split (n : K) n false false where
  le := le_rfl
  lt := by linarith
  half_iff := by simp
  rest_iff := by simp

theorem eq_iff (h : Split x m half rest) : x = m ↔ (half || rest) = false := by
  rw [Bool.or_eq_false_iff, h.rest_iff, ← Bool.not_eq_true, h.half_iff, not_le]
  constructor
  · intro hx
    exact ⟨by linarith, .inl hx⟩
  · rintro ⟨hlt, hx | hx⟩
    · exact hx
    · linarith

/-- One more bit is dropped. -/
theorem halve (h : Split x m half rest) :
    Split (x / 2) (m / 2) (m.testBit 0) (half || rest) := by
  have hle := h.le
  have hlt := h.lt
  have hcast : (m : K) = 2 * (m / 2 : ℕ) + (m % 2 : ℕ) := by
    exact_mod_cast (Nat.div_add_mod m 2).symm
  have hbit : m.testBit 0 = true ↔ m % 2 = 1 := by simp
  rcases Nat.mod_two_eq_zero_or_one m with h0 | h1
  · rw [h0, Nat.cast_zero, add_zero] at hcast
    refine ⟨by linarith, by linarith, ?_, ?_⟩
    · rw [hbit, h0]
      constructor
      · intro hc
        omega
      · intro hc
        linarith
    · rw [← h.eq_iff]
      constructor
      · intro hx
        exact .inl (by linarith)
      · rintro (hx | hx)
        · linarith
        · linarith
  · rw [h1, Nat.cast_one] at hcast
    refine ⟨by linarith, by linarith, ?_, ?_⟩
    · rw [hbit, h1]
      exact ⟨fun _ ↦ by linarith, fun _ ↦ rfl⟩
    · rw [← h.eq_iff]
      constructor
      · intro hx
        exact .inr (by linarith)
      · rintro (hx | hx)
        · linarith
        · linarith

end Split

/-! ## A forced last bit -/

theorem or_one (q : ℕ) : q ||| 1 = 2 * (q / 2) + 1 := by
  apply Nat.eq_of_testBit_eq
  intro i
  cases i with
  | zero => simp
  | succ i =>
    rw [Nat.testBit_succ, Nat.testBit_succ, Nat.or_div_two, show 1 / 2 = 0 from rfl, Nat.or_zero,
      Nat.mul_add_div Nat.two_pos, show 1 / 2 = 0 from rfl, Nat.add_zero]

/-- `N` shifted right by `d`, with the lost bits in the last one. -/
def sticky (N d : ℕ) : ℕ := N / 2 ^ d ||| if N % 2 ^ d = 0 then 0 else 1

theorem sticky_lt {N d F : ℕ} (hF : 0 < F) (h : N / 2 ^ d < 2 ^ F) : sticky N d < 2 ^ F := by
  apply Nat.or_lt_two_pow h
  split_ifs
  · exact Nat.two_pow_pos F
  · exact Nat.one_lt_two_pow hF.ne'

theorem sticky_of_dvd {N d : ℕ} (h : N % 2 ^ d = 0) : sticky N d = N / 2 ^ d := by
  rw [sticky, if_pos h, Nat.or_zero]

/-- `n` is `x`, or odd and less than one away. -/
def OddApprox (x : K) (n : ℕ) : Prop := x = n ∨ (n % 2 = 1 ∧ (n : K) - 1 < x ∧ x < n + 1)

namespace OddApprox

variable {x : K} {n : ℕ}

theorem nonneg (h : OddApprox x n) : 0 ≤ x := by
  rcases h with rfl | ⟨hodd, hlt, -⟩
  · exact Nat.cast_nonneg n
  · have h1 : (1 : K) ≤ n := by exact_mod_cast (by omega : 1 ≤ n)
    linarith

/-- The bits shifted out on the right go into the last bit. -/
theorem shift (N k : ℕ) :
    OddApprox ((N : K) / 2 ^ k) (sticky N k) := by
  rw [sticky]
  have hpow : (0 : K) < 2 ^ k := by positivity
  have hcast : (N : K) = 2 ^ k * (N / 2 ^ k : ℕ) + (N % 2 ^ k : ℕ) := by
    exact_mod_cast (Nat.div_add_mod N (2 ^ k)).symm
  have hlt : ((N % 2 ^ k : ℕ) : K) < 2 ^ k := by
    exact_mod_cast Nat.mod_lt N (Nat.two_pow_pos k)
  split_ifs with h0
  · rw [h0, Nat.cast_zero, add_zero] at hcast
    left
    rw [Nat.or_zero, hcast]
    field_simp
  · have hpos : (0 : K) < (N % 2 ^ k : ℕ) := by exact_mod_cast Nat.pos_of_ne_zero h0
    have hlow : ((N / 2 ^ k : ℕ) : K) < N / 2 ^ k := by
      rw [lt_div_iff₀ hpow]
      linarith
    have hhigh : (N : K) / 2 ^ k < (N / 2 ^ k : ℕ) + 1 := by
      rw [div_lt_iff₀ hpow]
      linarith
    right
    have hdiv := Nat.div_add_mod (N / 2 ^ k) 2
    rw [or_one]
    refine ⟨by omega, ?_⟩
    rcases Nat.mod_two_eq_zero_or_one (N / 2 ^ k) with h2 | h2
    · have hq : ((2 * (N / 2 ^ k / 2) + 1 : ℕ) : K) = (N / 2 ^ k : ℕ) + 1 := by
        exact_mod_cast (by omega : 2 * (N / 2 ^ k / 2) + 1 = N / 2 ^ k + 1)
      rw [hq]
      constructor <;> linarith
    · have hq : ((2 * (N / 2 ^ k / 2) + 1 : ℕ) : K) = (N / 2 ^ k : ℕ) := by
        exact_mod_cast (by omega : 2 * (N / 2 ^ k / 2) + 1 = N / 2 ^ k)
      rw [hq]
      constructor <;> linarith

theorem add (h : OddApprox x n) {B : ℕ} (hB : B % 2 = 0) : OddApprox (B + x) (B + n) := by
  rw [OddApprox, Nat.cast_add]
  rcases h with rfl | ⟨hodd, hlow, hhigh⟩
  · exact .inl rfl
  · exact .inr ⟨by omega, by linarith, by linarith⟩

theorem sub (h : OddApprox x n) {B : ℕ} (hB : B % 2 = 0) (hn : n ≤ B) :
    OddApprox (B - x) (B - n) := by
  rw [OddApprox, Nat.cast_sub hn]
  rcases h with rfl | ⟨hodd, hlow, hhigh⟩
  · exact .inl rfl
  · exact .inr ⟨by omega, by linarith, by linarith⟩

/-- A quotient with the remainder in one more bit. -/
theorem of_floor {m : ℕ} (hle : (m : K) ≤ x) (hlt : x < m + 1) {rest : Bool}
    (hrest : rest = false ↔ x = m) : OddApprox (2 * x) (2 * m + if rest then 1 else 0) := by
  cases rest with
  | false =>
    have hx : x = m := hrest.1 rfl
    left
    simp [hx]
  | true =>
    have hne : x ≠ m := fun hx ↦ by simpa using hrest.2 hx
    have hlow : (m : K) < x := lt_of_le_of_ne hle (Ne.symm hne)
    right
    simp only [if_true, Nat.cast_add, Nat.cast_mul, Nat.cast_ofNat, Nat.cast_one]
    exact ⟨by omega, by linarith, by linarith⟩

/-- After one bit the middle may be missed, but not whether anything is left. -/
theorem split_one (h : OddApprox x n) :
    ∃ half rest, Split (x / 2) (n / 2) half rest ∧ (half || rest) = n.testBit 0 := by
  have hbit : n.testBit 0 = true ↔ n % 2 = 1 := by simp
  rcases h with rfl | ⟨hodd, hlow, hhigh⟩
  · have hs := (Split.self (K := K) n).halve
    exact ⟨_, _, hs, by simp⟩
  · have hn : (n : K) = 2 * (n / 2 : ℕ) + 1 := by
      exact_mod_cast (by omega : n = 2 * (n / 2) + 1)
    have hle : ((n / 2 : ℕ) : K) < x / 2 := by linarith
    refine ⟨decide (((n / 2 : ℕ) : K) + 1 / 2 ≤ x / 2), decide (x / 2 ≠ (n / 2 : ℕ) + 1 / 2),
      ⟨hle.le, by linarith, by simp, ?_⟩, ?_⟩
    · rw [decide_eq_false_iff_not, not_not]
      exact ⟨.inr, fun hx ↦ hx.resolve_left hle.ne'⟩
    · rw [hbit.2 hodd, Bool.or_eq_true, decide_eq_true_iff, decide_eq_true_iff]
      by_cases hx : x / 2 = (n / 2 : ℕ) + 1 / 2
      · exact .inl hx.ge
      · exact .inr hx

/-- From two bits on the interval is known. -/
theorem split (h : OddApprox x n) (j : ℕ) :
    Split (x / 2 ^ (j + 2)) (n / 2 ^ (j + 2)) (n.testBit (j + 1))
      (decide (n % 2 ^ (j + 1) ≠ 0)) := by
  induction j with
  | zero =>
    obtain ⟨half, rest, hs, hor⟩ := h.split_one
    have hh := hs.halve
    rw [hor] at hh
    have hn : decide (n % 2 ^ (0 + 1) ≠ 0) = n.testBit 0 := by
      rw [Nat.testBit_zero]
      rcases Nat.mod_two_eq_zero_or_one n with h2 | h2 <;> simp [h2]
    rw [hn, show x / 2 ^ (0 + 2) = x / 2 / 2 by ring, show n / 2 ^ (0 + 2) = n / 2 / 2 by omega,
      Nat.testBit_succ]
    exact hh
  | succ j ih =>
    have hh := ih.halve
    have hx : x / 2 ^ (j + 1 + 2) = x / 2 ^ (j + 2) / 2 := by
      rw [div_div, ← pow_succ]
    have hn : n / 2 ^ (j + 1 + 2) = n / 2 ^ (j + 2) / 2 := by
      rw [Nat.div_div_eq_div_mul, ← pow_succ]
    have hbit : (n / 2 ^ (j + 2)).testBit 0 = n.testBit (j + 2) := by
      rw [Nat.testBit_div_two_pow, Nat.zero_add]
    have hmod : (n.testBit (j + 1) || decide (n % 2 ^ (j + 1) ≠ 0)) =
        decide (n % 2 ^ (j + 1 + 1) ≠ 0) := by
      rw [Nat.pow_succ 2 (j + 1), Nat.mod_mul, Nat.testBit_eq_decide_div_mod_eq]
      have hpos := Nat.two_pow_pos (j + 1)
      rcases Nat.mod_two_eq_zero_or_one (n / 2 ^ (j + 1)) with h2 | h2
      · simp [h2]
      · simp [h2]
    rw [hx, hn, ← hmod, ← hbit]
    exact hh

/-- The same after a shift to the left, by one bit or of an exact value. -/
theorem split_shiftLeft (h : OddApprox x n) {k : ℕ} (hk : k ≤ 1 ∨ x = n) (j : ℕ) :
    Split (x * 2 ^ k / 2 ^ (j + 3)) (n * 2 ^ k / 2 ^ (j + 3)) ((n * 2 ^ k).testBit (j + 2))
      (decide (n * 2 ^ k % 2 ^ (j + 2) ≠ 0)) := by
  have hsplit : ∀ {y : K} {m : ℕ}, OddApprox y m → Split (y / 2 ^ (j + 3)) (m / 2 ^ (j + 3))
      (m.testBit (j + 2)) (decide (m % 2 ^ (j + 2) ≠ 0)) := fun hy ↦ hy.split (j + 1)
  rcases hk with hk | rfl
  · interval_cases k
    · simpa using hsplit h
    · have hs := h.split j
      have hx : x * 2 ^ 1 / 2 ^ (j + 3) = x / 2 ^ (j + 2) := by
        rw [pow_one, pow_succ 2 (j + 2), mul_div_mul_right _ _ two_ne_zero]
      have hn : n * 2 ^ 1 / 2 ^ (j + 3) = n / 2 ^ (j + 2) := by
        rw [pow_one, pow_succ 2 (j + 2), Nat.mul_div_mul_right _ _ Nat.two_pos]
      have hbit : (n * 2 ^ 1).testBit (j + 2) = n.testBit (j + 1) := by
        rw [pow_one, Nat.testBit_succ, Nat.mul_div_cancel _ Nat.two_pos]
      have hmod : n * 2 ^ 1 % 2 ^ (j + 2) ≠ 0 ↔ n % 2 ^ (j + 1) ≠ 0 := by
        rw [pow_one, pow_succ 2 (j + 1), Nat.mul_mod_mul_right]
        omega
      rw [hx, hn, hbit, decide_eq_decide.2 hmod]
      exact hs
  · exact hsplit (.inl (by push_cast; ring))

end OddApprox

/-! ## Aligned sums -/

/-- `n` stands for `x` in a frame of `F` bits and a carry: only a value with its two top bits
gone has to be exact. -/
structure Framed (F : ℕ) (x : K) (n : ℕ) : Prop where
  approx : OddApprox x n
  lt : n < 2 ^ (F + 1)
  exact : n < 2 ^ (F - 2) → x = n

namespace Framed

variable {F : ℕ} {x : K} {n B S d : ℕ}

theorem eq_zero_iff (h : Framed F x n) : x = 0 ↔ n = 0 := by
  constructor
  · rintro rfl
    rcases h.approx with h0 | ⟨hodd, hlt, -⟩
    · exact_mod_cast h0.symm
    · have h1 : (1 : K) ≤ n := by exact_mod_cast (by omega : 1 ≤ n)
      linarith
  · rintro rfl
    rw [h.exact (Nat.two_pow_pos _), Nat.cast_zero]

theorem add (hF : 2 ≤ F) (hB : 2 ^ (F - 1) ≤ B) (hB' : B < 2 ^ F) (hBe : B % 2 = 0)
    (hS : S < 2 ^ F) : Framed F ((B : K) + S / 2 ^ d) (B + sticky S d) where
  approx := (OddApprox.shift S d).add hBe
  lt := by
    have hlt := sticky_lt (by omega) (lt_of_le_of_lt (Nat.div_le_self S (2 ^ d)) hS)
    rw [pow_succ]
    omega
  exact hn := by
    have hle : 2 ^ (F - 2) ≤ 2 ^ (F - 1) := Nat.pow_le_pow_right Nat.two_pos (by omega)
    omega

theorem div_two_pow_lt (hS : S < 2 ^ F) {k : ℕ} (hk : k ≤ d) (hF : k ≤ F) :
    S / 2 ^ d < 2 ^ (F - k) := by
  apply Nat.div_lt_of_lt_mul
  calc S < 2 ^ F := hS
    _ = 2 ^ k * 2 ^ (F - k) := by rw [← pow_add, Nat.add_sub_cancel' hF]
    _ ≤ 2 ^ d * 2 ^ (F - k) := Nat.mul_le_mul_right _ (Nat.pow_le_pow_right Nat.two_pos hk)

theorem sticky_le (hF : 2 ≤ F) (hB : 2 ^ (F - 1) ≤ B) (hS : S < 2 ^ F)
    (hge : d = 0 → S ≤ B) : sticky S d ≤ B := by
  rcases Nat.eq_zero_or_pos d with rfl | hd
  · rw [sticky_of_dvd (by simp [Nat.mod_one]), pow_zero, Nat.div_one]
    exact hge rfl
  · have hdiv : S / 2 ^ d < 2 ^ (F - 1) := div_two_pow_lt hS hd (by omega)
    exact (sticky_lt (by omega) hdiv).le.trans hB

/-- Two bits are lost only where the small number was shifted by less than two. -/
theorem sub (hF : 3 ≤ F) (hB : 2 ^ (F - 1) ≤ B) (hB' : B < 2 ^ F) (hBe : B % 2 = 0)
    (hS : S < 2 ^ F) (hSe : S % 2 = 0) (hge : d = 0 → S ≤ B) :
    Framed F ((B : K) - S / 2 ^ d) (B - sticky S d) where
  approx := (OddApprox.shift S d).sub hBe (sticky_le (by omega) hB hS hge)
  lt := by
    rw [pow_succ]
    omega
  exact hn := by
    have hle := sticky_le (by omega) hB hS hge
    have hdvd : S % 2 ^ d = 0 := by
      rcases Nat.lt_or_ge d 2 with hd | hd
      · interval_cases d
        · exact Nat.mod_one S
        · exact hSe
      · have hlt := sticky_lt (by omega) (div_two_pow_lt hS hd (by omega))
        have hpow : 2 ^ (F - 1) = 2 ^ (F - 2) * 2 := by
          rw [← pow_succ]
          congr 1
          omega
        omega
    rw [sticky_of_dvd hdvd] at hle ⊢
    rw [Nat.cast_sub hle, Nat.cast_div (Nat.dvd_of_mod_eq_zero hdvd) (by positivity)]
    push_cast
    rfl

end Framed

/-! ## Normal form -/

/-- The bounds on `x` that a significand of `p + 1` bits gives. -/
theorem Split.bounds {x : K} {m p : ℕ} {half rest : Bool} {e : ℤ}
    (h : Split (x * 2 ^ ((p : ℤ) - e)) m half rest) (hlow : 2 ^ p ≤ m) (hhigh : m < 2 ^ (p + 1)) :
    (2 : K) ^ e ≤ x ∧ x < 2 ^ (e + 1) := by
  have hpos : (0 : K) < 2 ^ ((p : ℤ) - e) := by positivity
  have h1 : (2 : K) ^ p ≤ x * 2 ^ ((p : ℤ) - e) := le_trans (by exact_mod_cast hlow) h.le
  have h2 : x * 2 ^ ((p : ℤ) - e) < 2 ^ (p + 1) := by
    have hm : (m : K) + 1 ≤ 2 ^ (p + 1) := by exact_mod_cast hhigh
    exact lt_of_lt_of_le h.lt hm
  have he : (2 : K) ^ e * 2 ^ ((p : ℤ) - e) = 2 ^ p := by
    rw [← zpow_add₀ two_ne_zero, add_sub_cancel, zpow_natCast]
  have he1 : (2 : K) ^ (e + 1) * 2 ^ ((p : ℤ) - e) = 2 ^ (p + 1) := by
    rw [← zpow_add₀ two_ne_zero, ← zpow_natCast]
    congr 1
    push_cast
    ring
  constructor
  · rwa [← he, mul_le_mul_iff_left₀ hpos] at h1
  · rwa [← he1, mul_lt_mul_iff_left₀ hpos] at h2

end Rounding
