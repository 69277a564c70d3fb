import Mathlib.Algebra.Order.Ring.Nat
import Mathlib.Data.Nat.Sqrt
import Mathlib.Tactic.Linarith
import Mathlib.Tactic.Ring

/-!
# Digit recurrences

Division and square root one digit a round, on natural numbers.  Each keeps the remainder of the
digits it has seen; the digits it has not seen move up as the result grows behind them.
-/

namespace Digits

/-! ## Division -/

/-- The leading bits after one more round. -/
theorem div_two_pow_step {x m : ℕ} :
    x / 2 ^ m = 2 * (x / 2 ^ (m + 1)) + x % 2 ^ (m + 1) / 2 ^ m := by
  have hpos : 0 < 2 ^ m := Nat.two_pow_pos m
  have hx : x = 2 ^ m * (2 * (x / 2 ^ (m + 1))) + x % 2 ^ (m + 1) := by
    have h := Nat.div_add_mod x (2 ^ (m + 1))
    rw [pow_succ] at h ⊢
    rw [← mul_assoc]
    exact h.symm
  conv_lhs => rw [hx]
  rw [Nat.mul_add_div hpos]

theorem div_mod_two_pow_lt {x m : ℕ} : x % 2 ^ (m + 1) / 2 ^ m < 2 := by
  rw [Nat.div_lt_iff_lt_mul (Nat.two_pow_pos m), mul_comm, ← pow_succ]
  exact Nat.mod_lt x (Nat.two_pow_pos (m + 1))

/-- Division with one more bit of the dividend. -/
theorem div_mod_double_add {p d b : ℕ} (hb : b < 2) :
    (2 * p + b) / d = 2 * (p / d) + (if d ≤ 2 * (p % d) + b ∧ 0 < d then 1 else 0) ∧
    (2 * p + b) % d = 2 * (p % d) + b - (if d ≤ 2 * (p % d) + b ∧ 0 < d then d else 0) := by
  rcases Nat.eq_zero_or_pos d with rfl | hd
  · simp
  have hmod := Nat.mod_lt p hd
  have hp : 2 * p + b = d * (2 * (p / d)) + (2 * (p % d) + b) := by
    have h := Nat.div_add_mod p d
    calc 2 * p + b = 2 * (d * (p / d) + p % d) + b := by rw [h]
      _ = d * (2 * (p / d)) + (2 * (p % d) + b) := by ring
  rw [hp, Nat.mul_add_div hd, Nat.mul_add_mod]
  by_cases hle : d ≤ 2 * (p % d) + b
  · have hlt : 2 * (p % d) + b - d < d := by omega
    rw [if_pos ⟨hle, hd⟩, if_pos ⟨hle, hd⟩, Nat.div_eq_sub_div hd hle, Nat.mod_eq_sub_mod hle,
      Nat.div_eq_of_lt hlt, Nat.mod_eq_of_lt hlt]
    omega
  · have hlt : 2 * (p % d) + b < d := by omega
    rw [if_neg fun h ↦ hle h.1, if_neg fun h ↦ hle h.1, Nat.div_eq_of_lt hlt,
      Nat.mod_eq_of_lt hlt]
    omega

/-- One round of restoring division, with a quotient register of `W` bits. -/
def divRound (W d : ℕ) (p : ℕ × ℕ) : ℕ × ℕ :=
  let r := 2 * p.1 + p.2 / 2 ^ (W - 1)
  let q := 2 * p.2 % 2 ^ W
  if d ≤ r then (r - d, q + 1) else (r, q)

/-- The leading bits of `x` down to bit `m` have been divided by `d`; the others are in front of
the quotient. -/
structure Divided (W x d m : ℕ) (p : ℕ × ℕ) : Prop where
  rem : p.1 = x / 2 ^ m % d
  quot : p.2 = x % 2 ^ m * 2 ^ (W - m) + x / 2 ^ m / d

namespace Divided

variable {W x d m : ℕ} {p : ℕ × ℕ}

theorem start (hx : x < 2 ^ W) : Divided W x d W (0, x) := by
  constructor
  · simp [Nat.div_eq_of_lt hx]
  · simp [Nat.div_eq_of_lt hx, Nat.mod_eq_of_lt hx]

theorem rem_lt (hx : x < 2 ^ W) (hm : m ≤ W) (h : Divided W x d m p) : p.1 < 2 ^ (W - m) := by
  have hlt : x / 2 ^ m < 2 ^ (W - m) := by
    rw [Nat.div_lt_iff_lt_mul (Nat.two_pow_pos m), ← pow_add, Nat.sub_add_cancel hm]
    exact hx
  rw [h.rem]
  exact lt_of_le_of_lt (Nat.mod_le _ d) hlt

/-- The register, split at its top bit. -/
theorem quot_split (hx : x < 2 ^ W) (hm : m + 1 ≤ W) (h : Divided W x d (m + 1) p) :
    p.2 = 2 ^ (W - 1) * (x % 2 ^ (m + 1) / 2 ^ m) +
        (x % 2 ^ m * 2 ^ (W - m - 1) + x / 2 ^ (m + 1) / d) ∧
      x % 2 ^ m * 2 ^ (W - m - 1) + x / 2 ^ (m + 1) / d < 2 ^ (W - 1) := by
  have hW1 : 2 ^ (W - 1) = 2 ^ m * 2 ^ (W - m - 1) := by
    rw [← pow_add]
    congr 1
    omega
  constructor
  · have hrest := Nat.div_add_mod (x % 2 ^ (m + 1)) (2 ^ m)
    rw [Nat.mod_mod_of_dvd x (pow_dvd_pow 2 (Nat.le_succ m))] at hrest
    generalize x % 2 ^ (m + 1) / 2 ^ m = b at hrest ⊢
    rw [h.quot, ← hrest, hW1, show W - (m + 1) = W - m - 1 by omega]
    ring
  · have hlt : x / 2 ^ (m + 1) < 2 ^ (W - m - 1) := by
      rw [Nat.div_lt_iff_lt_mul (Nat.two_pow_pos _), ← pow_add, show W - m - 1 + (m + 1) = W by omega]
      exact hx
    have hq : x / 2 ^ (m + 1) / d < 2 ^ (W - m - 1) := lt_of_le_of_lt (Nat.div_le_self _ d) hlt
    have hr : x % 2 ^ m + 1 ≤ 2 ^ m := Nat.mod_lt x (Nat.two_pow_pos m)
    calc x % 2 ^ m * 2 ^ (W - m - 1) + x / 2 ^ (m + 1) / d
        < x % 2 ^ m * 2 ^ (W - m - 1) + 2 ^ (W - m - 1) := by omega
      _ = (x % 2 ^ m + 1) * 2 ^ (W - m - 1) := by ring
      _ ≤ 2 ^ m * 2 ^ (W - m - 1) := Nat.mul_le_mul_right _ hr
      _ = 2 ^ (W - 1) := hW1.symm

theorem round (hx : x < 2 ^ W) (hm : m + 1 ≤ W) (hd : 0 < d) (h : Divided W x d (m + 1) p) :
    Divided W x d m (divRound W d p) := by
  obtain ⟨hQ, hlow⟩ := h.quot_split hx hm
  set b := x % 2 ^ (m + 1) / 2 ^ m with hb
  set q := x / 2 ^ (m + 1) with hq
  obtain ⟨hdiv, hmod⟩ := div_mod_double_add (p := q) (d := d) (b := b) div_mod_two_pow_lt
  have hnext : x / 2 ^ m = 2 * q + b := div_two_pow_step
  have htop : p.2 / 2 ^ (W - 1) = b := by
    rw [hQ, Nat.mul_add_div (Nat.two_pow_pos _), Nat.div_eq_of_lt hlow, add_zero]
  have hshift : 2 * p.2 % 2 ^ W = x % 2 ^ m * 2 ^ (W - m) + 2 * (q / d) := by
    have hW : 2 ^ W = 2 * 2 ^ (W - 1) := by
      rw [← pow_succ']
      congr 1
      omega
    have hWm : 2 ^ (W - m) = 2 * 2 ^ (W - m - 1) := by
      rw [← pow_succ']
      congr 1
      omega
    rw [hW, Nat.mul_mod_mul_left, hQ, Nat.mul_add_mod, Nat.mod_eq_of_lt hlow, hWm]
    ring
  have hrem : p.1 = q % d := h.rem
  unfold divRound
  rw [htop, hshift, hrem]
  dsimp only
  by_cases hle : d ≤ 2 * (q % d) + b
  · rw [if_pos hle]
    constructor
    · rw [hnext, hmod, if_pos ⟨hle, hd⟩]
    · rw [hnext, hdiv, if_pos ⟨hle, hd⟩, add_assoc]
  · rw [if_neg hle]
    constructor
    · rw [hnext, hmod, if_neg fun h ↦ hle h.1, Nat.sub_zero]
    · rw [hnext, hdiv, if_neg fun h ↦ hle h.1, add_zero]

end Divided

/-! ## Square root -/

/-- The root with one more digit of the radicand, in base four. -/
theorem sqrt_four_mul_add {n b : ℕ} (hb : b < 4) :
    (4 * n + b).sqrt =
      2 * n.sqrt + if 4 * n.sqrt + 1 ≤ 4 * (n - n.sqrt * n.sqrt) + b then 1 else 0 := by
  have hle := Nat.sqrt_le n
  have hlt := Nat.lt_succ_sqrt n
  rw [Nat.succ_eq_add_one] at hlt
  symm
  rw [Nat.eq_sqrt]
  split_ifs with hdigit
  · constructor
    · nlinarith [Nat.sub_add_cancel hle]
    · nlinarith
  · constructor
    · nlinarith
    · nlinarith [Nat.sub_add_cancel hle]

/-- One round of the root, with a radicand register of `2 * W` bits. -/
def rootRound (W : ℕ) (p : ℕ × ℕ × ℕ) : ℕ × ℕ × ℕ :=
  let r := 4 * p.2.1 + p.1 / 4 ^ (W - 1)
  let rad := 4 * p.1 % 4 ^ W
  if 4 * p.2.2 + 1 ≤ r then (rad, r - (4 * p.2.2 + 1), 2 * p.2.2 + 1) else (rad, r, 2 * p.2.2)

/-- The root of the leading digits of `x` down to digit `m`, with its remainder. -/
structure Rooted (W x m : ℕ) (p : ℕ × ℕ × ℕ) : Prop where
  rad : p.1 = x % 4 ^ m * 4 ^ (W - m)
  root : p.2.2 = (x / 4 ^ m).sqrt
  rem : p.2.1 = x / 4 ^ m - p.2.2 * p.2.2

namespace Rooted

variable {W x m : ℕ} {p : ℕ × ℕ × ℕ}

theorem start (hx : x < 4 ^ W) : Rooted W x W (x, 0, 0) := by
  constructor
  · simp [Nat.mod_eq_of_lt hx]
  · simp [Nat.div_eq_of_lt hx]
  · simp [Nat.div_eq_of_lt hx]

theorem root_lt (hx : x < 4 ^ W) (hm : m ≤ W) (h : Rooted W x m p) : p.2.2 < 2 ^ (W - m) := by
  have hpow : 2 ^ (W - m) * 2 ^ (W - m) * 4 ^ m = 4 ^ W := by
    rw [← mul_pow, show 2 * 2 = 4 from rfl, ← pow_add, Nat.sub_add_cancel hm]
  rw [h.root, Nat.sqrt_lt, Nat.div_lt_iff_lt_mul (by positivity), hpow]
  exact hx

theorem rem_le (h : Rooted W x m p) : p.2.1 ≤ 2 * p.2.2 := by
  have hlt := Nat.lt_succ_sqrt (x / 4 ^ m)
  rw [← h.root, Nat.succ_eq_add_one] at hlt
  rw [h.rem, Nat.sub_le_iff_le_add]
  nlinarith

theorem round (hm : m + 1 ≤ W) (h : Rooted W x (m + 1) p) : Rooted W x m (rootRound W p) := by
  set n := x / 4 ^ (m + 1) with hn
  set b := x % 4 ^ (m + 1) / 4 ^ m with hb
  have hpos : 0 < 4 ^ m := by positivity
  have hb4 : b < 4 := by
    rw [hb, Nat.div_lt_iff_lt_mul hpos, mul_comm, ← pow_succ]
    exact Nat.mod_lt x (by positivity)
  have hnext : x / 4 ^ m = 4 * n + b := by
    have hx : x = 4 ^ m * (4 * n) + x % 4 ^ (m + 1) := by
      have h := Nat.div_add_mod x (4 ^ (m + 1))
      rw [pow_succ, mul_assoc] at h
      rw [pow_succ]
      exact h.symm
    conv_lhs => rw [hx]
    rw [Nat.mul_add_div hpos]
  -- the radicand register, split at its top digit
  have hW1 : 4 ^ (W - 1) = 4 ^ m * 4 ^ (W - m - 1) := by
    rw [← pow_add]
    congr 1
    omega
  have hlow : x % 4 ^ m * 4 ^ (W - m - 1) < 4 ^ (W - 1) := by
    rw [hW1]
    exact Nat.mul_lt_mul_of_pos_right (Nat.mod_lt x hpos) (by positivity)
  have hrad : p.1 = 4 ^ (W - 1) * b + x % 4 ^ m * 4 ^ (W - m - 1) := by
    have hrest : x % 4 ^ (m + 1) = 4 ^ m * b + x % 4 ^ m := by
      have h := Nat.div_add_mod (x % 4 ^ (m + 1)) (4 ^ m)
      rw [Nat.mod_mod_of_dvd x (pow_dvd_pow 4 (Nat.le_succ m))] at h
      exact h.symm
    rw [h.rad, hrest, hW1, show W - (m + 1) = W - m - 1 by omega]
    ring
  have htop : p.1 / 4 ^ (W - 1) = b := by
    rw [hrad, Nat.mul_add_div (by positivity), Nat.div_eq_of_lt hlow, add_zero]
  have hshift : 4 * p.1 % 4 ^ W = x % 4 ^ m * 4 ^ (W - m) := by
    have hW : 4 ^ W = 4 * 4 ^ (W - 1) := by
      rw [← pow_succ']
      congr 1
      omega
    have hWm : 4 ^ (W - m) = 4 * 4 ^ (W - m - 1) := by
      rw [← pow_succ']
      congr 1
      omega
    rw [hW, Nat.mul_mod_mul_left, hrad, Nat.mul_add_mod, Nat.mod_eq_of_lt hlow, hWm]
    ring
  have hsq := Nat.sqrt_le n
  have hroot := sqrt_four_mul_add (n := n) hb4
  have hq : p.2.2 = n.sqrt := h.root
  have hrem : p.2.1 = n - n.sqrt * n.sqrt := by rw [h.rem, hq]
  unfold rootRound
  rw [htop, hshift, hrem, hq]
  dsimp only
  by_cases hdigit : 4 * n.sqrt + 1 ≤ 4 * (n - n.sqrt * n.sqrt) + b
  · rw [if_pos hdigit] at hroot
    rw [if_pos hdigit]
    refine ⟨rfl, by rw [hnext, hroot], ?_⟩
    rw [hnext]
    dsimp only
    have hexp : (2 * n.sqrt + 1) * (2 * n.sqrt + 1) = 4 * (n.sqrt * n.sqrt) + (4 * n.sqrt + 1) := by
      ring
    rw [hexp]
    omega
  · rw [if_neg hdigit, add_zero] at hroot
    rw [if_neg hdigit]
    refine ⟨rfl, by rw [hnext, hroot], ?_⟩
    rw [hnext]
    dsimp only
    have hexp : 2 * n.sqrt * (2 * n.sqrt) = 4 * (n.sqrt * n.sqrt) := by ring
    rw [hexp, Nat.mul_sub, Nat.sub_add_comm (Nat.mul_le_mul_left 4 hsq)]

end Rooted

end Digits
