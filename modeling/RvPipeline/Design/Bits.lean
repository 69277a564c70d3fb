import RvPipeline.Design.Defs
import Mathlib.Tactic.SplitIfs

/-!
# Bits of masked and assigned words
-/

namespace RvPipeline

variable {w : ℕ}

theorem le_two_pow_clog2 (n : ℕ) : n ≤ 2 ^ clog2 n := by
  unfold clog2
  split_ifs with h
  · simpa using h
  · have hlog := @Nat.lt_log2_self (n - 1)
    omega

theorem getLsbD_putBit {v : BitVec w} {n j : ℕ} {b : Bool} (hj : j < w) :
    (putBit v n b).getLsbD j = if j = n then b else v.getLsbD j := by
  unfold putBit
  split_ifs with hb hn hn
  · simp [hn ▸ hj, hb, hn]
  · simp [BitVec.getLsbD_twoPow, Ne.symm hn]
  · simp [hb, hn, hn ▸ hj]
  · simp [hn, hj]

theorem getLsbD_putBits2 {v : BitVec w} {lo j : ℕ} {x : BitVec 2} (hj : j < w) :
    (putBits2 v lo x).getLsbD j =
      if j = lo + 1 then x.getLsbD 1 else if j = lo then x.getLsbD 0 else v.getLsbD j := by
  rw [putBits2, getLsbD_putBit hj, getLsbD_putBit hj]

theorem getLsbD_foldl_twoPow (bits : List ℕ) (acc : BitVec w) (j : ℕ) :
    (bits.foldl (fun acc i ↦ acc ||| BitVec.twoPow w i) acc).getLsbD j =
      (acc.getLsbD j || (decide (j ∈ bits) && decide (j < w))) := by
  induction bits generalizing acc with
  | nil => simp
  | cons i bits ih =>
    rw [List.foldl_cons, ih, BitVec.getLsbD_or, BitVec.getLsbD_twoPow]
    by_cases hi : j = i
    · subst hi
      by_cases hj : j < w <;> simp [hj]
    · simp [hi, Ne.symm hi]

theorem getLsbD_keepBits (bits : List ℕ) (v : BitVec w) (j : ℕ) :
    (keepBits bits v).getLsbD j = (decide (j ∈ bits) && v.getLsbD j) := by
  rw [keepBits, BitVec.getLsbD_and, getLsbD_foldl_twoPow]
  by_cases hj : j < w
  · simp [hj, Bool.and_comm]
  · simp [BitVec.getLsbD_of_ge v j (by omega)]

/-- A write to some of the bits. -/
theorem getLsbD_mergeBits (bits : List ℕ) (old v : BitVec w) (j : ℕ) :
    ((old &&& ~~~(keepBits bits (BitVec.allOnes w))) ||| keepBits bits v).getLsbD j =
      if j ∈ bits then v.getLsbD j else old.getLsbD j := by
  rw [BitVec.getLsbD_or, BitVec.getLsbD_and, BitVec.getLsbD_not, getLsbD_keepBits, getLsbD_keepBits,
    BitVec.getLsbD_allOnes]
  by_cases hj : j < w
  · by_cases hmem : j ∈ bits <;> simp [hj, hmem]
  · simp [BitVec.getLsbD_of_ge v j (by omega), BitVec.getLsbD_of_ge old j (by omega)]

end RvPipeline
