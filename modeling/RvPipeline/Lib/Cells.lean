import Mathlib.Data.Nat.Count
import Mathlib.Tactic

/-!
# Storage cells

A cell that takes what is written to it, cycle by cycle, holds the last write; and a two-bit
saturating counter that counts the outcomes of a branch predicts all but a few of them.
-/

universe u

namespace Cell

variable {α : Type u} {c g : ℕ → Option α}

/-- A cell holds a value exactly if that is the last one written. -/
theorem eq_some_iff (hinit : c 0 = none) (hstep : ∀ n, c (n + 1) = (g n).or (c n)) (n : ℕ) (v : α) :
    c n = some v ↔ ∃ m < n, g m = some v ∧ ∀ l, m < l → l < n → g l = none := by
  induction n with
  | zero => simp [hinit]
  | succ n ih =>
    rw [hstep]
    cases hg : g n with
    | some u =>
      rw [Option.some_or]
      constructor
      · intro h
        exact ⟨n, Nat.lt_succ_self n, hg.trans h, fun l hl hl' ↦ by omega⟩
      · rintro ⟨m, hm, hgm, hno⟩
        rcases Nat.lt_succ_iff_lt_or_eq.mp hm with hlt | rfl
        · exact absurd (hg.symm.trans (hno n hlt (Nat.lt_succ_self n))) (Option.some_ne_none u)
        · exact hg.symm.trans hgm
    | none =>
      rw [Option.none_or, ih]
      constructor
      · rintro ⟨m, hm, hgm, hno⟩
        refine ⟨m, by omega, hgm, fun l hl hl' ↦ ?_⟩
        rcases Nat.lt_succ_iff_lt_or_eq.mp hl' with hlt | rfl
        · exact hno l hl hlt
        · exact hg
      · rintro ⟨m, hm, hgm, hno⟩
        rcases Nat.lt_succ_iff_lt_or_eq.mp hm with hlt | rfl
        · exact ⟨m, hlt, hgm, fun l hl hl' ↦ hno l hl (by omega)⟩
        · exact absurd (hg.symm.trans hgm) (Option.some_ne_none v).symm

end Cell

namespace Saturating

/-- The counter after an outcome. -/
def bump (taken : Bool) (c : ℕ) : ℕ := if taken then min (c + 1) 3 else c - 1

/-- The outcome the counter expects. -/
def expects (c : ℕ) : Bool := decide (2 ≤ c)

variable {c : ℕ → ℕ} {o : ℕ → Option Bool} (hinit : c 0 = 0)
  (hstep : ∀ n, c (n + 1) = (o n).elim (c n) fun taken ↦ bump taken (c n))

/-- A branch is resolved against what the counter expects. -/
def Misses (c : ℕ → ℕ) (o : ℕ → Option Bool) (n : ℕ) : Prop := o n = some !(expects (c n))

instance (c : ℕ → ℕ) (o : ℕ → Option Bool) : DecidablePred (Misses c o) :=
  fun n ↦ inferInstanceAs (Decidable (o n = some !(expects (c n))))

include hinit hstep

/-- Each taken outcome pays for two misses, each other one too, but for two at the start. -/
theorem count_misses (n : ℕ) :
    Nat.count (Misses c o) n + c n ≤ 2 * Nat.count (fun m ↦ o m = some true) n ∧
      Nat.count (Misses c o) n + (2 - c n) ≤ 2 * Nat.count (fun m ↦ o m = some false) n + 2 := by
  induction n with
  | zero => simp [hinit]
  | succ n ih =>
    obtain ⟨htaken, hnot⟩ := ih
    have hc := hstep n
    simp only [Nat.count_succ]
    cases ho : o n with
    | none =>
      rw [ho, Option.elim_none] at hc
      have hno : ¬Misses c o n := by simp [Misses, ho]
      simp only [hc, hno, if_false, reduceCtorEq]
      omega
    | some taken =>
      rw [ho, Option.elim_some] at hc
      have hmiss : Misses c o n ↔ taken = !(expects (c n)) := by simp [Misses, ho]
      simp only [hmiss]
      -- the counter is on the side of the outcome or it misses
      cases taken with
      | true =>
        by_cases hlow : 2 ≤ c n
        · have hc' : c (n + 1) ≤ c n + 1 ∧ 2 ≤ c (n + 1) := by
            rw [hc, bump, if_pos rfl]
            omega
          simp only [expects, hlow, decide_true, Bool.not_true, Bool.true_eq_false, if_false]
          simp
          omega
        · have hc' : c (n + 1) = c n + 1 := by
            rw [hc, bump, if_pos rfl]
            omega
          simp [expects, hlow]
          omega
      | false =>
        have hc' : c (n + 1) = c n - 1 := by rw [hc, bump, if_neg Bool.false_ne_true]
        by_cases hlow : 2 ≤ c n
        · simp [expects, hlow]
          omega
        · simp [expects, hlow]
          omega

end Saturating
