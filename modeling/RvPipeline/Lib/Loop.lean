import Mathlib.Data.Nat.Notation
import Mathlib.Tactic

/-!
# Loops

A `while` loop is a function from a state to the next one or to a result.  This file has its runs
and the rules to prove that it ends, with a measure, or that it does not, with an invariant.
-/

universe u v

namespace Loop

variable {σ : Type u} {ρ : Type v} {step : σ → ρ ⊕ σ} {s t : σ} {r r' : ρ}

/-- The loop ends with the result. -/
inductive Ends (step : σ → ρ ⊕ σ) : σ → ρ → Prop where
  | done {s : σ} {r : ρ} : step s = .inl r → Ends step s r
  | next {s t : σ} {r : ρ} : step s = .inr t → Ends step t r → Ends step s r

/-- The states the loop goes through. -/
inductive Visits (step : σ → ρ ⊕ σ) (s : σ) : σ → Prop where
  | start : Visits step s s
  | next {t t' : σ} : Visits step s t → step t = .inr t' → Visits step s t'

theorem Ends.unique (h : Ends step s r) (h' : Ends step s r') : r = r' := by
  induction h with
  | done hdone =>
    cases h' with
    | done hdone' => exact Sum.inl.inj (hdone.symm.trans hdone')
    | next hnext _ => cases hdone.symm.trans hnext
  | next hnext _ ih =>
    cases h' with
    | done hdone => cases hdone.symm.trans hnext
    | next hnext' h' =>
      obtain rfl := Sum.inr.inj (hnext.symm.trans hnext')
      exact ih h'

theorem Visits.head (h : step s = .inr t) {t' : σ} (h' : Visits step t t') : Visits step s t' := by
  induction h' with
  | start => exact .next .start h
  | next _ hnext ih => exact ih.next hnext

/-- From every state it goes through the loop ends as it does from the first. -/
theorem Ends.of_visits (h : Ends step s r) (hv : Visits step s t) : Ends step t r := by
  induction hv with
  | start => exact h
  | next _ hnext ih =>
    cases ih with
    | done hdone => cases hdone.symm.trans hnext
    | next hnext' h' =>
      obtain rfl := Sum.inr.inj (hnext.symm.trans hnext')
      exact h'

/-- The result is that of the last state. -/
theorem Ends.last (h : Ends step s r) : ∃ t, Visits step s t ∧ step t = .inl r := by
  induction h with
  | done hdone => exact ⟨_, .start, hdone⟩
  | next hnext _ ih =>
    obtain ⟨t, hv, ht⟩ := ih
    exact ⟨t, hv.head hnext, ht⟩

/-- A measure that falls in every round. -/
theorem ends_of_measure (μ : σ → ℕ)
    (h : ∀ t t', Visits step s t → step t = .inr t' → μ t' < μ t) : ∃ r, Ends step s r := by
  induction hn : μ s using Nat.strong_induction_on generalizing s with
  | _ n ih =>
    cases hs : step s with
    | inl r => exact ⟨r, .done hs⟩
    | inr t =>
      have hlt := h s t .start hs
      obtain ⟨r, hr⟩ := ih (μ t) (hn ▸ hlt) (fun u u' hu ↦ h u u' (hu.head hs)) rfl
      exact ⟨r, .next hs hr⟩

/-- A loop that never leaves the invariant does not end. -/
theorem not_ends_of_invariant (inv : σ → Prop)
    (h : ∀ t, inv t → ∃ t', step t = .inr t' ∧ inv t') (hs : inv s) : ¬Ends step s r := by
  intro hend
  induction hend with
  | done hdone =>
    obtain ⟨t', ht', -⟩ := h _ hs
    cases hdone.symm.trans ht'
  | next hnext _ ih =>
    obtain ⟨t', ht', hinv⟩ := h _ hs
    obtain rfl := Sum.inr.inj (hnext.symm.trans ht')
    exact ih hinv

end Loop
