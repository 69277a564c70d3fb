import Mathlib.Data.Nat.Notation

/-!
# Clocked machines

A clocked machine has a set of initial states and a transition function of the
state and of an input chosen freshly in every cycle.  This file has the runs of
such a machine, the reachable states, and the invariant rules for both.
-/

universe u v

/-- A synchronous machine. -/
structure Clocked (σ : Type u) (ι : Type v) where
  Init : σ → Prop
  step : σ → ι → σ

namespace Clocked

variable {σ : Type u} {ι : Type v} (M : Clocked σ ι)

/-- The state after `n` cycles from `s`. -/
def run (s : σ) (ins : ℕ → ι) : ℕ → σ
  | 0 => s
  | n + 1 => M.step (run s ins n) (ins n)

@[simp] theorem run_zero (s : σ) (ins : ℕ → ι) : M.run s ins 0 = s := rfl

theorem run_succ (s : σ) (ins : ℕ → ι) (n : ℕ) :
    M.run s ins (n + 1) = M.step (M.run s ins n) (ins n) := rfl

/-- The states some run from an initial state goes through. -/
def Reachable (s : σ) : Prop := ∃ s₀ ins n, M.Init s₀ ∧ M.run s₀ ins n = s

theorem reachable_run {s₀ : σ} (h : M.Init s₀) (ins : ℕ → ι) (n : ℕ) :
    M.Reachable (M.run s₀ ins n) :=
  ⟨s₀, ins, n, h, rfl⟩

/-- The invariant rule along one run: `ok` may be assumed of every step taken. -/
theorem run_invariant (inv : σ → Prop) (ok : σ → ι → Prop) {s₀ : σ} {ins : ℕ → ι}
    (init : inv s₀) (ok_run : ∀ n, ok (M.run s₀ ins n) (ins n))
    (step : ∀ s i, inv s → ok s i → inv (M.step s i)) (n : ℕ) : inv (M.run s₀ ins n) := by
  induction n with
  | zero => exact init
  | succ n ih => exact step _ _ ih (ok_run n)

variable {M}

/-- The invariant rule for reachable states. -/
theorem Reachable.invariant (inv : σ → Prop) (init : ∀ s, M.Init s → inv s)
    (step : ∀ s i, inv s → inv (M.step s i)) {s : σ} (h : M.Reachable s) : inv s := by
  obtain ⟨s₀, ins, n, h₀, rfl⟩ := h
  induction n with
  | zero => exact init s₀ h₀
  | succ n ih => exact step _ _ ih

end Clocked
