import RvPipeline.Refine.Step
import RvPipeline.Lib.Trace

/-!
# Whole runs

As long as every cycle is safe, the core after `n` cycles is related to the sequential machine
after the actions of these cycles, and what it has committed and has in flight is the log of
these actions.
-/

namespace RvPipeline

variable {w k : ℕ}

section Defs

variable (P : Params) (s₀ : State w k) (ins : ℕ → Inputs)

/-- What the core has committed before cycle `n`. -/
def commitLog : ℕ → Log w
  | 0 => .empty
  | n + 1 => commitLog n ++ cycleLog P (run P s₀ ins n) (ins n)

/-- The instructions executed and the interrupts taken before cycle `n`. -/
def actions : ℕ → List (Action w)
  | 0 => []
  | n + 1 => actions n ++ cycleActions P (run P s₀ ins n) (ins n)

end Defs

/-! ## Lists of actions -/

namespace Arch

variable {P : Params} {l l' : List (Action w)} {a : Arch w}

theorem runActions_append : a.runActions P (l ++ l') = (a.runActions P l).runActions P l' :=
  List.foldl_append

theorem logActions_append :
    a.logActions P (l ++ l') = a.logActions P l ++ (a.runActions P l).logActions P l' := by
  induction l generalizing a with
  | nil =>
    change a.logActions P l' = Log.empty ++ a.logActions P l'
    ext1 <;> simp [Log.empty]
  | cons act l ih =>
    change a.entries P act ++ (a.act P act).logActions P (l ++ l') = _
    rw [ih, ← Log.append_assoc]
    rfl

theorem logActions_mono (h : l <+: l') : a.logActions P l ≤ a.logActions P l' := by
  obtain ⟨r, rfl⟩ := h
  rw [logActions_append]
  exact Log.le_append _ _

end Arch

/-! ## The simulation over a run -/

section Runs

variable {P : Params} {s₀ : State w k} {ins : ℕ → Inputs} (hmode : P.cacheMode = .none)

include hmode

theorem sim_run (n : ℕ) (hsafe : ∀ m < n, Safe P (run P s₀ ins m) (ins m)) :
    Sim P (run P s₀ ins n) ((Arch.reset P s₀).runActions P (actions P s₀ ins n)) := by
  induction n with
  | zero => exact Sim.init s₀
  | succ n ih =>
    have hsim := ih fun m hm ↦ hsafe m (Nat.lt_succ_of_lt hm)
    have hstep := hsim.cycle hmode (run_reachable P s₀ ins n) (hsafe n (Nat.lt_succ_self n))
    rw [actions, Arch.runActions_append]
    exact hstep

theorem log_run (n : ℕ) (hsafe : ∀ m < n, Safe P (run P s₀ ins m) (ins m)) :
    commitLog P s₀ ins n ++ inFlight (run P s₀ ins n) =
      (Arch.reset P s₀).logActions P (actions P s₀ ins n) := by
  induction n with
  | zero =>
    ext1 <;> simp [commitLog, inFlight, actions, run, reset, Reg3.reset, Reg4.reset, xEntry, fEntry,
      mEntry, Arch.logActions, Log.empty]
  | succ n ih =>
    have hsim := sim_run hmode n fun m hm ↦ hsafe m (Nat.lt_succ_of_lt hm)
    have hstep := hsim.log_step hmode (run_reachable P s₀ ins n) (hsafe n (Nat.lt_succ_self n))
    have hprev := ih fun m hm ↦ hsafe m (Nat.lt_succ_of_lt hm)
    rw [actions, Arch.logActions_append, ← hprev, commitLog, Log.append_assoc, Log.append_assoc,
      ← hstep]
    rfl

/-- What is committed is a part of what the sequential machine does. -/
theorem commitLog_le (n : ℕ) (hsafe : ∀ m < n, Safe P (run P s₀ ins m) (ins m)) :
    commitLog P s₀ ins n ≤ (Arch.reset P s₀).logActions P (actions P s₀ ins n) := by
  rw [← log_run hmode n hsafe]
  exact Log.le_append _ _

end Runs

end RvPipeline
