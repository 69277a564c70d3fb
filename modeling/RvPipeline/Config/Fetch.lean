import RvPipeline.Config.Plain
import RvPipeline.Refine.Parked

/-!
# Branch prediction and the split fetch

Cores that differ only in the branch predictor, or only in the depth of fetch, retire the same
instructions as long as every cycle is safe.  A bubble that carries the prediction of the branch
behind it redirects in its place, and so does a redirect that a stall keeps from the PC; the
split fetch executes the instruction at address 0 twice.
-/

namespace RvPipeline

variable {w k : ℕ}

/-! ## `BRANCH_PREDICTOR` -/

def Params.withPredictor (P : Params) (b : BranchPredictor) : Params := { P with branchPredictor := b }

/-- Repeatable runs with and without the dynamic predictor write the same log. -/
theorem sameLimit_branchPredictor (P : Params) (s₀ : State w k) (ins ins' : ℕ → Inputs)
    (hmode : P.cacheMode = .none)
    (hdyn : ∀ n, Repeatable (P.withPredictor .dynamicBhtBtb)
      (run (P.withPredictor .dynamicBhtBtb) s₀ ins n) (ins n))
    (hstat : ∀ n, Repeatable (P.withPredictor .static)
      (run (P.withPredictor .static) s₀ ins' n) (ins' n)) :
    SameLimit (commitLog (P.withPredictor .dynamicBhtBtb) s₀ ins)
      (commitLog (P.withPredictor .static) s₀ ins') :=
  sameLimit_of_repeatable ⟨rfl, rfl, rfl, rfl⟩ rfl hmode hmode hdyn hstat

/-- Counts down in a loop, whose branch the predictor learns and then mispredicts. -/
def countdownProgram : List (BitVec 32) :=
  [0x00400093,  -- addi x1, x0, 4
   0xfff08093,  -- addi x1, x1, -1
   0xfe101ee3,  -- bne  x0, x1, .-4
   0x0000006f]  -- j    .

def countdownParams : Params := { insts := instsOfWords countdownProgram }

theorem sameLimit_branchPredictor_countdown :
    SameLimit
      (commitLog (countdownParams.withPredictor .dynamicBhtBtb) (default : State 32 2) fun _ ↦ {})
      (commitLog (countdownParams.withPredictor .static) (default : State 32 2) fun _ ↦ {}) := by
  apply sameLimit_branchPredictor countdownParams default _ _ rfl
  · exact repeatable_of_checked (N := 24) rfl rfl (by decide +kernel)
      ⟨by decide +kernel, by decide +kernel, by decide +kernel, by decide +kernel⟩
      (by decide +kernel) (by decide +kernel) fun _ ↦
        ⟨by decide +kernel, by decide +kernel, by decide +kernel, by decide +kernel,
          by decide +kernel, rfl⟩
  · exact repeatable_of_checked (N := 24) rfl rfl (by decide +kernel)
      ⟨by decide +kernel, by decide +kernel, by decide +kernel, by decide +kernel⟩
      (by decide +kernel) (by decide +kernel) fun hP ↦ BranchPredictor.noConfusion hP

def pollProgram : List (BitVec 32) :=
  [0x00100093,  -- addi x1, x0, 1
   0x00102023,  -- sw   x1, 0(x0)
   0x00002183,  -- lw   x3, 0(x0)
   0xfe019ee3,  -- bne  x3, x0, .-4
   0x00128293,  -- addi x5, x5, 1
   0x0000006f]  -- j    .

def pollParams : Params := { insts := instsOfWords pollProgram }

/-- The load-use bubble takes the prediction of the branch behind it, which then vanishes. -/
theorem branchPredictor_differs :
    ¬SameLimit
      (commitLog (pollParams.withPredictor .dynamicBhtBtb) (default : State 32 2) fun _ ↦ {})
      (commitLog (pollParams.withPredictor .static) (default : State 32 2) fun _ ↦ {}) := by
  apply not_sameLimit (fun l ↦ l.c.map Commit.pc) (fun _ _ h ↦ h.2.2.2.map _) 26 26 7 16#32 12#32
  · decide +kernel
  · decide +kernel
  · decide

/-! ## `PIPELINE_PROFILE` -/

def Params.withProfile (P : Params) (p : PipelineProfile) : Params := { P with pipelineProfile := p }

/-- Safe runs of the two fetch depths that take their interrupts at the same instructions write
the same log. -/
theorem sameLimit_pipelineProfile (P : Params) (s₀ : State w k) (ins ins' : ℕ → Inputs)
    (hmode : P.cacheMode = .none)
    (hsplit : ∀ n, Safe (P.withProfile .splitFetch)
      (run (P.withProfile .splitFetch) s₀ ins n) (ins n))
    (hfive : ∀ n, Safe (P.withProfile .fiveStage)
      (run (P.withProfile .fiveStage) s₀ ins' n) (ins' n))
    (hact : SameActions (actions (P.withProfile .splitFetch) s₀ ins)
      (actions (P.withProfile .fiveStage) s₀ ins')) :
    SameLimit (commitLog (P.withProfile .splitFetch) s₀ ins)
      (commitLog (P.withProfile .fiveStage) s₀ ins') :=
  sameLimit_of_sameActions ⟨rfl, rfl, rfl, rfl⟩ rfl hmode hmode hsplit hfive hact

/-- Out of reset both fetch stages hold address 0, so the split fetch retires `addi x1, x1, 1`
twice, as no run of the five-stage pipeline does. -/
theorem pipelineProfile_differs :
    ¬∃ ins', SameLimit
      (commitLog (countParams.withProfile .splitFetch) (default : State 32 0) fun _ ↦ {})
      (commitLog (countParams.withProfile .fiveStage) (default : State 32 0) ins') := by
  rintro ⟨ins', hlim⟩
  have hgood : EveryInst 32 (countParams.withProfile .fiveStage) (plain 32) := countParams_plain
  obtain ⟨m, hm⟩ := hlim.1 8
  have hsplit : ((commitLog (countParams.withProfile .splitFetch) (default : State 32 0)
      (fun _ ↦ {}) 8).c.map Commit.pc)[1]? = some 0 := by decide +kernel
  -- the five-stage pipeline follows the sequential machine, which goes on to address 4
  have hsafe : ∀ n < m, Safe (countParams.withProfile .fiveStage)
      (run (countParams.withProfile .fiveStage) (default : State 32 0) ins' n) (ins' n) :=
    fun n _ ↦ safe_of_plain hgood rfl (run_reachable _ _ _ n) rfl rfl
  have hseq := commitLog_le rfl m hsafe
  rw [actions_of_timeless fun n ↦ timeless_of_plain hgood rfl (run_reachable _ _ _ n)] at hseq
  have hat := getElem?_of_prefix ((hm.trans hseq).2.2.2.map Commit.pc) hsplit
  generalize (actions (countParams.withProfile .fiveStage) (default : State 32 0) ins' m).length = c
    at hat
  match c with
  | 0 => simp [Arch.logActions, Log.empty] at hat
  | 1 => simp [Arch.logActions, Arch.entries, Log.empty] at hat
  | c + 2 =>
    have hnext : ((Arch.reset (countParams.withProfile .fiveStage) (default : State 32 0)).act
        (countParams.withProfile .fiveStage) (.exec resetLines)).pc = 4#32 := by decide +kernel
    have hpc : some 4#32 = some 0#32 := by
      rw [← hnext]
      exact hat
    exact absurd hpc (by decide)

end RvPipeline
