import RvPipeline.Refine.Liveness

/-!
# Two cores with the same program

Two safe runs of cores that share program and memory size write the same log if they take
their interrupts at the same places; without interrupts they always do.
-/

namespace RvPipeline

variable {w k k' : ℕ} {P P' : Params} {s : State w k} {s₀ : State w k} {s₀' : State w k'}
  {ins ins' : ℕ → Inputs} {i : Inputs}

/-- Same program and same memory; the organisation of the core may differ. -/
structure SameProgram (P P' : Params) : Prop where
  insts : P.insts = P'.insts
  memSizeBytes : P.memSizeBytes = P'.memSizeBytes
  dataInitFile : P.dataInitFile = P'.dataInitFile
  zeroInitLimitOverride : P.zeroInitLimitOverride = P'.zeroInitLimitOverride

/-- Each of two growing lists is overtaken by the other. -/
def SameActions (f g : ℕ → List (Action w)) : Prop :=
  (∀ n, ∃ m, f n <+: g m) ∧ ∀ n, ∃ m, g n <+: f m

theorem SameProgram.act (h : SameProgram P P') (act : Action w) (a : Arch w) :
    a.act P act = a.act P' act ∧ a.entries P act = a.entries P' act := by
  obtain ⟨h1, h2, -, -⟩ := h
  cases P
  cases P'
  simp only at h1 h2
  subst h1 h2
  cases act with
  | exec p => exact ⟨rfl, rfl⟩
  | interrupt cause => exact ⟨rfl, rfl⟩

theorem SameProgram.logActions (h : SameProgram P P') (l : List (Action w)) (a : Arch w) :
    a.logActions P l = a.logActions P' l := by
  induction l generalizing a with
  | nil => rfl
  | cons act l ih =>
    obtain ⟨hact, hentries⟩ := h.act act a
    rw [Arch.logActions, Arch.logActions, hact, hentries, ih]

theorem SameProgram.reset (h : SameProgram P P')
    (hmem : s₀.ram.dataMemory = s₀'.ram.dataMemory) : Arch.reset P s₀ = Arch.reset P' s₀' := by
  obtain ⟨-, h2, h3, h4⟩ := h
  have hzero : P.zeroInitLimit = P'.zeroInitLimit := by
    rw [Params.zeroInitLimit, Params.zeroInitLimit, h2, h4]
  simp only [Arch.reset, RamPort.reset]
  rw [hzero, h2, h3, hmem]

section Equiv

variable (hP : SameProgram P P') (hmem : s₀.ram.dataMemory = s₀'.ram.dataMemory)
  (hmode : P.cacheMode = .none) (hmode' : P'.cacheMode = .none)
  (hsafe : ∀ n, Safe P (run P s₀ ins n) (ins n))
  (hsafe' : ∀ n, Safe P' (run P' s₀' ins' n) (ins' n))

include hP hmem hmode hmode' hsafe hsafe'

theorem commitLog_overtaken
    (hact : ∀ n, ∃ m, actions P s₀ ins n <+: actions P' s₀' ins' m) (n : ℕ) :
    ∃ m, commitLog P s₀ ins n ≤ commitLog P' s₀' ins' m := by
  obtain ⟨m₁, hm₁⟩ := hact n
  obtain ⟨m₂, hm₂⟩ := commitLog_overtakes hmode' hsafe' m₁
  refine ⟨m₂, ?_⟩
  calc commitLog P s₀ ins n
      ≤ (Arch.reset P s₀).logActions P (actions P s₀ ins n) :=
        commitLog_le hmode n fun m _ ↦ hsafe m
    _ ≤ (Arch.reset P s₀).logActions P (actions P' s₀' ins' m₁) := Arch.logActions_mono hm₁
    _ = (Arch.reset P' s₀').logActions P' (actions P' s₀' ins' m₁) := by
        rw [hP.logActions, hP.reset hmem]
    _ ≤ commitLog P' s₀' ins' m₂ := hm₂

/-- Safe runs that execute the same instructions and take the same interrupts write the same
log. -/
theorem sameLimit_of_sameActions
    (hact : SameActions (actions P s₀ ins) (actions P' s₀' ins')) :
    SameLimit (commitLog P s₀ ins) (commitLog P' s₀' ins') := by
  have hP' : SameProgram P' P :=
    ⟨hP.insts.symm, hP.memSizeBytes.symm, hP.dataInitFile.symm, hP.zeroInitLimitOverride.symm⟩
  exact ⟨commitLog_overtaken hP hmem hmode hmode' hsafe hsafe' hact.1,
    commitLog_overtaken hP' hmem.symm hmode' hmode hsafe' hsafe hact.2⟩

end Equiv

/-! ## Runs without interrupts -/

/-- Nothing in the cycle depends on time: no interrupt is taken, and the interrupt lines are
read only as they were at reset. -/
structure Timeless (P : Params) (s : State w k) (i : Inputs) : Prop where
  quiet : interruptTaken P s i = false
  lines : s.reg2.valid = true → s.reg2.readsLines = true → pending s = resetLines

/-- A safe cycle that a core of any other organisation repeats. -/
structure Repeatable (P : Params) (s : State w k) (i : Inputs) : Prop
    extends Safe P s i, Timeless P s i

theorem cycleActions_of_timeless (h : Timeless P s i) :
    cycleActions P s i = if executes P s i then [.exec resetLines] else [] := by
  unfold cycleActions
  rw [h.quiet, if_neg Bool.false_ne_true, List.append_nil]
  split_ifs with hexe
  · simp only [executes, Bool.and_eq_true] at hexe
    unfold RvPipeline.lines
    cases hl : s.reg2.readsLines with
    | false => rfl
    | true => rw [if_pos rfl, h.lines hexe.1 hl]
  · rfl

theorem actions_of_timeless (h : ∀ n, Timeless P (run P s₀ ins n) (ins n)) (n : ℕ) :
    actions P s₀ ins n = List.replicate (actions P s₀ ins n).length (.exec resetLines) := by
  apply List.eq_replicate_of_mem
  induction n with
  | zero => simp [actions]
  | succ n ih =>
    intro act hmem
    rw [actions, List.mem_append] at hmem
    rcases hmem with hmem | hmem
    · exact ih act hmem
    · rw [cycleActions_of_timeless (h n)] at hmem
      split_ifs at hmem
      · simpa using hmem
      · simp at hmem

theorem actions_overtaken (hmode' : P'.cacheMode = .none)
    (h : ∀ n, Timeless P (run P s₀ ins n) (ins n))
    (h' : ∀ n, Repeatable P' (run P' s₀' ins' n) (ins' n)) (n : ℕ) :
    ∃ m, actions P s₀ ins n <+: actions P' s₀' ins' m := by
  obtain ⟨m, hm⟩ := actions_unbounded hmode' (fun j ↦ (h' j).toSafe) (actions P s₀ ins n).length
  refine ⟨m, ?_⟩
  rw [actions_of_timeless h n, actions_of_timeless (fun j ↦ (h' j).toTimeless) m]
  obtain ⟨d, hd⟩ := Nat.exists_eq_add_of_le hm
  rw [hd, List.replicate_add]
  exact List.prefix_append _ _

/-- Runs of cores with the same program write the same log if all their cycles are repeatable. -/
theorem sameLimit_of_repeatable (hP : SameProgram P P')
    (hmem : s₀.ram.dataMemory = s₀'.ram.dataMemory) (hmode : P.cacheMode = .none)
    (hmode' : P'.cacheMode = .none) (h : ∀ n, Repeatable P (run P s₀ ins n) (ins n))
    (h' : ∀ n, Repeatable P' (run P' s₀' ins' n) (ins' n)) :
    SameLimit (commitLog P s₀ ins) (commitLog P' s₀' ins') :=
  sameLimit_of_sameActions hP hmem hmode hmode' (fun n ↦ (h n).toSafe) (fun n ↦ (h' n).toSafe)
    ⟨actions_overtaken hmode' (fun n ↦ (h n).toTimeless) h',
      actions_overtaken hmode (fun n ↦ (h' n).toTimeless) h⟩

/-! ## Logs that differ -/

theorem commitLog_mono : Monotone (commitLog P s₀ ins) :=
  monotone_nat_of_le_succ fun _ ↦ Log.le_append _ _

/-- The address of an instruction that retires, or at which an interrupt resumes. -/
def Commit.pc : Commit w → BitVec w
  | .instr pc _ => pc
  | .interrupt resume _ => resume

theorem getElem?_of_prefix {α : Type} {l u : List α} {j : ℕ} {e : α} (h : l <+: u)
    (hl : l[j]? = some e) : u[j]? = some e := by
  obtain ⟨r, rfl⟩ := h
  obtain ⟨hj, -⟩ := List.getElem?_eq_some_iff.1 hl
  rwa [List.getElem?_append_left hj]

/-- Logs of which some view differs at one place have different limits. -/
theorem not_sameLimit {α : Type} (view : Log w → List α)
    (hview : ∀ l l', l ≤ l' → view l <+: view l') (n m j : ℕ) (e e' : α)
    (h : (view (commitLog P s₀ ins n))[j]? = some e)
    (h' : (view (commitLog P' s₀' ins' m))[j]? = some e') (hne : e ≠ e') :
    ¬SameLimit (commitLog P s₀ ins) (commitLog P' s₀' ins') := by
  intro hlim
  obtain ⟨m₁, hm₁⟩ := hlim.1 n
  have hup : commitLog P' s₀' ins' m₁ ≤ commitLog P' s₀' ins' (max m₁ m) :=
    commitLog_mono (le_max_left m₁ m)
  have hup' : commitLog P' s₀' ins' m ≤ commitLog P' s₀' ins' (max m₁ m) :=
    commitLog_mono (le_max_right m₁ m)
  have hat := getElem?_of_prefix (hview _ _ (hm₁.trans hup)) h
  have hat' := getElem?_of_prefix (hview _ _ hup') h'
  exact hne (Option.some.inj (hat.symm.trans hat'))

end RvPipeline
