import RvPipeline.Iss.Moves
import RvPipeline.Iss.Raises
import RvPipeline.Iss.TrapStacks
import RvPipeline.Lib.Loop

/-!
# `ISS.run`

The loop that fetches and executes words.  An interrupt that fires and a fetch that faults take a
round of their own, which counts no step.
-/

namespace RvPipeline

namespace Iss

/-! ## The loop -/

/-- What the loop carries: the simulator, `pending_interrupt` as `after` and `cause`, and `steps`. -/
structure RunState where
  σ : Iss
  pending : Option (ℕ × ℕ)
  steps : ℕ

/-- How the loop is left: by a `break`, by the error after the loop, or by one raised in `step`. -/
inductive RunResult where
  | returned (last : RunState)
  | runaway (last : RunState)
  | raised (last : RunState)

/-- Whether the scheduled interrupt fires in this round, and its cause. -/
def RunState.fires (r : RunState) : Option ℕ :=
  match r.pending with
  | none => none
  | some (after, cause) =>
    if after ≤ r.steps ∧ (r.σ.csr csrAddrMstatus >>> 3) &&& 1 ≠ 0 then some cause else none

/-- `jal x0, .` and every other `jal` to itself. -/
def selfLoop (word : BitVec 32) : Bool :=
  opcodeOf word == opcodeJal && IssConfig.jalOffset word == 0

/-- A round of the loop. -/
def runStep (C : IssConfig) (words : List (BitVec 32)) (maxSteps : ℕ) (r : RunState) :
    RunResult ⊕ RunState :=
  if r.steps < maxSteps then
    match r.fires with
    | some cause => .inr { r with σ := r.σ.trap cause 0, pending := none }
    | none =>
      match r.σ.translate C r.σ.pc .fetch with
      | .error σ' => .inr { r with σ := σ' }
      | .ok fetchAddr =>
        if words.length * 4 ≤ fetchAddr then .inl (.returned r)
        else
          let word := words.getD (fetchAddr / 4) 0
          if selfLoop word then .inl (.returned r)
          else
            match r.σ.step C word with
            | none => .inl (.raised r)
            | some σ' => .inr { r with σ := σ', steps := r.steps + 1 }
  else .inl (.runaway r)

/-- What `run` is called with. -/
def RunState.start (σ : Iss) (pending : Option (ℕ × ℕ)) : RunState := ⟨σ, pending, 0⟩

/-- `run` comes to one of its own ends: it returns, or it raises the runaway error. -/
def RunResult.Stops (maxSteps : ℕ) : RunResult → Prop
  | .returned last => last.steps ≤ maxSteps
  | .runaway last => maxSteps ≤ last.steps
  | .raised _ => False

/-! ## What goes wrong -/

def fetchable (C : IssConfig) (σ : Iss) : Bool := (σ.translate C σ.pc .fetch).isOk

/-- A fetch that faults into the S level, whose handler cannot be fetched there either. -/
def RunState.Stuck (C : IssConfig) (r : RunState) : Prop :=
  r.fires = none ∧ r.σ.fetchable C = false ∧ r.σ.trapToS mcauseInstructionPageFault = true ∧
    { r.σ with privMode := privS, pc := r.σ.csr csrAddrStvec }.fetchable C = false

/-- A word is due that raises. -/
def RunState.Raises (C : IssConfig) (words : List (BitVec 32)) (r : RunState) : Prop :=
  r.fires = none ∧ ∃ fetchAddr, r.σ.translate C r.σ.pc .fetch = .ok fetchAddr ∧
    fetchAddr < words.length * 4 ∧ selfLoop (words.getD (fetchAddr / 4) 0) = false ∧
      r.σ.raises C (words.getD (fetchAddr / 4) 0) = true

/-! ## Faults -/

variable {C : IssConfig} {σ τ : Iss} {words : List (BitVec 32)} {maxSteps : ℕ} {r r' : RunState}

theorem fetchable_congr (hmem : τ.mem = σ.mem) (hpriv : τ.privMode = σ.privMode)
    (hsatp : τ.csr csrAddrSatp = σ.csr csrAddrSatp) (hpc : τ.pc = σ.pc) :
    τ.fetchable C = σ.fetchable C := by
  rw [fetchable, fetchable, translate_congr hmem hpriv hsatp, hpc]
  cases σ.translate C σ.pc .fetch <;> rfl

theorem fetchable_privM (h : σ.privMode = privM) : σ.fetchable C = true := by
  rw [fetchable, translate_privM h]
  rfl

theorem trap_of_toS {cause : ℕ} (h : σ.trapToS cause = true) (tval : ℕ) :
    (σ.trap cause tval).privMode = privS ∧ (σ.trap cause tval).pc = σ.csr csrAddrStvec ∧
      (σ.trap cause tval).mem = σ.mem ∧
      (σ.trap cause tval).csr csrAddrSatp = σ.csr csrAddrSatp ∧
      (σ.trap cause tval).csr csrAddrStvec = σ.csr csrAddrStvec ∧
      (σ.trap cause tval).csr csrAddrMedeleg = σ.csr csrAddrMedeleg := by
  rw [trap, if_pos h]
  exact ⟨rfl, rfl, rfl, rfl, rfl, rfl⟩

theorem privMode_trap_of_not_toS {cause : ℕ} (h : σ.trapToS cause = false) (tval : ℕ) :
    (σ.trap cause tval).privMode = privM := by
  rw [trap, h]
  rfl

theorem field_congr {a b i : ℕ} (h : a.testBit i = b.testBit i) : (a >>> i) &&& 1 = (b >>> i) &&& 1 := by
  apply Nat.eq_of_testBit_eq
  intro j
  have ha := testBit_moveBit a i 0 j
  have hb := testBit_moveBit b i 0 j
  rw [Nat.shiftLeft_zero] at ha hb
  rw [ha, hb, h]

/-- A trap to S leaves MIE alone. -/
theorem mie_trap_of_toS {cause : ℕ} (h : σ.trapToS cause = true) (tval : ℕ) :
    ((σ.trap cause tval).csr csrAddrMstatus >>> 3) &&& 1 = (σ.csr csrAddrMstatus >>> 3) &&& 1 := by
  apply field_congr
  rw [trap, if_pos h]
  have hstack := congrFun (testBit_stackS_cut (σ.csr csrAddrMstatus) σ.privMode) 3
  refine hstack.trans ?_
  have hkeep : PrivState.stackS σ.privMode (u32 (σ.csr csrAddrMstatus)).testBit 3 =
      (u32 (σ.csr csrAddrMstatus)).testBit 3 := rfl
  rw [hkeep, testBit_u32]
  rfl

/-- After a trap to S the handler is fetched as the S level fetches it. -/
theorem fetchable_trap_of_toS {cause : ℕ} (h : σ.trapToS cause = true) (tval : ℕ) :
    (σ.trap cause tval).fetchable C =
      { σ with privMode := privS, pc := σ.csr csrAddrStvec }.fetchable C := by
  obtain ⟨hpriv, hpc, hmem, hsatp, -, -⟩ := trap_of_toS h tval
  exact fetchable_congr hmem hpriv hsatp hpc

/-! ## The rounds -/

theorem runStep_fault (hsteps : r.steps < maxSteps) (hfires : r.fires = none)
    (hfetch : r.σ.fetchable C = false) :
    runStep C words maxSteps r =
      .inr { r with σ := r.σ.trap mcauseInstructionPageFault (faultAddress C r.σ.pc) } := by
  rw [runStep, if_pos hsteps, hfires]
  cases ht : r.σ.translate C r.σ.pc .fetch with
  | error σ' =>
    rw [translate_error ht]
    rfl
  | ok addr =>
    rw [fetchable, ht] at hfetch
    cases hfetch

/-- What a round that goes on does. -/
theorem runStep_inr (h : runStep C words maxSteps r = .inr r') :
    r.steps < maxSteps ∧
      ((∃ cause, r.fires = some cause ∧ r' = { r with σ := r.σ.trap cause 0, pending := none }) ∨
      (r.fires = none ∧ r.σ.fetchable C = false ∧
        r' = { r with σ := r.σ.trap mcauseInstructionPageFault (faultAddress C r.σ.pc) }) ∨
      (r.fires = none ∧ r'.pending = r.pending ∧ r'.steps = r.steps + 1)) := by
  by_cases hsteps : r.steps < maxSteps
  · refine ⟨hsteps, ?_⟩
    cases hfires : r.fires with
    | some cause =>
      rw [runStep, if_pos hsteps, hfires] at h
      exact .inl ⟨cause, rfl, (Sum.inr.inj h).symm⟩
    | none =>
      cases ht : r.σ.translate C r.σ.pc .fetch with
      | error σ' =>
        have hfetch : r.σ.fetchable C = false := by rw [fetchable, ht]; rfl
        rw [runStep_fault hsteps hfires hfetch] at h
        exact .inr (.inl ⟨rfl, hfetch, (Sum.inr.inj h).symm⟩)
      | ok addr =>
        rw [runStep, if_pos hsteps, hfires] at h
        simp only [ht] at h
        split_ifs at h
        cases hstep : r.σ.step C (words.getD (addr / 4) 0) with
        | none =>
          rw [hstep] at h
          cases h
        | some σ' =>
          rw [hstep] at h
          cases h
          exact .inr (.inr ⟨rfl, rfl, rfl⟩)
  · rw [runStep, if_neg hsteps] at h
    cases h

/-- A round that is the last. -/
theorem runStep_inl {xlen memSize : ℕ} {res : RunResult}
    (h : runStep (.full xlen memSize) words maxSteps r = .inl res)
    (hraises : r.steps < maxSteps → ¬r.Raises (.full xlen memSize) words) : res.Stops maxSteps := by
  by_cases hsteps : r.steps < maxSteps
  · cases hfires : r.fires with
    | some cause =>
      rw [runStep, if_pos hsteps, hfires] at h
      cases h
    | none =>
      cases ht : r.σ.translate (.full xlen memSize) r.σ.pc .fetch with
      | error σ' =>
        rw [runStep, if_pos hsteps, hfires] at h
        simp only [ht] at h
        cases h
      | ok addr =>
        rw [runStep, if_pos hsteps, hfires] at h
        simp only [ht] at h
        split_ifs at h with hlen hself
        · cases h
          exact hsteps.le
        · cases h
          exact hsteps.le
        · cases hstep : r.σ.step (.full xlen memSize) (words.getD (addr / 4) 0) with
          | none =>
            exact absurd ⟨hfires, addr, ht, not_le.mp hlen, Bool.not_eq_true _ ▸ hself,
              step_eq_none_iff.mp hstep⟩ (hraises hsteps)
          | some σ' =>
            rw [hstep] at h
            cases h
  · rw [runStep, if_neg hsteps] at h
    cases h
    exact not_lt.mp hsteps

/-! ## Termination -/

/-- Inside the loop of faults: the handler faults into itself. -/
def RunState.Spins (C : IssConfig) (maxSteps : ℕ) (r : RunState) : Prop :=
  r.steps < maxSteps ∧ r.fires = none ∧ r.σ.trapToS mcauseInstructionPageFault = true ∧
    r.σ.fetchable C = false ∧
    { r.σ with privMode := privS, pc := r.σ.csr csrAddrStvec }.fetchable C = false

theorem RunState.Stuck.spins (h : r.Stuck C) (hsteps : r.steps < maxSteps) :
    r.Spins C maxSteps :=
  ⟨hsteps, h.1, h.2.2.1, h.2.1, h.2.2.2⟩

/-- A fault in the handler leads to the same fault in the same handler. -/
theorem RunState.Spins.step (h : r.Spins C maxSteps) :
    ∃ r', runStep C words maxSteps r = .inr r' ∧ r'.Spins C maxSteps := by
  obtain ⟨hsteps, hfires, hto, hfetch, hhandler⟩ := h
  refine ⟨_, runStep_fault hsteps hfires hfetch, hsteps, ?_, ?_, ?_, ?_⟩
  · rw [← hfires]
    simp only [RunState.fires, mie_trap_of_toS hto]
  · obtain ⟨hpriv, -, -, -, -, hdeleg⟩ := trap_of_toS hto (faultAddress C r.σ.pc)
    have hdelegated : (r.σ.csr csrAddrMedeleg).testBit (mcauseInstructionPageFault &&& 0x1F) = true :=
      (Bool.and_eq_true_iff.mp hto).2
    have htoS : (r.σ.trap mcauseInstructionPageFault (faultAddress C r.σ.pc)).trapToS
        mcauseInstructionPageFault =
          (privS != privM && (r.σ.csr csrAddrMedeleg).testBit (mcauseInstructionPageFault &&& 0x1F)) := by
      rw [trapToS, hpriv, hdeleg]
      rfl
    rw [htoS, hdelegated]
    rfl
  · rw [← hhandler]
    exact fetchable_trap_of_toS hto _
  · rw [← hhandler]
    obtain ⟨-, -, hmem, hsatp, hstvec, -⟩ := trap_of_toS hto (faultAddress C r.σ.pc)
    exact fetchable_congr hmem rfl hsatp hstvec

theorem RunState.Stuck.not_ends {res : RunResult} (h : r.Stuck C) (hsteps : r.steps < maxSteps) :
    ¬Loop.Ends (runStep C words maxSteps) r res :=
  Loop.not_ends_of_invariant (RunState.Spins C maxSteps) (fun _ ↦ RunState.Spins.step)
    (h.spins hsteps)

/-- The rounds left: four for each step, two for the interrupt and one for a fault. -/
def RunState.measure (C : IssConfig) (maxSteps : ℕ) (r : RunState) : ℕ :=
  4 * (maxSteps - r.steps) + (if r.pending.isSome then 2 else 0) + (if r.σ.fetchable C then 0 else 1)

theorem measure_lt (h : runStep C words maxSteps r = .inr r') (hstuck : ¬r.Stuck C) :
    r'.measure C maxSteps < r.measure C maxSteps := by
  have hfetch : ∀ τ : Iss, (if τ.fetchable C then 0 else 1) ≤ 1 := by
    intro τ
    split_ifs <;> decide
  obtain ⟨hsteps, ⟨cause, hfires, rfl⟩ | ⟨hfires, hfault, rfl⟩ | ⟨-, hpending, hcount⟩⟩ :=
    runStep_inr h
  · -- the interrupt is spent
    have hpending : r.pending.isSome = true := by
      cases hp : r.pending with
      | none => rw [RunState.fires, hp] at hfires; cases hfires
      | some p => rfl
    have hle := hfetch (r.σ.trap cause 0)
    simp only [RunState.measure, hpending, if_true, Option.isSome_none, Bool.false_eq_true, if_false]
    omega
  · -- behind a fault the handler is fetched
    have hhandler : (r.σ.trap mcauseInstructionPageFault (faultAddress C r.σ.pc)).fetchable C =
        true := by
      cases hto : r.σ.trapToS mcauseInstructionPageFault with
      | false => exact fetchable_privM (privMode_trap_of_not_toS hto _)
      | true =>
        rw [fetchable_trap_of_toS hto]
        by_contra hne
        exact hstuck ⟨hfires, hfault, hto, Bool.not_eq_true _ ▸ hne⟩
    simp only [RunState.measure, hfault, hhandler, if_true, Bool.false_eq_true, if_false]
    omega
  · have hle := hfetch r'.σ
    simp only [RunState.measure, hpending, hcount]
    omega

/-- `run` comes to an end of its own exactly if no round is stuck in the faults of its handler and
none is at a word that raises. -/
theorem run_stops_iff (xlen memSize : ℕ) (words : List (BitVec 32)) (maxSteps : ℕ) (σ : Iss)
    (pending : Option (ℕ × ℕ)) :
    (∃ res, Loop.Ends (runStep (.full xlen memSize) words maxSteps) (.start σ pending) res ∧
        res.Stops maxSteps) ↔
      ∀ r, Loop.Visits (runStep (.full xlen memSize) words maxSteps) (.start σ pending) r →
        r.steps < maxSteps →
          ¬r.Stuck (.full xlen memSize) ∧ ¬r.Raises (.full xlen memSize) words := by
  constructor
  · rintro ⟨res, hend, hstops⟩ r hv hsteps
    have hr := hend.of_visits hv
    refine ⟨fun hstuck ↦ hstuck.not_ends hsteps hr, ?_⟩
    rintro ⟨hfires, addr, ht, hlen, hself, hraises⟩
    have hraised : runStep (.full xlen memSize) words maxSteps r = .inl (.raised r) := by
      rw [runStep, if_pos hsteps, hfires]
      simp only [ht, if_neg (not_le.mpr hlen), hself, Bool.false_eq_true, if_false,
        step_eq_none_iff.mpr hraises]
    obtain rfl := hr.unique (.done hraised)
    exact hstops
  · intro h
    have hend : ∃ res, Loop.Ends (runStep (.full xlen memSize) words maxSteps)
      (.start σ pending) res := by
      refine Loop.ends_of_measure (RunState.measure (.full xlen memSize) maxSteps) ?_
      intro r r' hv hstep
      exact measure_lt hstep (h r hv (runStep_inr hstep).1).1
    obtain ⟨res, hres⟩ := hend
    obtain ⟨r, hv, hlast⟩ := hres.last
    exact ⟨res, hres, runStep_inl hlast fun hsteps ↦ (h r hv hsteps).2⟩

/-- Supervisor code on an empty page table, its fetch faults delegated to it. -/
def unmappedIss : Iss :=
  { Iss.init 4096 with
    privMode := privS
    csr := Function.update (Function.update (fun _ ↦ 0) csrAddrSatp (1 <<< 31))
      csrAddrMedeleg (1 <<< mcauseInstructionPageFault) }

/-- The fetch faults for ever; and a load with the reserved width raises another error. -/
theorem not_run_stops :
    (∀ res, ¬Loop.Ends (runStep (.full 32 4096) [0x0000006F#32] 20000) (.start unmappedIss none)
        res) ∧
      Loop.Ends (runStep (.full 32 4096) [0x00007003#32] 20000) (.start (Iss.init 4096) none)
        (.raised (.start (Iss.init 4096) none)) := by
  constructor
  · intro res
    exact RunState.Stuck.not_ends ⟨rfl, by decide, by decide, by decide⟩ (by decide)
  · exact .done rfl

end Iss

end RvPipeline
