import RvPipeline.Refine.Progress

/-!
# An empty EX is filled

With EX and MEM empty nothing stalls ID but a fetch that has not been answered, or a unit that
works for the bits of a bubble; both end, and the next instruction enters EX.
-/

namespace RvPipeline

variable {w k : ℕ} {P : Params} {s : State w k} {a : Arch w} {i : Inputs}

/-! ## Hazards against bubbles -/

section Quiet

variable (hreach : Reachable P s) (hval : s.reg2.valid = false)

include hval

/-- The bits of a float load in a bubble are those of the load in ID. -/
theorem Sim.floatLoadUseHazard_of_bubble (h : Sim P s a) : floatLoadUseHazard s = false := by
  cases hl : s.reg2.isLoadFp with
  | false => simp [floatLoadUseHazard, hl]
  | true =>
    obtain ⟨-, hinst⟩ := h.bubble hval (by simp [hl])
    have hop : opcodeOf s.reg1.inst = opcodeLoadFp := by
      rw [← hinst]
      simpa [Reg2.isLoadFp, Reg2.opcode] using hl
    simp only [floatLoadUseHazard, rs1IsFloatFd, rs2IsFloatFd, isFmaFd, hop]
    simp [opcodeLoadFp, opcodeFp, opcodeStoreFp, isFmaOpcode, opcodeMadd, opcodeMsub, opcodeNmsub,
      opcodeNmadd]

include hreach

theorem divStall_of_bubble : divStall s = false := by
  have halu := (bubble_cases (reg2_decoded hreach) (bubbleInv hreach) hval).2
  simp [divStall, Reg2.isDivRem, halu]

/-- With EX and MEM empty no operand is outstanding. -/
theorem hazardStall_of_bubble (hs : s.reg3.Silent) (bt : Bool) : hazardStall P s bt = false := by
  have hctl := (bubble_cases (reg2_decoded hreach) (bubbleInv hreach) hval).1
  have hrd := writeToReg_of_bubble (reg2_decoded hreach) (bubbleInv hreach) hval
  unfold hazardStall
  cases P.hazardStrategy with
  | forwarding => rcases hctl with hc | hc <;> simp [hazard, hc]
  | noForward =>
    cases hx : s.reg3.regWrite with
    | false => simp [hazardNoForward, hrd]
    | true => simp [hazardNoForward, hrd, hs.x hx]

end Quiet

/-! ## The fetch latency -/

/-- The address at the instruction memory has been served. -/
def Served (P : Params) (s : State w k) : Prop :=
  s.imem.model.busy = false ∧ s.imem.servedValid = true ∧ s.imem.servedAddr = imemPhysAddr P s

/-- Cycles until the address is served, at most. -/
def fetchCost (P : Params) (s : State w k) : ℕ :=
  (if s.imem.model.busy then s.imem.model.count + 2
    else if s.imem.model.done then 1 else P.memLatencyI + 3) +
    (if s.imem.abandoned then P.memLatencyI + 5 else 0)

theorem imemWait_of_served (h : Served P s) (bt : Bool) : imemWait P s bt = false := by
  obtain ⟨hb, hv, ha⟩ := h
  simp [imemWait, imemLatencyStart, imemNewAddr, hb, hv, ha]

section Fetch

variable (hbare : translateEnable s = false) (hbt : branchTaken P s i = false)
  (hext : s.redirectSquashExtend = false) (hstay : imemPhysAddr P (step P s i) = imemPhysAddr P s)

include hbt hstay

theorem Served.step (h : Served P s) : Served P (step P s i) := by
  obtain ⟨hb, hv, ha⟩ := h
  have hstart : imemLatencyStart P s false = false := by
    simp [imemLatencyStart, imemNewAddr, hv, ha]
  refine ⟨?_, ?_, ?_⟩
  · change (s.imem.model.step P.memLatencyI (imemLatencyStart P s (branchTaken P s i))).busy = false
    simp [hbt, hstart, LatencyModel.step, hb]
  · change (s.imem.model.done && !s.imem.abandoned || s.imem.servedValid) = true
    simp [hv]
  · change (if s.imem.model.done && !s.imem.abandoned then imemPhysAddr P s
      else s.imem.servedAddr) = _
    rw [hstay, ha, ite_self]

include hbare hext

theorem fetchCost_step (h : ¬Served P (RvPipeline.step P s i)) :
    fetchCost P (RvPipeline.step P s i) < fetchCost P s := by
  have hmodel : (RvPipeline.step P s i).imem.model =
      s.imem.model.step P.memLatencyI (imemLatencyStart P s (branchTaken P s i)) := rfl
  have hab : (RvPipeline.step P s i).imem.abandoned =
      if s.imem.model.done then false else s.imem.abandoned := by
    change (if s.imem.model.busy && branchTaken P s i then true
      else if s.imem.model.done then false else s.imem.abandoned) = _
    simp [hbt]
  have hserved : (RvPipeline.step P s i).imem.servedValid =
        (s.imem.model.done && !s.imem.abandoned || s.imem.servedValid) ∧
      (RvPipeline.step P s i).imem.servedAddr =
        (if s.imem.model.done && !s.imem.abandoned then imemPhysAddr P s
          else s.imem.servedAddr) := ⟨rfl, rfl⟩
  unfold fetchCost
  rw [hmodel, hab]
  unfold LatencyModel.step
  cases hb : s.imem.model.busy with
  | true =>
    simp only [Bool.not_true, Bool.and_false, Bool.false_eq_true, if_false, if_true]
    have hle : (if (if s.imem.model.done then false else s.imem.abandoned) then
        P.memLatencyI + 5 else 0) ≤ if s.imem.abandoned then P.memLatencyI + 5 else 0 := by
      cases s.imem.model.done <;> simp
    by_cases hc : s.imem.model.count = 0
    · simp only [hc, if_true, Bool.false_eq_true, if_false]
      omega
    · simp only [hc, if_false, if_true]
      omega
  | false =>
    cases hd : s.imem.model.done with
    | true =>
      cases ha : s.imem.abandoned with
      | false =>
        exfalso
        apply h
        refine ⟨?_, ?_, ?_⟩
        · rw [hmodel]
          simp [LatencyModel.step, hb, hd, imemLatencyStart]
        · rw [hserved.1, hd, ha]
          rfl
        · rw [hserved.2, hd, ha, hstay]
          rfl
      | true =>
        simp [imemLatencyStart, hd]
        omega
    | false =>
      cases hnew : imemNewAddr P s with
      | true =>
        simp [imemLatencyStart, hnew, hb, hd, hbare, hbt, hext]
      | false =>
        exfalso
        simp only [imemNewAddr, Bool.or_eq_false_iff, Bool.not_eq_false', bne_eq_false_iff_eq]
          at hnew
        apply h
        refine ⟨?_, ?_, ?_⟩
        · rw [hmodel]
          simp [LatencyModel.step, hb, imemLatencyStart, imemNewAddr, hnew]
        · rw [hserved.1, hnew.1, Bool.or_true]
        · rw [hserved.2, hd, hstay]
          exact hnew.2.symm

end Fetch

/-! ## Runs -/

theorem cycleActions_eq_nil (h : cycleActions P s i = []) :
    executes P s i = false ∧ interruptTaken P s i = false := by
  unfold cycleActions at h
  split_ifs at h with h1 h2 h2
  · simp at h
  · simp at h
  · simp at h
  · exact ⟨by simpa using h1, by simpa using h2⟩

section Runs

variable {s₀ : State w k} {ins : ℕ → Inputs} (hmode : P.cacheMode = .none)
  (hsafe : ∀ n, Safe P (run P s₀ ins n) (ins n))

include hmode hsafe

/-- An instruction in EX leaves it. -/
theorem exists_executes {n : ℕ} (hval : (run P s₀ ins n).reg2.valid = true) :
    ∃ m, n ≤ m ∧ executes P (run P s₀ ins m) (ins m) = true := by
  obtain ⟨m, hm, hmove, hval'⟩ := exists_first
    (q := fun m ↦ (run P s₀ ins m).reg2.valid = true) (exists_moving hmode hsafe)
    (fun m hq hne ↦ by
      change (step P (run P s₀ ins m) (ins m)).reg2.valid = true
      rwa [step_reg2_of_hold (by simpa using hne)]) hval
  exact ⟨m, hm, executes_of_commit hval' hmove⟩

/-- With EX and MEM empty for good, fetch moves again and again. -/
theorem exists_fetch {n : ℕ} (hval : ∀ m, n ≤ m → (run P s₀ ins m).reg2.valid = false)
    (hsilent : ∀ m, n ≤ m → (run P s₀ ins m).reg3.Silent)
    (hbt : ∀ m, n ≤ m → branchTaken P (run P s₀ ins m) (ins m) = false)
    (hext : ∀ m, n ≤ m → (run P s₀ ins m).redirectSquashExtend = false) {n' : ℕ} (hn : n ≤ n') :
    ∃ m, n' ≤ m ∧ pcStall P (run P s₀ ins m) (ins m) = false := by
  by_contra hno
  push Not at hno
  have hstall : ∀ m, n' ≤ m → pcStall P (run P s₀ ins m) (ins m) = true := by
    intro m hm
    simpa using hno m hm
  have hflush : ∀ m, n' ≤ m → reg2Flush P (run P s₀ ins m) (ins m) =
      imemWait P (run P s₀ ins m) false := by
    intro m hm
    have hsim := sim_always hmode hsafe m
    have hreach := run_reachable P s₀ ins m
    simp [reg2Flush, hbt m (by omega), itlbMiss_of_bare (hsafe m).bare, icacheMiss, icacheHit, hmode,
      hazardStall_of_bubble hreach (hval m (by omega)) (hsilent m (by omega)),
      Sim.floatLoadUseHazard_of_bubble (hval m (by omega)) hsim]
  have hstay : ∀ m, n' ≤ m → imemPhysAddr P (run P s₀ ins (m + 1)) =
      imemPhysAddr P (run P s₀ ins m) := by
    intro m hm
    rw [imemPhysAddr_of_bare (hsafe (m + 1)).bare, imemPhysAddr_of_bare (hsafe m).bare]
    have hpc : (run P s₀ ins (m + 1)).pc = (run P s₀ ins m).pc ∧
        (run P s₀ ins (m + 1)).reg1a = (run P s₀ ins m).reg1a := by
      change (step P _ _).pc = _ ∧ (step P _ _).reg1a = _
      simp [step, pcStep, Reg1a.step, hstall m hm]
    unfold imemReadAddr
    rw [hpc.1, hpc.2]
  -- the address is served, and stays so as long as fetch does not move
  obtain ⟨m₁, hm₁, hserved⟩ := exists_of_rank
    (p := fun m ↦ Served P (run P s₀ ins (m + 1))) (fun m ↦ fetchCost P (run P s₀ ins m)) n'
    fun m hm hne ↦ fetchCost_step (hsafe m).bare (hbt m (by omega)) (hext m (by omega))
      (hstay m hm) hne
  have hserved' : ∀ m, m₁ + 1 ≤ m → Served P (run P s₀ ins m) := by
    intro m hm
    induction m, hm using Nat.le_induction with
    | base => exact hserved
    | succ m hm ih => exact ih.step (hbt m (by omega)) (hstay m (by omega))
  obtain ⟨m₂, hm₂, hmove⟩ := exists_moving hmode hsafe (m₁ + 1)
  have hgo := hstall m₂ (by omega)
  rw [pcStall_eq, hmove, hflush m₂ (by omega), imemWait_of_served (hserved' m₂ hm₂)] at hgo
  exact Bool.noConfusion hgo

/-- A safe run never stops executing. -/
theorem exists_action (n : ℕ) :
    ∃ m, n ≤ m ∧ cycleActions P (run P s₀ ins m) (ins m) ≠ [] := by
  by_contra hno
  push Not at hno
  have hnone := fun m hm ↦ cycleActions_eq_nil (hno m hm)
  have hval : ∀ m, n ≤ m → (run P s₀ ins m).reg2.valid = false := by
    intro m hm
    by_contra hne
    obtain ⟨m', hm', hexe⟩ := exists_executes hmode hsafe (by simpa using hne)
    rw [(hnone m' (by omega)).1] at hexe
    exact Bool.noConfusion hexe
  have hbt : ∀ m, n ≤ m → branchTaken P (run P s₀ ins m) (ins m) = false := by
    intro m hm
    have hsim := sim_always hmode hsafe m
    rw [branchTaken, hsim.not_redirect_of_bubble (run_reachable P s₀ ins m) (hsafe m) (hval m hm),
      (hnone m hm).2]
    rfl
  have hext : ∀ m, n + 1 ≤ m → (run P s₀ ins m).redirectSquashExtend = false := by
    intro m hm
    obtain ⟨m', rfl⟩ : ∃ m', m = m' + 1 := ⟨m - 1, by omega⟩
    change (P.pipelineProfile == .splitFetch && branchTaken P (run P s₀ ins m') (ins m')) = false
    rw [hbt m' (by omega), Bool.and_false]
  -- once MEM has moved, only bubbles follow
  obtain ⟨m₁, hm₁, hfree⟩ := exists_free hmode hsafe n
  have hnext : ∀ m, n ≤ m → memHold P (run P s₀ ins m) = false →
      (run P s₀ ins (m + 1)).reg3.Silent := by
    intro m hm hmem
    have hreach := run_reachable P s₀ ins m
    change (step P (run P s₀ ins m) (ins m)).reg3.Silent
    rw [step_reg3_of_move hmem]
    exact reg3Next_silent_of_bubble (reg2_decoded hreach) (bubbleInv hreach) (hval m hm)
  have hsilent : ∀ m, m₁ + 1 ≤ m → (run P s₀ ins m).reg3.Silent := by
    intro m hm
    induction m, hm using Nat.le_induction with
    | base => exact hnext m₁ hm₁ hfree
    | succ m hm ih => exact hnext m (by omega) (memHold_of_silent hmode ih)
  have hfetch := fun (n' : ℕ) (hn : m₁ + 1 ≤ n') ↦ exists_fetch hmode hsafe (n := m₁ + 1)
    (fun m hm ↦ hval m (by omega)) hsilent (fun m hm ↦ hbt m (by omega))
    (fun m hm ↦ hext m (by omega)) hn
  -- the first move fills ID
  obtain ⟨m₂, hm₂, hgo₂⟩ := hfetch (m₁ + 1) le_rfl
  have hid : ∀ m, m₂ + 1 ≤ m → (run P s₀ ins m).idBubble = false := by
    intro m hm
    induction m, hm using Nat.le_induction with
    | base =>
      change (step P (run P s₀ ins m₂) (ins m₂)).idBubble = false
      simp [step, hbt m₂ (by omega), hext m₂ (by omega), hgo₂]
    | succ m hm ih =>
      change (step P (run P s₀ ins m) (ins m)).idBubble = false
      simp [step, hbt m (by omega), hext m (by omega), ih]
  -- the second takes it to EX
  obtain ⟨m₃, hm₃, hgo₃⟩ := hfetch (m₂ + 1) (by omega)
  have hno := hval (m₃ + 1) (by omega)
  rw [pcStall_eq, Bool.or_eq_false_iff] at hgo₃
  change (step P (run P s₀ ins m₃) (ins m₃)).reg2.valid = false at hno
  simp [step, Reg2.step, hgo₃, hbt m₃ (by omega), reg2Next, hid m₃ hm₃] at hno

/-- The number of actions grows beyond all bounds. -/
theorem actions_unbounded (c : ℕ) : ∃ n, c ≤ (actions P s₀ ins n).length := by
  induction c with
  | zero => exact ⟨0, Nat.zero_le _⟩
  | succ c ih =>
    obtain ⟨n, hn⟩ := ih
    obtain ⟨m, hm, hact⟩ := exists_action hmode hsafe n
    refine ⟨m + 1, ?_⟩
    have hmono : (actions P s₀ ins n).length ≤ (actions P s₀ ins m).length := by
      clear hact
      induction m, hm using Nat.le_induction with
      | base => exact le_rfl
      | succ m hm ih =>
        rw [actions, List.length_append]
        omega
    have hpos : 0 < (cycleActions P (run P s₀ ins m) (ins m)).length :=
      List.length_pos_of_ne_nil hact
    rw [actions, List.length_append]
    omega

end Runs

end RvPipeline
