import RvPipeline.Core.Invariants

/-!
# With translation off

While `satp` selects no translation (or in M-mode) every address is physical, no lookup
misses, and a walker that is at rest stays at rest.  A program without CSR instructions
never turns translation on.
-/

namespace RvPipeline

variable {w k : ℕ} {P : Params} {s : State w k} {i : Inputs}

/-! ## Wires -/

theorem dtlbNeeded_of_bare (h : translateEnable s = false) : dtlbNeeded s = false := by
  simp [dtlbNeeded, h]

theorem itlbMiss_of_bare (h : translateEnable s = false) (bt : Bool) :
    itlbMiss P s bt = false := by
  simp [itlbMiss, h]

theorem dtlbMiss_of_bare (h : translateEnable s = false) (bt : Bool) :
    dtlbMiss P s bt = false := by
  simp [dtlbMiss, dtlbNeeded, h]

theorem imemPhysAddr_of_bare (h : translateEnable s = false) :
    imemPhysAddr P s = imemReadAddr P s := by
  simp [imemPhysAddr, h]

theorem ptwStart_of_bare (h : translateEnable s = false) : ptwStart P s i = false := by
  simp [ptwStart, ptwReqI, ptwReqD, itlbMiss_of_bare h, dtlbMiss_of_bare h]

/-! ## The walker at rest -/

/-- No walk is under way or reporting, and EX is not waiting for one. -/
structure WalkerIdle (s : State w k) : Prop where
  state : s.ptw.state = .idle
  busy : s.ptw.busy = false
  done : s.ptw.done = false
  miss : s.dtlbMissR = false

theorem WalkerIdle.init (s₀ : State w k) : WalkerIdle (reset P s₀) :=
  ⟨rfl, rfl, rfl, rfl⟩

theorem WalkerIdle.step (h : WalkerIdle s) (hbare : translateEnable s = false) :
    WalkerIdle (step P s i) := by
  have hstart := ptwStart_of_bare (P := P) (i := i) hbare
  have hptw : (RvPipeline.step P s i).ptw = { s.ptw with done := false } := by
    simp [RvPipeline.step, ptwNext, Ptw.step, h.state, hstart]
  refine ⟨?_, ?_, ?_, dtlbMiss_of_bare hbare _⟩
  · rw [hptw]
    exact h.state
  · rw [hptw]
    exact h.busy
  · rw [hptw]

theorem walkerIdle_run {s₀ : State w k} {ins : ℕ → Inputs}
    (hbare : ∀ n, translateEnable (run P s₀ ins n) = false) (n : ℕ) :
    WalkerIdle (run P s₀ ins n) :=
  (core P w k).run_invariant WalkerIdle (fun s _ ↦ translateEnable s = false)
    (WalkerIdle.init s₀) hbare (fun _ _ hs hok ↦ hs.step hok) n

theorem dtlbPageFault_of_bare (hidle : WalkerIdle s) (h : translateEnable s = false) :
    dtlbPageFault P s = false := by
  simp [dtlbPageFault, dtlbHitFault, dtlbNeeded_of_bare h, ptwDoneD, hidle.done]

theorem ifetchFaultIf_of_bare (hidle : WalkerIdle s) (h : translateEnable s = false) :
    ifetchFaultIf P s = false := by
  simp [ifetchFaultIf, itlbHitFault, h, ptwDoneI, hidle.done]

theorem dtlbVaddr_of_idle (hidle : WalkerIdle s) : dtlbVaddr P s = exAluOut P s := by
  simp [dtlbVaddr, hidle.miss]

theorem dtlbStoreData_of_idle (hidle : WalkerIdle s) :
    dtlbStoreData P s = s.reg2.storeData (operands P s) := by
  simp [dtlbStoreData, hidle.miss]

theorem memPaddr_of_bare (hidle : WalkerIdle s) (h : translateEnable s = false) :
    memPaddr P s = exAluOut P s := by
  simp [memPaddr, h, dtlbVaddr_of_idle hidle]

/-! ## What a static property of the program gives -/

section Program

/-- Every word the fetch stage can deliver, and the squash word, has the property. -/
def EveryInst (w : ℕ) (P : Params) (good : BitVec 32 → Prop) : Prop :=
  good nopInst ∧ good 0 ∧ ∀ a : BitVec w, good (expandInst (imemRead P a))

/-- It is enough to look at the addresses inside the instruction memory. -/
theorem everyInst_of_lt {good : BitVec 32 → Prop} (hnop : good nopInst) (hzero : good 0)
    (hout : good (expandInst 0))
    (hin : ∀ n < P.memSizeBytes, good (expandInst (P.insts (n + 3) ++ P.insts (n + 2) ++
      P.insts (n + 1) ++ P.insts n))) :
    EveryInst w P good := by
  refine ⟨hnop, hzero, fun a ↦ ?_⟩
  unfold imemRead instructionMemory
  split_ifs with h
  · exact hout
  · exact hin a.toNat (by omega)

variable {good : BitVec 32 → Prop}

/-- ID and EX hold words with the property. -/
structure InstsGood (good : BitVec 32 → Prop) (s : State w k) : Prop where
  id : good s.reg1.inst
  ex : good s.reg2.inst

theorem InstsGood.step (hgood : EveryInst w P good) (hmode : P.cacheMode = .none)
    (h : InstsGood good s) : InstsGood good (step P s i) := by
  have hfetch : good (instFinal P s) := by
    have := hgood.2.2 (imemPhysAddr P s)
    simpa [instFinal, fetchInst, hmode] using this
  constructor
  · change good (s.reg1.step _ _ (reg1Next P s)).inst
    unfold Reg1.step
    split_ifs
    · exact hgood.1
    · exact h.id
    · exact hfetch
  · change good (s.reg2.step _ _ _ (reg2Next s)).inst
    unfold Reg2.step
    split_ifs
    · exact h.ex
    · exact hgood.1
    · exact h.id
    · exact h.id

theorem instsGood (hgood : EveryInst w P good) (hmode : P.cacheMode = .none)
    (h : Reachable P s) : InstsGood good s := by
  refine h.invariant (InstsGood good) ?_ fun s i hs ↦ hs.step hgood hmode
  rintro _ ⟨s₀, rfl⟩
  exact ⟨hgood.1, hgood.2.1⟩

/-- The instruction in EX is decoded from a word with the property, or is a bubble. -/
theorem ctl_of_instsGood (hgood : EveryInst w P good) (hmode : P.cacheMode = .none)
    (h : Reachable P s) :
    s.reg2.ctl = {} ∨ ∃ inst, good inst ∧ s.reg2.ctl = decodeControl w inst := by
  rcases (reg2_decoded h).control with ⟨hctl, -, -⟩ | ⟨hctl, -⟩
  · exact .inl hctl
  · exact .inr ⟨_, (instsGood hgood hmode h).ex, hctl⟩

/-- Not a CSR instruction. -/
def noCsr (w : ℕ) (inst : BitVec 32) : Prop := (decodeControl w inst).isCsr = false

instance (w : ℕ) (inst : BitVec 32) : Decidable (noCsr w inst) :=
  inferInstanceAs (Decidable (_ = _))

theorem isCsr_of_noCsr (hgood : EveryInst w P (noCsr w)) (hmode : P.cacheMode = .none)
    (h : Reachable P s) : s.reg2.ctl.isCsr = false := by
  rcases ctl_of_instsGood hgood hmode h with hctl | ⟨inst, hinst, hctl⟩
  · rw [hctl]
  · rw [hctl]
    exact hinst

theorem step_satp_of_not_isCsr (h : s.reg2.ctl.isCsr = false) :
    (step P s i).csr.satp = s.csr.satp := by
  simp [step, Csr.next, Csr.nextWith, csrIn, h]

/-- Without CSR instructions `satp` keeps its reset value. -/
theorem satp_of_noCsr (hgood : EveryInst w P (noCsr w)) (hmode : P.cacheMode = .none)
    (h : Reachable P s) : s.csr.satp = 0 := by
  obtain ⟨_, ins, n, ⟨s₀, rfl⟩, rfl⟩ := h
  induction n with
  | zero => rfl
  | succ n ih =>
    have hcsr := isCsr_of_noCsr hgood hmode ((core P w k).reachable_run ⟨s₀, rfl⟩ ins n)
    exact (step_satp_of_not_isCsr hcsr).trans ih

/-- Not a CSR instruction on one of these registers. -/
def avoidsCsr (w : ℕ) (addrs : List (BitVec 12)) (inst : BitVec 32) : Prop :=
  (decodeControl w inst).isCsr = true → (immGen w inst).setWidth 12 ∉ addrs

instance (w : ℕ) (addrs : List (BitVec 12)) (inst : BitVec 32) :
    Decidable (avoidsCsr w addrs inst) :=
  inferInstanceAs (Decidable (_ → _))

theorem csrAddr_of_avoidsCsr {addrs : List (BitVec 12)}
    (hgood : EveryInst w P (avoidsCsr w addrs)) (hmode : P.cacheMode = .none)
    (h : Reachable P s) (hc : s.reg2.ctl.isCsr = true) : s.reg2.csrAddr ∉ addrs := by
  rcases (reg2_decoded h).control with ⟨hctl, -, -⟩ | ⟨hctl, -⟩
  · simp [hctl] at hc
  · rw [Reg2.csrAddr, (reg2_decoded h).fields.imm]
    exact (instsGood hgood hmode h).ex (by rw [← hctl, hc])

/-- Unless an instruction writes it, no interrupt is ever enabled. -/
theorem mie_of_avoidsCsr (hgood : EveryInst w P (avoidsCsr w [csrAddrMie, csrAddrSie]))
    (hmode : P.cacheMode = .none) (h : Reachable P s) : s.csr.mie = 0 := by
  obtain ⟨_, ins, n, ⟨s₀, rfl⟩, rfl⟩ := h
  induction n with
  | zero => rfl
  | succ n ih =>
    have hreach := (core P w k).reachable_run ⟨s₀, rfl⟩ ins n
    refine Eq.trans ?_ ih
    change (step P (run P s₀ ins n) (ins n)).csr.mie = (run P s₀ ins n).csr.mie
    cases hc : (run P s₀ ins n).reg2.ctl.isCsr with
    | false => simp [step, Csr.next, Csr.nextWith, csrIn, hc]
    | true =>
      have hne := csrAddr_of_avoidsCsr hgood hmode hreach hc
      rw [List.mem_pair, not_or] at hne
      have hne' : (run P s₀ ins n).reg2.csrAddr ≠ csrAddrMie ∧
          (run P s₀ ins n).reg2.csrAddr ≠ csrAddrSie := hne
      simp [step, Csr.next, Csr.nextWith, csrIn, hne']

/-- Unless an instruction writes it, `satp` keeps its reset value. -/
theorem satp_of_avoidsCsr (hgood : EveryInst w P (avoidsCsr w [csrAddrSatp]))
    (hmode : P.cacheMode = .none) (h : Reachable P s) : s.csr.satp = 0 := by
  obtain ⟨_, ins, n, ⟨s₀, rfl⟩, rfl⟩ := h
  induction n with
  | zero => rfl
  | succ n ih =>
    have hreach := (core P w k).reachable_run ⟨s₀, rfl⟩ ins n
    refine Eq.trans ?_ ih
    change (step P (run P s₀ ins n) (ins n)).csr.satp = (run P s₀ ins n).csr.satp
    cases hc : (run P s₀ ins n).reg2.ctl.isCsr with
    | false => exact step_satp_of_not_isCsr hc
    | true =>
      have hne := csrAddr_of_avoidsCsr hgood hmode hreach hc
      rw [List.mem_singleton] at hne
      have hne' : (run P s₀ ins n).reg2.csrAddr ≠ csrAddrSatp := hne
      simp [step, Csr.next, Csr.nextWith, csrIn, hne']

theorem interruptRequest_of_mie (h : s.csr.mie = 0) : interruptRequest s = false := by
  simp [interruptRequest, meiPending, msiPending, mtiPending, ssiPending, stiPending, Csr.mieMeie,
    Csr.mieMsie, Csr.mieMtie, Csr.mieSsie, Csr.mieStie, h]

theorem translateEnable_of_satp (h : s.csr.satp = 0) : translateEnable s = false := by
  unfold translateEnable Csr.satpModeVal
  rw [h]
  split_ifs <;> simp

end Program

end RvPipeline
