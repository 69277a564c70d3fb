import RvPipeline.Refine.Equiv

/-!
# Plain programs

A program without memory accesses, CSR instructions, float arithmetic and register-register
operations meets the conditions of the simulation in every cycle, on every input.
-/

namespace RvPipeline

variable {w k : ℕ} {P : Params} {s : State w k} {i : Inputs}

def plain (w : ℕ) (inst : BitVec 32) : Prop :=
  (decodeControl w inst).isCsr = false ∧ (decodeControl w inst).isAmo = false ∧
    (decodeControl w inst).memRead = false ∧ (decodeControl w inst).memWrite = false ∧
    (decodeControl w inst).aluOp ≠ .rtype ∧ isFloatArith inst = false ∧
    opcodeOf inst ≠ opcodeLoadFp

instance (w : ℕ) (inst : BitVec 32) : Decidable (plain w inst) :=
  inferInstanceAs (Decidable (_ ∧ _))

section Plain

variable (hgood : EveryInst w P (plain w)) (hmode : P.cacheMode = .none) (hreach : Reachable P s)

include hgood hmode hreach

theorem ctl_of_plain : s.reg2.ctl.isCsr = false ∧ s.reg2.ctl.isAmo = false ∧
    s.reg2.ctl.memRead = false ∧ s.reg2.ctl.memWrite = false ∧ s.reg2.ctl.aluOp ≠ .rtype := by
  rcases ctl_of_instsGood hgood hmode hreach with hctl | ⟨inst, hinst, hctl⟩
  · rw [hctl]
    decide
  · obtain ⟨h1, h2, h3, h4, h5, -, -⟩ := hinst
    rw [hctl]
    exact ⟨h1, h2, h3, h4, h5⟩

theorem bits_of_plain : (s.reg2.isOpFp || s.reg2.isFma) = false ∧ s.reg2.isLoadFp = false := by
  obtain ⟨-, -, -, -, -, h6, h7⟩ := (instsGood hgood hmode hreach).ex
  exact ⟨h6, by simpa [Reg2.isLoadFp, Reg2.opcode] using h7⟩

theorem satp_of_plain : s.csr.satp = 0 := by
  apply satp_of_noCsr ?_ hmode hreach
  exact ⟨hgood.1.1, hgood.2.1.1, fun a ↦ (hgood.2.2 a).1⟩

end Plain

/-- Nothing is in MEM that accesses memory, and no interrupt is enabled. -/
structure PlainInv (s : State w k) : Prop where
  read : s.reg3.memRead = false
  write : s.reg3.memWrite = false
  amo : s.reg3.isAmo = false
  mie : s.csr.mie = 0

theorem plainInv (hgood : EveryInst w P (plain w)) (hmode : P.cacheMode = .none)
    (hreach : Reachable P s) : PlainInv s := by
  obtain ⟨_, ins, n, ⟨s₀, rfl⟩, rfl⟩ := hreach
  induction n with
  | zero => exact ⟨rfl, rfl, rfl, rfl⟩
  | succ n ih =>
    obtain ⟨hcsr, hamo, hr, hw, -⟩ := ctl_of_plain hgood hmode (run_reachable P s₀ ins n)
    change PlainInv (step P (run P s₀ ins n) (ins n))
    refine ⟨?_, ?_, ?_, ?_⟩
    · change (Reg3.step _ _ _).memRead = false
      unfold Reg3.step
      split_ifs
      · exact ih.read
      · simp [reg3Next, hr]
    · change (Reg3.step _ _ _).memWrite = false
      unfold Reg3.step
      split_ifs
      · exact ih.write
      · simp [reg3Next, hw]
    · change (Reg3.step _ _ _).isAmo = false
      unfold Reg3.step
      split_ifs
      · exact ih.amo
      · simp [reg3Next, hamo]
    · have hkeep : (step P (run P s₀ ins n) (ins n)).csr.mie = (run P s₀ ins n).csr.mie := by
        simp [step, Csr.next, Csr.nextWith, csrIn, hcsr]
      rw [hkeep]
      exact ih.mie

theorem PlainInv.interruptTaken (h : PlainInv s) : interruptTaken P s i = false := by
  simp [RvPipeline.interruptTaken, interruptRequest_of_mie h.mie]

theorem PlainInv.memHold (h : PlainInv s) (hmode : P.cacheMode = .none) :
    memHold P s = false := by
  simp [RvPipeline.memHold, memStall, memTrigger, hmode, h.read, h.write, amoStall, amoActive,
    h.amo]

section Plain

variable (hgood : EveryInst w P (plain w)) (hmode : P.cacheMode = .none) (hreach : Reachable P s)

include hgood hmode hreach

theorem timeless_of_plain : Timeless P s i where
  quiet := (plainInv hgood hmode hreach).interruptTaken
  lines _ h := by simp [Reg2.readsLines, (ctl_of_plain hgood hmode hreach).1] at h

/-- The five-stage pipeline without a predictor has no option on that could fail. -/
theorem safe_of_plain (hprof : P.pipelineProfile = .fiveStage)
    (hstatic : P.branchPredictor = .static) : Safe P s i := by
  obtain ⟨hcsr, hamo, hr, -, -⟩ := ctl_of_plain hgood hmode hreach
  obtain ⟨hop, hload⟩ := bits_of_plain hgood hmode hreach
  have hinv := plainInv hgood hmode hreach
  exact
    { bare := translateEnable_of_satp (satp_of_plain hgood hmode hreach)
      amo := hamo
      counter := fun h ↦ by simp [hcsr] at h
      load := fun h ↦ by simp [hinv.read] at h
      store := fun h ↦ by simp [hinv.write] at h
      flags := fun _ h ↦ by simp [hop] at h
      predict := fun hP ↦ BranchPredictor.noConfusion (hstatic.symm.trans hP)
      fma := fun _ _ h ↦ by simp [hload] at h
      latency := fun _ _ h ↦ by
        have hread : (step P s i).reg3.memRead = false := by
          rw [step_reg3_of_move (hinv.memHold hmode)]
          simp [reg3Next, hr]
        simp [hread] at h
      split := fun hP ↦ PipelineProfile.noConfusion (hprof.symm.trans hP)
      interrupt := fun h ↦ by simp [hinv.interruptTaken] at h }

end Plain

/-! ## A counting loop -/

/-- `addi x1, x1, 1`, then a word that traps back to it. -/
def countParams : Params := { insts := instsOfWords [0x00108093] }

theorem countParams_plain : EveryInst 32 countParams (plain 32) := by
  apply everyInst_of_lt
  · decide
  · decide
  · decide
  · decide +kernel

end RvPipeline
