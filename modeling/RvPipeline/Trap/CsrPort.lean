import RvPipeline.Core.Invariants

/-!
# The contract of the CSR port

`csr_formal.sv` checks `CSR.v` under two assumptions about its inputs.  Here they are
compared with what `riscvpipeline.v` drives: an interrupt lets the instruction in EX
retire in the same cycle, and a faulting fetch still decodes whatever bits it got.
-/

namespace RvPipeline

variable {w k : ℕ} {P : Params} {s : State w k} {i : Inputs}

/-- The two assumptions of `csr_formal.sv`: at most one of the trap, `mret` and `sret`
inputs is high, and no CSR write comes with any of them. -/
structure CsrContract (q : CsrIn w) : Prop where
  trap_mret : ¬(q.trapTaken = true ∧ q.mretTaken = true)
  trap_sret : ¬(q.trapTaken = true ∧ q.sretTaken = true)
  mret_sret : ¬(q.mretTaken = true ∧ q.sretTaken = true)
  no_write : q.trapTaken = true ∨ q.mretTaken = true ∨ q.sretTaken = true →
    q.csrWriteEn = false

/-- A CSR access that its privilege check lets through. -/
def csrPermitted (s : State w k) : Bool :=
  s.reg2.ctl.isCsr && !s.reg2.csrPrivViolation s.csr.privMode

/-- The cycles in which the wiring meets the contract: no interrupt is taken over a
permitted CSR access, and the bits of a faulting fetch are not a permitted CSR access or
trap return. -/
structure CsrPortClear (P : Params) (s : State w k) (i : Inputs) : Prop where
  interrupt : interruptTaken P s i = true → csrPermitted s = false
  fetchFault : s.reg2.ctx.ifetchFault = true → reg2Hold P s i = false →
    csrPermitted s = false ∧ mretReal s = false ∧ sretReal s = false

/-! ## Exceptions of system instructions -/

/-- The system classes stand alone among the decoder's values. -/
theorem systemControl_cases : ∀ c ∈ ({} :: controlValues : List Control),
    (c.isCsr || c.isMret || c.isSret) = true →
      c = { isCsr := true, regWrite := true } ∨ c = { isMret := true } ∨ c = { isSret := true } := by
  decide

/-- A permitted CSR access or trap return raises no exception of its own. -/
theorem ifetchFault_of_exceptionTaken (hdec : s.reg2.Decoded) (hwalk : WalkInv P s)
    (hexc : exceptionTaken P s = true)
    (hsys : csrPermitted s = true ∨ mretReal s = true ∨ sretReal s = true) :
    s.reg2.ctx.ifetchFault = true := by
  have hclass : (s.reg2.ctl.isCsr || s.reg2.ctl.isMret || s.reg2.ctl.isSret) = true := by
    rcases hsys with h | h | h
    · simp only [csrPermitted, Bool.and_eq_true] at h
      simp [h.1]
    · simp only [mretReal, Reg2.mretReal, Bool.and_eq_true] at h
      simp [h.1]
    · simp only [sretReal, Reg2.sretReal, Bool.and_eq_true] at h
      simp [h.1]
  have hnofault : dtlbPageFault P s = false := by
    by_contra hne
    have hmem := mem_of_dtlbPageFault hwalk (by simpa using hne)
    rcases systemControl_cases _ hdec.ctl_mem hclass with h | h | h <;> simp [h] at hmem
  rcases systemControl_cases _ hdec.ctl_mem hclass with h | h | h
  · simp_all [exceptionTaken, Reg2.exceptionTaken, Reg2.illegal, Reg2.aluCtl, aluCtrl,
      Reg2.mretPrivViolation, Reg2.sretPrivViolation, Reg2.sfencePrivViolation, csrPermitted,
      mretReal, Reg2.mretReal, sretReal, Reg2.sretReal]
  · simp_all [exceptionTaken, Reg2.exceptionTaken, Reg2.illegal, Reg2.aluCtl, aluCtrl,
      Reg2.csrPrivViolation, Reg2.sretPrivViolation, Reg2.sfencePrivViolation, csrPermitted,
      mretReal, Reg2.mretReal, sretReal, Reg2.sretReal]
  · simp_all [exceptionTaken, Reg2.exceptionTaken, Reg2.illegal, Reg2.aluCtl, aluCtrl,
      Reg2.csrPrivViolation, Reg2.mretPrivViolation, Reg2.sfencePrivViolation, csrPermitted,
      mretReal, Reg2.mretReal, sretReal, Reg2.sretReal]

/-- `mret` and `sret` are different instructions. -/
theorem not_mretReal_and_sretReal (hdec : s.reg2.Decoded) :
    ¬(mretReal s = true ∧ sretReal s = true) := by
  rintro ⟨hm, hs⟩
  simp only [mretReal, Reg2.mretReal, sretReal, Reg2.sretReal, Bool.and_eq_true] at hm hs
  rcases systemControl_cases _ hdec.ctl_mem (by simp [hm.1]) with h | h | h <;> simp [h] at hm hs

/-- A trap return is not a CSR access. -/
theorem csrPermitted_of_return (hdec : s.reg2.Decoded)
    (h : mretReal s = true ∨ sretReal s = true) : csrPermitted s = false := by
  have hclass : (s.reg2.ctl.isCsr || s.reg2.ctl.isMret || s.reg2.ctl.isSret) = true := by
    rcases h with h | h <;>
      simp only [mretReal, Reg2.mretReal, sretReal, Reg2.sretReal, Bool.and_eq_true] at h <;>
      simp [h.1]
  rcases systemControl_cases _ hdec.ctl_mem hclass with hc | hc | hc <;>
    simp [csrPermitted, mretReal, Reg2.mretReal, sretReal, Reg2.sretReal, hc] at h ⊢

/-! ## The port -/

theorem csrWriteEn_eq : (csrIn P s i).csrWriteEn = (csrPermitted s && !reg2Hold P s i) := by
  simp only [csrIn, csrPermitted]
  cases s.reg2.ctl.isCsr <;> cases reg2Hold P s i <;> simp

/-- A trap over a permitted CSR access or a trap return comes from an interrupt or from a
faulting fetch. -/
theorem trapTaken_cases (hdec : s.reg2.Decoded) (hwalk : WalkInv P s)
    (htrap : (csrIn P s i).trapTaken = true)
    (hsys : csrPermitted s = true ∨ mretReal s = true ∨ sretReal s = true) :
    interruptTaken P s i = true ∨
      (s.reg2.ctx.ifetchFault = true ∧ reg2Hold P s i = false) := by
  simp only [csrIn, Bool.or_eq_true, Bool.and_eq_true, Bool.not_eq_true'] at htrap
  rcases htrap with ⟨hexc, hhold⟩ | hint
  · exact .inr ⟨ifetchFault_of_exceptionTaken hdec hwalk hexc hsys, hhold⟩
  · exact .inl hint

theorem not_return_of_interruptTaken (hint : interruptTaken P s i = true) :
    mretReal s = false ∧ sretReal s = false := by
  obtain ⟨-, hother, -⟩ := interruptTaken_spec hint
  simp only [otherRedirectTaken, Bool.or_eq_false_iff] at hother
  exact ⟨hother.1.2, hother.2⟩

theorem csrPortClear_of_csrContract (h : CsrContract (csrIn P s i)) : CsrPortClear P s i := by
  constructor
  · intro hint
    have hno := h.no_write (.inl (by simp [csrIn, hint]))
    rw [csrWriteEn_eq, reg2Hold_of_interruptTaken hint] at hno
    simpa using hno
  · intro hfault hhold
    have htrap : (csrIn P s i).trapTaken = true := by
      simp [csrIn, exceptionTaken, Reg2.exceptionTaken, hfault, hhold]
    have hno := h.no_write (.inl htrap)
    rw [csrWriteEn_eq, hhold] at hno
    refine ⟨by simpa using hno, ?_, ?_⟩
    · by_contra hne
      exact h.trap_mret ⟨htrap, by simpa [csrIn, hhold] using hne⟩
    · by_contra hne
      exact h.trap_sret ⟨htrap, by simpa [csrIn, hhold] using hne⟩

theorem csrContract_of_csrPortClear (hdec : s.reg2.Decoded) (hwalk : WalkInv P s)
    (h : CsrPortClear P s i) : CsrContract (csrIn P s i) := by
  have hmretIn : (csrIn P s i).mretTaken = true → mretReal s = true := by
    intro hm
    simp only [csrIn, Bool.and_eq_true] at hm
    exact hm.1
  have hsretIn : (csrIn P s i).sretTaken = true → sretReal s = true := by
    intro hm
    simp only [csrIn, Bool.and_eq_true] at hm
    exact hm.1
  -- a trap never meets a return: an interrupt excludes it, a faulting fetch is clear
  have hreturn : (csrIn P s i).trapTaken = true → ¬(mretReal s = true ∨ sretReal s = true) := by
    intro htrap hret
    rcases trapTaken_cases hdec hwalk htrap (.inr hret) with hint | ⟨hfault, hhold⟩
    · obtain ⟨hm, hs⟩ := not_return_of_interruptTaken hint
      simp [hm, hs] at hret
    · obtain ⟨-, hm, hs⟩ := h.fetchFault hfault hhold
      simp [hm, hs] at hret
  refine ⟨?_, ?_, ?_, ?_⟩
  · rintro ⟨htrap, hm⟩
    exact hreturn htrap (.inl (hmretIn hm))
  · rintro ⟨htrap, hs⟩
    exact hreturn htrap (.inr (hsretIn hs))
  · rintro ⟨hm, hs⟩
    exact not_mretReal_and_sretReal hdec ⟨hmretIn hm, hsretIn hs⟩
  · intro hany
    rw [csrWriteEn_eq]
    by_contra hne
    simp only [Bool.not_eq_false, Bool.and_eq_true] at hne
    rcases hany with htrap | hm | hs
    · rcases trapTaken_cases hdec hwalk htrap (.inl hne.1) with hint | ⟨hfault, hhold⟩
      · simp [h.interrupt hint] at hne
      · simp [(h.fetchFault hfault hhold).1] at hne
    · simp [csrPermitted_of_return hdec (.inl (hmretIn hm))] at hne
    · simp [csrPermitted_of_return hdec (.inr (hsretIn hs))] at hne

/-- In every reachable state the CSR port meets the contract exactly when no interrupt is
taken over a permitted CSR access and no faulting fetch decodes to one or to a return. -/
theorem csrContract_iff (P : Params) (s : State w k) (i : Inputs) (h : Reachable P s) :
    CsrContract (csrIn P s i) ↔ CsrPortClear P s i :=
  ⟨csrPortClear_of_csrContract, csrContract_of_csrPortClear (reg2_decoded h) (walkInv h)⟩

/-! ## An interrupt over a CSR write -/

/-- Opens `mie.MTIE` and `mstatus.MIE` with the timer pending since reset, so that the
interrupt is taken while the last instruction is in EX. -/
def overlapProgram : List (BitVec 32) :=
  [0x08000093,  -- addi  x1, x0, 0x80
   0x30409073,  -- csrw  mie, x1
   0x30046073,  -- csrsi mstatus, 8
   0x30016073]  -- csrsi mstatus, 2

def overlapParams : Params := { insts := instsOfWords overlapProgram }

/-- The cycle in which the last `csrsi` is in EX. -/
def overlapState : State 32 0 := run overlapParams default (fun _ ↦ {}) 5

theorem overlapState_reachable : Reachable overlapParams overlapState :=
  (core overlapParams 32 0).reachable_run ⟨default, rfl⟩ _ 5

theorem csrContract_fails :
    ¬ ∀ (P : Params) (s : State 32 0) (i : Inputs), Reachable P s → CsrContract (csrIn P s i) := by
  intro hall
  have hno := (hall overlapParams overlapState {} overlapState_reachable).no_write
    (.inl (by decide +kernel))
  have hwrite : (csrIn overlapParams overlapState {}).csrWriteEn = true := by decide +kernel
  rw [hwrite] at hno
  exact Bool.noConfusion hno

theorem csrContract_iff_overlapState :
    Reachable overlapParams overlapState ∧
      (CsrContract (csrIn overlapParams overlapState {}) ↔
        CsrPortClear overlapParams overlapState {}) :=
  ⟨overlapState_reachable, csrContract_iff overlapParams overlapState {} overlapState_reachable⟩

end RvPipeline
