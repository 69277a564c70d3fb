import RvPipeline.Design.Pipeline
import Mathlib.Tactic

/-!
# Facts about the wires

How the stall, hold and redirect wires order among themselves, and what a clock
edge does when EX is held.
-/

namespace RvPipeline

variable {w k : ℕ} {P : Params} {s : State w k} {i : Inputs}

theorem run_reachable (P : Params) (s₀ : State w k) (ins : ℕ → Inputs) (n : ℕ) :
    Reachable P (run P s₀ ins n) :=
  (core P w k).reachable_run ⟨s₀, rfl⟩ ins n

/-! ## The squashed EX stage -/

@[simp] theorem Reg2.squashed_isOpFp : (Reg2.squashed w).isOpFp = false := rfl

@[simp] theorem Reg2.squashed_isFma : (Reg2.squashed w).isFma = false := rfl

@[simp] theorem Reg2.squashed_isLoadFp : (Reg2.squashed w).isLoadFp = false := rfl

@[simp] theorem Reg2.squashed_isDivRem : (Reg2.squashed w).isDivRem = false := rfl

@[simp] theorem Reg2.squashed_ctl : (Reg2.squashed w).ctl = {} := rfl

/-! ## Stalls and holds -/

theorem hazardStall_of_true (h : hazardStall P s true = true) (bt : Bool) :
    hazardStall P s bt = true := by
  unfold hazardStall at h ⊢
  cases hP : P.hazardStrategy with
  | forwarding => simpa only [hP] using h
  | noForward => simp [hP, hazardNoForward] at h

/-- Raising `branch_taken` can only lower `pc_stall`. -/
theorem pcStallOf_of_true (h : pcStallOf P s true = true) (bt : Bool) :
    pcStallOf P s bt = true := by
  cases bt with
  | true => exact h
  | false =>
    simp only [pcStallOf, itlbMiss, dtlbMiss, icacheMiss, imemWait, Bool.or_eq_true] at h ⊢
    have hh := fun h' : hazardStall P s true = true ↦ hazardStall_of_true h' false
    simp at h
    tauto

theorem pcStallOf_of_reg2HoldOf {bt : Bool} (h : reg2HoldOf P s bt = true) :
    pcStallOf P s bt = true := by
  simp only [reg2HoldOf, pcStallOf, Bool.or_eq_true] at h ⊢
  tauto

theorem pcStall_of_reg2Hold (h : reg2Hold P s i = true) : pcStall P s i = true :=
  pcStallOf_of_reg2HoldOf h

theorem reg2Hold_eq_false_of_pcStall (h : pcStall P s i = false) : reg2Hold P s i = false := by
  by_contra hne
  rw [pcStall_of_reg2Hold (by simpa using hne)] at h
  exact Bool.noConfusion h

theorem memHold_eq_false_of_reg2Hold (h : reg2Hold P s i = false) : memHold P s = false := by
  simp only [reg2Hold, reg2HoldOf, Bool.or_eq_false_iff] at h
  simp [memHold, h]

/-! ## Interrupts -/

theorem interruptTaken_spec (h : interruptTaken P s i = true) :
    interruptRequest s = true ∧ otherRedirectTaken P s = false ∧
      pcStallOf P s i.settle = false := by
  simp only [interruptTaken, Bool.and_eq_true, Bool.not_eq_true'] at h
  exact ⟨h.1.1, h.1.2, h.2⟩

theorem branchTaken_of_interruptTaken (h : interruptTaken P s i = true) :
    branchTaken P s i = true := by
  simp [branchTaken, h]

/-- A taken interrupt is never stalled, whichever way the loop settled. -/
theorem pcStall_of_interruptTaken (h : interruptTaken P s i = true) : pcStall P s i = false := by
  obtain ⟨-, -, hstall⟩ := interruptTaken_spec h
  unfold pcStall
  rw [branchTaken_of_interruptTaken h]
  by_contra hne
  rw [pcStallOf_of_true (by simpa using hne) i.settle] at hstall
  exact Bool.noConfusion hstall

theorem reg2Hold_of_interruptTaken (h : interruptTaken P s i = true) : reg2Hold P s i = false :=
  reg2Hold_eq_false_of_pcStall (pcStall_of_interruptTaken h)

/-- `interrupt_taken` solves the source's own equation, whatever `settle` is. -/
theorem interruptTaken_fixpoint :
    interruptTaken P s i =
      (interruptRequest s && !pcStall P s i && !otherRedirectTaken P s) := by
  by_cases h : interruptTaken P s i = true
  · obtain ⟨hreq, hother, -⟩ := interruptTaken_spec h
    simp [h, hreq, hother, pcStall_of_interruptTaken h]
  · have h' : interruptTaken P s i = false := by simpa using h
    rw [h']
    by_cases hother : otherRedirectTaken P s = true
    · simp [hother]
    · have hbt : branchTaken P s i = false := by simp [branchTaken, h', hother]
      cases hreq : interruptRequest s with
      | false => simp
      | true =>
        have hstall : pcStallOf P s i.settle = true := by
          simpa [interruptTaken, hreq, hother] using h'
        have hpc : pcStall P s i = true := by
          unfold pcStall
          rw [hbt]
          cases hset : i.settle with
          | false => rwa [hset] at hstall
          | true => exact pcStallOf_of_true (hset ▸ hstall) false
        simp [hpc]

theorem interruptTaken_of_not_branchTaken (h : branchTaken P s i = false) :
    interruptTaken P s i = false := by
  simp only [branchTaken, Bool.or_eq_false_iff] at h
  exact h.2

/-! ## The CSR file -/

/-- With every enable of its write and trap ports low, the CSR file holds. -/
theorem Csr.next_idle {c : Csr w} {n : Counters w} {p : Pending} {q : CsrIn w}
    (hwe : q.csrWriteEn = false) (htrap : q.trapTaken = false) (hmret : q.mretTaken = false)
    (hsret : q.sretTaken = false) (hfp : q.fpFlagsWe = false) : c.next n p q = c := by
  simp [Csr.next, Csr.nextWith, Csr.nextMstatus, Csr.nextPrivMode, hwe, htrap, hmret, hsret, hfp]

/-- A held EX stage commits nothing to the CSR file. -/
theorem step_csr_of_hold (hhold : reg2Hold P s i = true) : (step P s i).csr = s.csr := by
  have hint : interruptTaken P s i = false := by
    by_contra hne
    rw [reg2Hold_of_interruptTaken (by simpa using hne)] at hhold
    exact Bool.noConfusion hhold
  exact Csr.next_idle (by simp [csrIn, hhold]) (by simp [csrIn, hhold, hint])
    (by simp [csrIn, hhold]) (by simp [csrIn, hhold]) (by simp [csrIn, fpFlagsWe, hhold])

theorem step_reg2_of_hold (hhold : reg2Hold P s i = true) : (step P s i).reg2 = s.reg2 := by
  simp [step, Reg2.step, hhold]

end RvPipeline
