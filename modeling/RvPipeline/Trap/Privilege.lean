import RvPipeline.Iss.CsrOps

/-!
# Privilege

The mode and `mstatus` along every sequence of CSR instructions, traps and returns, in `CSR.v` and
in the simulator.  Both take whatever a write to `mstatus` puts into MPP, and `mret` makes it the
mode; everything else keeps the privileged state well formed.
-/

namespace RvPipeline

variable {w : ℕ}

namespace PrivState

/-! ## Well-formed states and guarded steps -/

/-- The mode and MPP are U, S or M, and `mstatus` has no other bit than those of its fields. -/
structure WellFormed (s : PrivState) : Prop where
  priv : s.priv = privU ∨ s.priv = privS ∨ s.priv = privM
  mpp : ¬(s.mstatus (mstatusMppLo + 1) = true ∧ s.mstatus mstatusMppLo = false)
  bits : ∀ j, s.mstatus j = true → j ∈ Csr.mstatusBits

/-- What an operation leaves alone. -/
structure Guarded (s s' : PrivState) (op : CsrOp w) : Prop where
  /-- the supervisor views do not reach a machine-only bit -/
  views : ∀ fn addr wdata, op = .access fn addr wdata →
    addr = csrAddrSstatus ∨ addr = csrAddrSie ∨ addr = csrAddrSip →
    (∀ j, j ∉ Csr.sstatusBits → s'.mstatus j = s.mstatus j) ∧
      (∀ j, j ∉ Csr.sieBits → s'.mie j = s.mie j ∧ s'.mip j = s.mip j)
  /-- U-mode is left by a trap only -/
  user : s.priv = privU → (∀ isInterrupt cause pc tval, op ≠ .trap isInterrupt cause pc tval) →
    s'.priv = privU

/-- What a write to `mstatus` puts into MPP is not the reserved mode. -/
def keepsMpp (s : PrivState) : CsrOp w → Bool
  | .access fn addr wdata =>
    addr != csrAddrMstatus ||
      !(fn.bit (s.mstatus (mstatusMppLo + 1)) (wdata.getLsbD (mstatusMppLo + 1)) &&
        !fn.bit (s.mstatus mstatusMppLo) (wdata.getLsbD mstatusMppLo))
  | _ => true

variable {s : PrivState} {op : CsrOp w}

theorem mode_iff (b a : Bool) :
    (BitVec.ofBool b ++ BitVec.ofBool a = privU ∨ BitVec.ofBool b ++ BitVec.ofBool a = privS ∨
      BitVec.ofBool b ++ BitVec.ofBool a = privM) ↔ ¬(b = true ∧ a = false) := by
  cases b <;> cases a <;> decide

theorem mode_bits {priv : BitVec 2} (h : priv = privU ∨ priv = privS ∨ priv = privM) :
    ¬(priv.getLsbD 1 = true ∧ priv.getLsbD 0 = false) := by
  rcases h with rfl | rfl | rfl <;> decide

/-- MPP after a write to `mstatus`. -/
theorem mpp_writeMasked (fn : CsrFn) (wdata : BitVec w) :
    (writeMasked Csr.mstatusBits fn s.mstatus wdata (mstatusMppLo + 1) = true ∧
      writeMasked Csr.mstatusBits fn s.mstatus wdata mstatusMppLo = false) ↔
      s.keepsMpp (.access fn csrAddrMstatus wdata) = false := by
  have h12 : mstatusMppLo + 1 ∈ Csr.mstatusBits := by decide
  have h11 : mstatusMppLo ∈ Csr.mstatusBits := by decide
  simp [writeMasked, keepsMpp, h12, h11]

theorem mpp_writeView (fn : CsrFn) (m : ℕ → Bool) (wdata : BitVec w) :
    writeView Csr.sstatusBits fn m wdata (mstatusMppLo + 1) = m (mstatusMppLo + 1) ∧
      writeView Csr.sstatusBits fn m wdata mstatusMppLo = m mstatusMppLo := by
  have h12 : mstatusMppLo + 1 ∉ Csr.sstatusBits := by decide
  have h11 : mstatusMppLo ∉ Csr.sstatusBits := by decide
  rw [writeView, writeView, if_neg h12, if_neg h11]
  exact ⟨rfl, rfl⟩

theorem WellFormed.apply (hmask : s.Masked) (h : s.WellFormed) (hkeep : s.keepsMpp op = true) :
    (s.apply op).WellFormed := by
  refine ⟨?_, ?_, (hmask.apply op).mstatus⟩
  · cases op with
    | access fn addr wdata => exact h.priv
    | trap isInterrupt cause pc tval =>
      rw [PrivState.apply]
      split_ifs
      · exact .inr (.inl rfl)
      · exact .inr (.inr rfl)
    | mret => exact (mode_iff _ _).mpr h.mpp
    | sret => exact (mode_iff false _).mpr (by simp)
  · cases op with
    | access fn addr wdata =>
      simp only [PrivState.apply]
      split_ifs with hm hs
      · subst hm
        rw [mpp_writeMasked, hkeep]
        decide
      · rw [(mpp_writeView fn s.mstatus wdata).1, (mpp_writeView fn s.mstatus wdata).2]
        exact h.mpp
      · exact h.mpp
    | trap isInterrupt cause pc tval =>
      rw [PrivState.apply]
      split_ifs
      · exact h.mpp
      · exact mode_bits h.priv
    | mret => exact fun h ↦ Bool.false_ne_true h.1
    | sret => exact h.mpp

theorem guarded_apply (hmask : s.Masked) (hperm : op.permitted s.priv = true) :
    Guarded s (s.apply op) op := by
  refine ⟨?_, ?_⟩
  · rintro fn addr wdata rfl haddr
    have hmip : ∀ j, j ∉ Csr.sieBits → writeMasked Csr.sieBits fn s.mip wdata j = s.mip j := by
      intro j hj
      have hold : s.mip j = false := by
        cases hb : s.mip j with
        | false => rfl
        | true => exact absurd (hmask.mip j hb) hj
      simp [writeMasked, hj, hold]
    rcases haddr with rfl | rfl | rfl
    · refine ⟨fun j hj ↦ ?_, fun j hj ↦ ⟨rfl, rfl⟩⟩
      exact if_neg hj
    · refine ⟨fun j hj ↦ rfl, fun j hj ↦ ⟨?_, rfl⟩⟩
      exact if_neg hj
    · exact ⟨fun j hj ↦ rfl, fun j hj ↦ ⟨rfl, hmip j hj⟩⟩
  · intro hU hnot
    cases op with
    | access fn addr wdata => exact hU
    | trap isInterrupt cause pc tval => exact absurd rfl (hnot isInterrupt cause pc tval)
    | mret =>
      rw [hU] at hperm
      exact absurd hperm Bool.false_ne_true
    | sret =>
      rw [hU] at hperm
      exact absurd hperm Bool.false_ne_true

/-! ## Runs -/

/-- Some machine whose steps are those of the privileged state machine. -/
structure Follows (S : ℕ → PrivState) (op : ℕ → CsrOp w) : Prop where
  init : (S 0).Masked ∧ (S 0).WellFormed
  step : ∀ n, (S n).Masked → S (n + 1) = (S n).apply (op n)

variable {S : ℕ → PrivState} {ops : ℕ → CsrOp w} {N : ℕ}

theorem Follows.masked (h : Follows S ops) (n : ℕ) : (S n).Masked := by
  induction n with
  | zero => exact h.init.1
  | succ n ih =>
    rw [h.step n ih]
    exact ih.apply (ops n)

theorem Follows.wellFormed (h : Follows S ops) (hkeep : ∀ n < N, (S n).keepsMpp (ops n) = true) :
    ∀ n ≤ N, (S n).WellFormed := by
  intro n hn
  induction n with
  | zero => exact h.init.2
  | succ n ih =>
    rw [h.step n (h.masked n)]
    exact (ih (by omega)).apply (h.masked n) (hkeep n (by omega))

theorem Follows.guarded (h : Follows S ops) {n : ℕ} (hperm : (ops n).permitted (S n).priv = true) :
    Guarded (S n) (S (n + 1)) (ops n) := by
  rw [h.step n (h.masked n)]
  exact guarded_apply (h.masked n) hperm

/-- Only a write to `mstatus` brings in the reserved mode. -/
theorem Follows.keepsMpp (h : Follows S ops) {n : ℕ} (hwf : (S (n + 1)).WellFormed) :
    (S n).keepsMpp (ops n) = true := by
  rw [h.step n (h.masked n)] at hwf
  cases hop : ops n with
  | access fn addr wdata =>
    by_cases hm : addr = csrAddrMstatus
    · subst hm
      rw [hop] at hwf
      by_contra hno
      exact hwf.mpp ((mpp_writeMasked fn wdata).mpr (Bool.not_eq_true _ ▸ hno))
    · simp [PrivState.keepsMpp, hm]
  | trap isInterrupt cause pc tval => rfl
  | mret => rfl
  | sret => rfl

end PrivState

/-! ## `CSR.v` and the simulator -/

def issCsrMachine (w : ℕ) (C : IssConfig) : Clocked Iss (CsrOp w) where
  Init σ := σ = Iss.init C.memSize
  step σ op := σ.csrApply C op

/-- The state of `CSR.v` after `n` of the operations from reset. -/
def Csr.after (ins : ℕ → CsrStep w) (n : ℕ) : Csr w := (csrMachine w).run (Csr.reset w) ins n

/-- The state of the simulator after `n` of the operations from `__init__`. -/
def Iss.after (C : IssConfig) (ops : ℕ → CsrOp w) (n : ℕ) : Iss :=
  (issCsrMachine w C).run (Iss.init C.memSize) ops n

abbrev ecallWord : BitVec 32 := 0x00000073#32

open PrivState

theorem masked_of_zero (s : PrivState) (h : s.mstatus = fun _ ↦ false) (h1 : s.mie = fun _ ↦ false)
    (h2 : s.mip = fun _ ↦ false) (h3 : s.mideleg = fun _ ↦ false) (h4 : s.medeleg = fun _ ↦ false)
    (hpriv : s.priv = privM) : s.Masked ∧ s.WellFormed := by
  have hno : ∀ (f : ℕ → Bool) (bits : List ℕ), f = (fun _ ↦ false) → ∀ j, f j = true → j ∈ bits := by
    rintro f bits rfl j hj
    exact absurd hj Bool.false_ne_true
  refine ⟨⟨hno _ _ h, hno _ _ h1, hno _ _ h2, hno _ _ h3, hno _ _ h4⟩, .inr (.inr hpriv), ?_,
    hno _ _ h⟩
  rw [h]
  exact fun hmpp ↦ Bool.false_ne_true hmpp.1

theorem follows_csr (hw : 12 < w) (ins : ℕ → CsrStep w) :
    Follows (fun n ↦ (Csr.after ins n).privState) (fun n ↦ (ins n).op) := by
  refine ⟨?_, fun n _ ↦ Csr.privState_next hw (ins n).op⟩
  have hzero : (0 : BitVec w).getLsbD = fun _ ↦ false := by
    funext j
    exact BitVec.getLsbD_zero
  exact masked_of_zero _ hzero hzero hzero hzero hzero rfl

theorem follows_iss (C : IssConfig) (ops : ℕ → CsrOp w) :
    Follows (fun n ↦ (Iss.after C ops n).privState) ops := by
  refine ⟨?_, fun n hmask ↦ Iss.privState_csrApply hmask (ops n)⟩
  have hzero : (0 : ℕ).testBit = fun _ ↦ false := by
    funext j
    exact Nat.zero_testBit j
  exact masked_of_zero _ hzero hzero hzero hzero hzero rfl

/-- `ecall` looks the mode up in a table of U, S and M. -/
theorem system_ecall_ne_none {σ : Iss} (C : IssConfig) (A : ℕ)
    (h : σ.privMode = privU ∨ σ.privMode = privS ∨ σ.privMode = privM) :
    σ.system C ecallWord A ≠ none := by
  have hecall : σ.system C ecallWord A =
      if σ.privMode = privM then some (σ.trap mcauseEcallFromM 0)
      else if σ.privMode = privS then some (σ.trap mcauseEcallFromS 0)
      else if σ.privMode = privU then some (σ.trap mcauseEcallFromU 0)
      else none := rfl
  rw [hecall]
  split_ifs with hM hS hU
  · exact Option.some_ne_none _
  · exact Option.some_ne_none _
  · exact Option.some_ne_none _
  · tauto

/-- In every run of permitted operations the privileged state stays well formed, and each step
guarded, exactly if no write to `mstatus` sets MPP to the reserved mode; then the `ecall` of the
simulator finds the mode in its table. -/
theorem privilege_run_iff (hw : w = 32 ∨ w = 64) (C : IssConfig) (ins : ℕ → CsrStep w) (N : ℕ) :
    ((∀ n < N, (ins n).op.permitted (Csr.after ins n).privMode = true) →
      (((∀ n ≤ N, (Csr.after ins n).privState.WellFormed) ∧
          ∀ n < N, Guarded (Csr.after ins n).privState (Csr.after ins (n + 1)).privState
            (ins n).op) ↔
        ∀ n < N, (Csr.after ins n).privState.keepsMpp (ins n).op = true)) ∧
    ((∀ n < N, (ins n).op.permitted (Iss.after C (fun n ↦ (ins n).op) n).privMode = true) →
      (((∀ n ≤ N, (Iss.after C (fun n ↦ (ins n).op) n).privState.WellFormed ∧
            ∀ A, (Iss.after C (fun n ↦ (ins n).op) n).system C ecallWord A ≠ none) ∧
          ∀ n < N, Guarded (Iss.after C (fun n ↦ (ins n).op) n).privState
            (Iss.after C (fun n ↦ (ins n).op) (n + 1)).privState (ins n).op) ↔
        ∀ n < N, (Iss.after C (fun n ↦ (ins n).op) n).privState.keepsMpp (ins n).op = true)) := by
  have hrtl := follows_csr (show 12 < w by omega) ins
  have hiss := follows_iss C (fun n ↦ (ins n).op)
  refine ⟨fun hperm ↦ ⟨?_, ?_⟩, fun hperm ↦ ⟨?_, ?_⟩⟩
  · rintro ⟨hwf, -⟩ n hn
    exact hrtl.keepsMpp (hwf (n + 1) hn)
  · intro hkeep
    exact ⟨hrtl.wellFormed hkeep, fun n hn ↦ hrtl.guarded (hperm n hn)⟩
  · rintro ⟨hwf, -⟩ n hn
    exact hiss.keepsMpp (hwf (n + 1) hn).1
  · intro hkeep
    refine ⟨fun n hn ↦ ⟨hiss.wellFormed hkeep n hn, fun A ↦ ?_⟩, fun n hn ↦
      hiss.guarded (hperm n hn)⟩
    exact system_ecall_ne_none C A (hiss.wellFormed hkeep n hn).priv

/-- A write to `mstatus`, then `mret` for ever. -/
def returnSteps (m : BitVec 32) (n : ℕ) : CsrStep 32 :=
  { op := if n = 0 then .access .write csrAddrMstatus m else .mret
    counters := Counters.reset 32
    pending := { msip := false, timer := false, ext := false } }

def plainIss : IssConfig := { fpStep := fun _ _ ↦ none }

/-- Machine mode hands over to supervisor mode. -/
theorem privilege_run_supervisor :
    ((∀ n ≤ 2, (Csr.after (returnSteps 0x800) n).privState.WellFormed) ∧
      ∀ n < 2, Guarded (Csr.after (returnSteps 0x800) n).privState
        (Csr.after (returnSteps 0x800) (n + 1)).privState (returnSteps 0x800 n).op) ∧
    ((∀ n ≤ 2, (Iss.after plainIss (fun n ↦ (returnSteps 0x800 n).op) n).privState.WellFormed ∧
        ∀ A, (Iss.after plainIss (fun n ↦ (returnSteps 0x800 n).op) n).system plainIss ecallWord A ≠
          none) ∧
      ∀ n < 2, Guarded (Iss.after plainIss (fun n ↦ (returnSteps 0x800 n).op) n).privState
        (Iss.after plainIss (fun n ↦ (returnSteps 0x800 n).op) (n + 1)).privState
          (returnSteps 0x800 n).op) := by
  have h := privilege_run_iff (.inl rfl) plainIss (returnSteps 0x800) 2
  exact ⟨(h.1 (by decide)).mpr (by decide), (h.2 (by decide)).mpr (by decide)⟩

/-- A write of the reserved mode to MPP is taken, and `mret` makes it the mode; an `ecall` of the
simulator then fails. -/
theorem not_privilege_wellFormed :
    ¬ ((∀ (ins : ℕ → CsrStep 32) (N : ℕ),
        (∀ n < N, (ins n).op.permitted (Csr.after ins n).privMode = true) →
        ∀ n ≤ N, (Csr.after ins n).privState.WellFormed)) ∧
    ¬ (∀ (ops : ℕ → CsrOp 32) (N : ℕ),
        (∀ n < N, (ops n).permitted (Iss.after plainIss ops n).privMode = true) →
        ∀ n ≤ N, (Iss.after plainIss ops n).privState.WellFormed ∧
          ∀ A, (Iss.after plainIss ops n).system plainIss ecallWord A ≠ none) := by
  constructor
  · intro h
    have hmode := (h (returnSteps 0x1000) 2 (by decide) 2 le_rfl).priv
    exact absurd hmode (by decide)
  · intro h
    have hecall := (h (fun n ↦ (returnSteps 0x1000 n).op) 2 (by decide) 2 le_rfl).2 0
    exact hecall rfl

end RvPipeline
