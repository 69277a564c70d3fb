import RvPipeline.Iss.Run
import RvPipeline.Refine.Program

/-!
# The core against the simulator

The comparison of the random test driver, for every program of legal words that stays in machine
mode: the simulator and the core start from the same state and execute the same instructions, so
that the registers, the memory and the CSR file the simulator ends with are those the core comes to
and keeps.
-/

namespace RvPipeline

variable {w k : ℕ}

/-! ## Masks -/

/-- Whatever the port asks for, the masked registers hold only the bits they implement. -/
theorem Csr.masked_nextWith {c : Csr w} (hw : 12 < w) (h : c.privState.Masked) (q : CsrIn w)
    (v : BitVec w) : (c.nextWith q v).privState.Masked := by
  have hkeep : ∀ (bits : List ℕ) (j : ℕ), (keepBits bits v).getLsbD j = true → j ∈ bits := by
    intro bits j hj
    rw [getLsbD_keepBits, Bool.and_eq_true, decide_eq_true_eq] at hj
    exact hj.1
  have hmerge : ∀ (bits all : List ℕ) (r : BitVec w) (j : ℕ), bits ⊆ all →
      (r.getLsbD j = true → j ∈ all) →
      ((r &&& ~~~(keepBits bits (BitVec.allOnes w))) ||| keepBits bits v).getLsbD j = true →
        j ∈ all := by
    intro bits all r j hsub hold hj
    rw [getLsbD_mergeBits] at hj
    split_ifs at hj with hin
    · exact hsub hin
    · exact hold hj
  constructor
  · intro j hj
    change (c.nextMstatus q v).getLsbD j = true at hj
    obtain ⟨hM, hS, hpM, hpS⟩ := PrivState.stack_mem h.mstatus c.privMode j
    unfold Csr.nextMstatus at hj
    split_ifs at hj
    · exact hM (congrFun (Csr.stackM_bits hw c.mstatus c.privMode) j ▸ hj)
    · exact hS (congrFun (Csr.stackS_bits hw c.mstatus c.privMode) j ▸ hj)
    · exact hpM (congrFun (Csr.popM_bits hw c.mstatus) j ▸ hj)
    · exact hpS (congrFun (Csr.popS_bits hw c.mstatus) j ▸ hj)
    · exact hkeep _ j hj
    · exact hmerge _ _ _ j (by decide) (h.mstatus j) hj
    · exact h.mstatus j hj
  · intro j hj
    change (c.nextWith q v).mie.getLsbD j = true at hj
    simp only [Csr.nextWith] at hj
    split_ifs at hj
    · exact hkeep _ j hj
    · exact hmerge _ _ _ j (by decide) (h.mie j) hj
    · exact h.mie j hj
  · intro j hj
    change (c.nextWith q v).mipSw.getLsbD j = true at hj
    simp only [Csr.nextWith] at hj
    split_ifs at hj
    · exact hkeep _ j hj
    · exact h.mip j hj
  · intro j hj
    change (c.nextWith q v).mideleg.getLsbD j = true at hj
    simp only [Csr.nextWith] at hj
    split_ifs at hj
    · exact hkeep _ j hj
    · exact h.mideleg j hj
  · intro j hj
    change (c.nextWith q v).medeleg.getLsbD j = true at hj
    simp only [Csr.nextWith] at hj
    split_ifs at hj
    · exact hkeep _ j hj
    · exact h.medeleg j hj

theorem Csr.masked_reset : (Csr.reset w).privState.Masked := by
  have hzero : ∀ j, (0 : BitVec w).getLsbD j = true → False := by
    intro j hj
    rw [BitVec.ofNat_eq_ofNat, BitVec.getLsbD_zero] at hj
    exact Bool.noConfusion hj
  constructor
  all_goals exact fun j hj ↦ (hzero j hj).elim

/-! ## What is compared -/

/-- The word at an address of a program. -/
def wordAt (words : List (BitVec 32)) (pc : ℕ) : BitVec 32 := words.getD (pc / 4) 0

/-- The core and the simulator are built for the same program and memory; behind the program the
image is padded with zero words. -/
structure Comparable (P : Params) (C : IssConfig) (words : List (BitVec 32)) (s₀ : State 32 k) :
    Prop where
  insts : P.insts = instsOfWords words
  mode : P.cacheMode = .none
  profile : P.pipelineProfile = .fiveStage
  predictor : P.branchPredictor = .static
  latency : P.memLatencyD = 0
  xlen : C.xlen = 32
  memSize : P.memSizeBytes = C.memSize
  power : ∃ j, C.memSize = 2 ^ j ∧ 2 ^ j ≤ 0x10000000
  fits : words.length * 4 ≤ C.memSize
  legal : ∀ word ∈ words, word = 0 ∨ legalWord word = true
  zero : ∀ n < C.memSize,
    (s₀.ram.reset P.zeroInitLimit P.dataInitFile).dataMemory (BitVec.ofNat 32 n) = 0

/-- Before a legal instruction of the program, in machine mode, that accesses only the RAM. -/
structure Iss.AtLegal (C : IssConfig) (words : List (BitVec 32)) (σ : Iss) : Prop where
  inside : σ.pc < words.length * 4
  legal : legalWord (wordAt words σ.pc) = true
  aligned : σ.pc % 4 = 0
  mode : σ.privMode = privM
  ram : σ.inRam C (wordAt words σ.pc)

/-- What the comparison asks of the simulator before an instruction: that it accesses no counter
and not `mip` either. -/
structure Iss.Within (C : IssConfig) (words : List (BitVec 32)) (σ : Iss) : Prop
    extends σ.AtLegal C words where
  time : timeFree (wordAt words σ.pc) = true

section Words

variable {P : Params} {C : IssConfig} {words : List (BitVec 32)} {s₀ : State 32 k} {σ : Iss}
  {a : Arch 32} (hcmp : Comparable P C words s₀)

include hcmp

theorem Comparable.imemRead {pc : BitVec 32} (hpc : pc.toNat % 4 = 0)
    (hin : pc.toNat < C.memSize) : RvPipeline.imemRead P pc = wordAt words pc.toNat := by
  apply BitVec.eq_of_toNat_eq
  have hlt := (wordAt words pc.toNat).isLt
  have hbyte : ∀ n < 4, (P.insts (pc.toNat + n)).toNat =
      (wordAt words pc.toNat).toNat / 2 ^ (8 * n) % 2 ^ 8 := by
    intro n hn
    rw [hcmp.insts, instsOfWords, BitVec.extractLsb'_toNat, Nat.shiftRight_eq_div_pow,
      show (pc.toNat + n) / 4 = pc.toNat / 4 by omega, show (pc.toNat + n) % 4 = n by omega]
    rfl
  rw [imemRead_toNat (by rw [hcmp.memSize]; exact hin), hbyte 3 (by decide), hbyte 2 (by decide),
    hbyte 1 (by decide)]
  have h0 := hbyte 0 (by decide)
  rw [Nat.add_zero] at h0
  rw [h0]
  omega

theorem Comparable.legalImage : LegalImage P := by
  intro pc hpc
  by_cases hin : pc.toNat < C.memSize
  · rw [hcmp.imemRead hpc hin, wordAt]
    by_cases hidx : pc.toNat / 4 < words.length
    · rw [List.getD_eq_getElem _ _ hidx]
      exact hcmp.legal _ (List.getElem_mem hidx)
    · rw [List.getD_eq_default _ _ (by omega)]
      exact .inl rfl
  · left
    unfold RvPipeline.imemRead instructionMemory
    rw [if_pos (by rw [hcmp.memSize]; omega)]

theorem Comparable.init_matches : (Iss.init C.memSize).Matches C (Arch.reset P s₀) where
  pc := rfl
  regs r := by
    obtain ⟨j, hj, hle⟩ := hcmp.power
    change (if r = 2 then C.memSize else 0) = ((RegFile.reset P.memSizeBytes).get r : BitVec 32).toNat
    rw [hcmp.memSize]
    unfold RegFile.get RegFile.reset
    split_ifs with h2 h0
    · rw [h2] at h0
      exact absurd h0 (by decide)
    · rw [BitVec.toNat_ofNat, Nat.mod_eq_of_lt (by omega)]
    · rfl
    · rfl
  mem n hn := (hcmp.zero n hn).symm
  csr := Iss.csrView_of_stores (stores_init 32 C.memSize)

/-! ## One instruction -/

theorem Comparable.word_at (hm : σ.Matches C a) (hw : σ.Within C words) :
    RvPipeline.imemRead P a.pc = wordAt words σ.pc := by
  have hfits := hcmp.fits
  have hin := hw.inside
  rw [hcmp.imemRead (by rw [← hm.pc]; exact hw.aligned) (by rw [← hm.pc]; omega), hm.pc]

/-- The simulator keeping to the comparison, the sequential machine fits the core. -/
theorem Comparable.fits_of_within (hm : σ.Matches C a) (hw : σ.Within C words) : Fits P a where
  legal := by
    rw [hcmp.word_at hm hw]
    exact hw.legal
  aligned := by
    rw [← hm.pc]
    exact hw.aligned
  mode := (privMode_of_matches hm).symm.trans hw.mode
  time := by
    rw [hcmp.word_at hm hw]
    exact hw.time
  ram hacc := by
    have hword := hcmp.word_at hm hw
    rw [hcmp.memSize, hword]
    exact address_inRam hcmp.xlen hm hword hw.legal hw.ram hacc

/-- One instruction: the simulator makes of it what the sequential machine makes of it. -/
theorem Comparable.step (hm : σ.Matches C a) (hmask : a.csr.privState.Masked)
    (hw : σ.Within C words) (p : Pending) :
    (a.exec P p).csr.privState.Masked ∧
    ∃ σ', σ.step C (wordAt words σ.pc) = some σ' ∧ σ'.Matches C (a.exec P p) ∧
      σ'.trace.x = σ.trace.x ++ (a.entries P (.exec p)).trace.x ∧
      σ'.trace.m = σ.trace.m ++ (a.entries P (.exec p)).trace.m ∧
      σ'.trace.c = σ.trace.c ∧
      [(σ.pc, σ'.csrView)] = (a.entries P (.exec p)).trace.c := by
  obtain ⟨j, hj, hle⟩ := hcmp.power
  have hfits := hcmp.fits_of_within hm hw
  have hword := hcmp.word_at hm hw
  have hlegal := hw.legal
  have hin := hw.inside
  have hsize := hcmp.fits
  have hpc : a.pc.toNat + 4 < 2 ^ 32 := by
    rw [← hm.pc]
    omega
  have heven : a.pc.toNat % 2 = 0 := by
    have h4 := hfits.aligned
    omega
  obtain ⟨σ', hstep, happ⟩ := agrees_of_legal (p := p) hcmp.xlen hj hle hm hmask hword hlegal
    hfits.mode hpc heven hw.ram hw.time
  refine ⟨Csr.masked_nextWith (by decide) hmask _ _, σ', hstep, ?_⟩
  rw [← instAt_of_legal hword hlegal] at happ
  refine happ.follows hcmp.xlen hj hle hcmp.memSize hm ?_
  intro hst
  rw [instAt_of_legal hword hlegal, ← hword, ← hcmp.memSize]
  apply hfits.ram
  simp only [Arch.stores, Bool.and_eq_true] at hst
  exact .inr hst.2

/-! ## Whole runs -/

section Run

variable (hwithin : ∀ n σ, Iss.runN C (wordAt words) n = some σ → σ.Within C words)

include hwithin

/-- Behind every list of instructions the simulator is in the state of the sequential machine, and
has written what the machine has written. -/
theorem Comparable.runN_matches (ps : List Pending) :
    ∃ σ, Iss.runN C (wordAt words) ps.length = some σ ∧
      σ.Matches C ((Arch.reset P s₀).runActions P (ps.map .exec)) ∧
      ((Arch.reset P s₀).runActions P (ps.map .exec)).csr.privState.Masked ∧
      σ.trace = ((Arch.reset P s₀).logActions P (ps.map .exec)).trace := by
  induction ps using List.reverseRecOn with
  | nil => exact ⟨_, rfl, hcmp.init_matches, Csr.masked_reset, rfl⟩
  | append_singleton ps p ih =>
    obtain ⟨σ, hσ, hm, hmask, htrace⟩ := ih
    obtain ⟨hmask', σ', hstep, hm', hx, hmem, hc, hretire⟩ :=
      hcmp.step hm hmask (hwithin _ σ hσ) p
    have hnext : Iss.runN C (wordAt words) (ps ++ [p]).length =
        some { σ' with trace := { σ'.trace with c := σ'.trace.c ++ [(σ.pc, σ'.csrView)] } } := by
      rw [List.length_append, List.length_singleton, Iss.runN, hσ, Option.bind_some, Iss.next,
        hstep, Option.map_some]
    rw [List.map_append, Arch.runActions_append, Arch.logActions_append, Log.trace_append]
    refine ⟨_, hnext, ⟨hm'.pc, hm'.regs, hm'.mem, hm'.csr⟩, hmask', ?_⟩
    have hlog : ((Arch.reset P s₀).runActions P (ps.map .exec)).logActions P [Action.exec p] =
        ((Arch.reset P s₀).runActions P (ps.map .exec)).entries P (.exec p) :=
      Log.append_empty _
    rw [List.map_singleton, hlog, ← htrace]
    change Trace.mk _ _ _ = Trace.mk _ _ _
    rw [hx, hmem, hc, hretire]

theorem Comparable.fits_run (ps : List Pending) :
    Fits P ((Arch.reset P s₀).runActions P (ps.map .exec)) := by
  obtain ⟨σ, hσ, hm, -, -⟩ := hcmp.runN_matches hwithin ps
  exact hcmp.fits_of_within hm (hwithin _ σ hσ)

end Run

/-! ## `ISS.run` -/

section Loop

variable {maxSteps : ℕ} {r last : Iss.RunState}

omit hcmp in
/-- A round of the loop in which nothing is scheduled fetches the word at `pc`. -/
theorem Iss.Within.runStep (hxlen : C.xlen = 32) (hw : r.σ.Within C words)
    (hpend : r.pending = none) (hpc : r.σ.pc < 2 ^ 32) (hsteps : r.steps < maxSteps) :
    (Iss.selfLoop (wordAt words r.σ.pc) = true →
      Iss.runStep C words maxSteps r = .inl (.returned r)) ∧
    ∀ σ', Iss.selfLoop (wordAt words r.σ.pc) = false →
      r.σ.step C (wordAt words r.σ.pc) = some σ' →
        Iss.runStep C words maxSteps r = .inr { r with σ := σ', steps := r.steps + 1 } := by
  have hfires : r.fires = none := by rw [Iss.RunState.fires, hpend]
  have hfetch : uXlen r.σ.pc C.xlen = r.σ.pc := by
    rw [uXlen, hxlen]
    omega
  have hround : Iss.runStep C words maxSteps r =
      if Iss.selfLoop (wordAt words r.σ.pc) then .inl (.returned r)
      else (r.σ.step C (wordAt words r.σ.pc)).elim (.inl (.raised r))
        fun σ' ↦ .inr { r with σ := σ', steps := r.steps + 1 } := by
    rw [Iss.runStep, if_pos hsteps, hfires]
    simp only [Iss.translate_privM hw.mode, hfetch]
    rw [if_neg (not_le.mpr hw.inside)]
    change (if Iss.selfLoop (wordAt words r.σ.pc) then _ else _) = _
    congr 1
    rw [wordAt]
    cases r.σ.step C (words.getD (r.σ.pc / 4) 0) <;> rfl
  constructor
  · intro hself
    rw [hround, if_pos hself]
  · intro σ' hself hstep
    rw [hround, hself, if_neg Bool.false_ne_true, hstep]
    rfl

omit hcmp in
/-- The loop returns the state it is in. -/
theorem Iss.eq_of_returned (h : Iss.runStep C words maxSteps r = .inl (.returned last)) :
    r = last := by
  unfold Iss.runStep at h
  split_ifs at h with hsteps
  · cases hfires : r.fires with
    | some cause =>
      rw [hfires] at h
      cases h
    | none =>
      rw [hfires] at h
      cases ht : r.σ.translate C r.σ.pc .fetch with
      | error σ' =>
        simp only [ht] at h
        cases h
      | ok addr =>
        simp only [ht] at h
        split_ifs at h
        · exact Iss.RunResult.returned.inj (Sum.inl.inj h)
        · exact Iss.RunResult.returned.inj (Sum.inl.inj h)
        · cases hstep : r.σ.step C (words.getD (addr / 4) 0) with
          | none =>
            rw [hstep] at h
            cases h
          | some σ' =>
            rw [hstep] at h
            cases h
  · cases h

omit hcmp in
/-- `jal x0, .` changes nothing. -/
theorem Iss.step_selfLoop {word : BitVec 32} (hxlen : C.xlen = 32) (hpc : σ.pc < 2 ^ 32)
    (hself : Iss.selfLoop word = true) (hrd : rdOf word = 0) : σ.step C word = some σ := by
  simp only [Iss.selfLoop, Bool.and_eq_true, beq_iff_eq] at hself
  obtain ⟨hop, hoff⟩ := hself
  have hne : word ≠ 0 := by
    rintro rfl
    exact absurd hop (by decide)
  have hto : C.uxlen (σ.pc + IssConfig.jalOffset word) = σ.pc := by
    rw [hoff, IssConfig.uxlen, uXlen, hxlen]
    omega
  unfold Iss.step
  rw [if_neg hne]
  simp only [hop]
  change some { σ.wr C (rdOf word) (σ.pc + 4) with
    pc := C.uxlen (σ.pc + IssConfig.jalOffset word) } = _
  rw [hto, hrd]
  rfl

variable
  (hends : Loop.Ends (Iss.runStep C words maxSteps) (.start (Iss.init C.memSize) none)
    (.returned last))
  (hwithin : ∀ r, Loop.Visits (Iss.runStep C words maxSteps) (.start (Iss.init C.memSize) none) r →
    r.σ.Within C words)
  (hrd : rdOf (wordAt words last.σ.pc) = 0)

include hends hwithin hrd

/-- Behind every list of instructions the simulator is in the state of the sequential machine, or
has stopped in it for good. -/
theorem Comparable.run_matches (ps : List Pending) :
    ∃ r, Loop.Visits (Iss.runStep C words maxSteps) (.start (Iss.init C.memSize) none) r ∧
      r.pending = none ∧
      r.σ.Matches C ((Arch.reset P s₀).runActions P (ps.map .exec)) ∧
      ((Arch.reset P s₀).runActions P (ps.map .exec)).csr.privState.Masked ∧
      (r.σ.trace.x = ((Arch.reset P s₀).logActions P (ps.map .exec)).trace.x ∧
        r.σ.trace.m = ((Arch.reset P s₀).logActions P (ps.map .exec)).trace.m) ∧
      (r.steps = ps.length ∨ r = last) := by
  induction ps using List.reverseRecOn with
  | nil =>
    exact ⟨_, .start, rfl, hcmp.init_matches, Csr.masked_reset, ⟨rfl, rfl⟩, .inl rfl⟩
  | append_singleton ps p ih =>
    obtain ⟨r, hv, hpend, hm, hmask, ⟨hx, hmem⟩, hat⟩ := ih
    have hw := hwithin r hv
    obtain ⟨j, hj, hle⟩ := hcmp.power
    have hpc : r.σ.pc < 2 ^ 32 := by
      have hin := hw.inside
      have hfits := hcmp.fits
      omega
    have hsteps : r.steps < maxSteps := by
      by_contra hno
      have hrun : Iss.runStep C words maxSteps r = .inl (.runaway r) := by
        rw [Iss.runStep, if_neg hno]
      cases (hends.of_visits hv).unique (.done hrun)
    have hround := hw.runStep hcmp.xlen hpend hpc hsteps
    obtain ⟨hmask', σ', hstep, hm', hx', hmem', -, -⟩ := hcmp.step hm hmask hw p
    have hlog : ((Arch.reset P s₀).runActions P (ps.map .exec)).logActions P [Action.exec p] =
        ((Arch.reset P s₀).runActions P (ps.map .exec)).entries P (.exec p) :=
      Log.append_empty _
    rw [List.map_append, List.map_singleton, Arch.runActions_append, Arch.logActions_append,
      Log.trace_append, hlog]
    rw [hx] at hx'
    rw [hmem] at hmem'
    cases hself : Iss.selfLoop (wordAt words r.σ.pc) with
    | true =>
      obtain rfl : last = r := by
        have hres := (hends.of_visits hv).unique (.done (hround.1 hself))
        exact Iss.RunResult.returned.inj hres
      rw [Iss.step_selfLoop hcmp.xlen hpc hself hrd] at hstep
      cases hstep
      exact ⟨last, hv, hpend, hm', hmask', ⟨hx', hmem'⟩, .inr rfl⟩
    | false =>
      have hgo := hround.2 σ' hself hstep
      have hlast : r ≠ last := by
        rintro rfl
        obtain ⟨t, -, ht⟩ := hends.last
        obtain rfl := Iss.eq_of_returned ht
        cases hgo.symm.trans ht
      refine ⟨_, hv.next hgo, hpend, hm', hmask', ⟨hx', hmem'⟩, .inl ?_⟩
      rw [List.length_append, List.length_singleton, hat.resolve_right hlast]

end Loop

end Words

/-! ## What the core is left with -/

theorem Iss.steps_le {C : IssConfig} {words : List (BitVec 32)} {maxSteps : ℕ}
    {r last : Iss.RunState}
    (h : Loop.Ends (Iss.runStep C words maxSteps) r (.returned last)) : r.steps ≤ last.steps := by
  generalize hres : Iss.RunResult.returned last = res at h
  induction h with
  | done hdone =>
    subst hres
    rw [Iss.eq_of_returned hdone]
  | next hnext _ ih =>
    have hle := ih hres
    obtain ⟨-, ⟨cause, -, rfl⟩ | ⟨-, -, rfl⟩ | ⟨-, -, hcount⟩⟩ := Iss.runStep_inr hnext
    · exact hle
    · exact hle
    · omega

theorem RegFile.get_write_of_nil {f : RegFile w} {en : Bool} {rd : BitVec 5} {v : BitVec w}
    (h : xEntry en rd v = []) (r : BitVec 5) : (f.write en rd v).get r = f.get r := by
  have hno : (en && rd != 0) = false := by
    unfold xEntry at h
    split_ifs at h with hc
    simpa using hc
  rw [Bool.and_eq_false_iff, bne_eq_false_iff_eq] at hno
  by_cases hr : r = 0
  · rw [RegFile.get, if_pos hr, RegFile.get, if_pos hr]
  · rw [RegFile.get, if_neg hr, RegFile.get, if_neg hr]
    rcases hno with rfl | rfl
    · simp [RegFile.write]
    · simpa [RegFile.write] using fun _ h0 ↦ absurd h0 hr

theorem eq_nil_of_prefix_append {α : Type} {l l' d : List α} (h : l <+: l') (happ : l' ++ d = l) :
    d = [] := by
  have hle := h.length_le
  have hlen := congrArg List.length happ
  rw [List.length_append] at hlen
  exact List.length_eq_zero_iff.mp (by omega)

theorem length_actions_mono {P : Params} {s₀ : State w k} {ins : ℕ → Inputs} :
    Monotone fun n ↦ (actions P s₀ ins n).length := by
  apply monotone_nat_of_le_succ
  intro n
  change _ ≤ (actions P s₀ ins n ++ _).length
  rw [List.length_append]
  exact Nat.le_add_right _ _

/-- A legal word raises no float flags. -/
theorem Fits.flags {P : Params} {a : Arch 32} (h : Fits P a) : a.flags P = 0 := by
  have hfloat := (integerWord_of_legal h.legal).arith
  rw [Arch.flags, Arch.issued_of_legal rfl h.legal]
  rw [isFloatArith, Bool.or_eq_false_iff] at hfloat
  simp [Reg2.ofWord, Reg2.isOpFp, Reg2.isFma, Reg2.opcode, hfloat]

/-- With nothing of the integer side in flight, the register file and the memory are drained. -/
theorem drained_of_inFlight {P : Params} {s : State 32 k} (hx : (inFlight s).trace.x = [])
    (hm : (inFlight s).trace.m = []) :
    (∀ r, s.regs.get r = (drainX s).get r) ∧ s.ram.dataMemory = drainM P s := by
  constructor
  · intro r
    have hnil : (inFlight s).x = [] := List.map_eq_nil_iff.mp hx
    obtain ⟨h4, h3⟩ := List.append_eq_nil_iff.mp hnil
    rw [drainX, RegFile.get_write_of_nil h3, RegFile.get_write_of_nil h4]
  · have hw : s.reg3.memWrite = false := by
      by_contra hne
      have hone : (inFlight s).m = [(s.reg3.aluOut, s.reg3.readData2, s.reg3.funct3)] := by
        simp [inFlight, mEntry, hne]
      have hlen := congrArg List.length hm
      have hpos : 0 < storeWidth 32 s.reg3.funct3 := by
        unfold storeWidth
        split_ifs <;> decide
      simp [Log.trace, hone, writtenBytes] at hlen
      omega
    rw [drainM, hw, if_neg Bool.false_ne_true]

/-! ## A program -/

/-- `addi x1, x0, 5`, `sw x1, 64(x0)` and `jal x0, .`. -/
def haltWords : List (BitVec 32) := [0x00500093#32, 0x04102023#32, 0x0000006F#32]

def haltParams : Params := { insts := instsOfWords haltWords }

def haltIss : IssConfig := { fpStep := fun _ _ ↦ none }

theorem halt_comparable : Comparable haltParams haltIss haltWords (default : State 32 0) where
  insts := rfl
  mode := rfl
  profile := rfl
  predictor := rfl
  latency := rfl
  xlen := rfl
  memSize := rfl
  power := ⟨7, rfl, by decide⟩
  fits := by decide
  legal := by
    rw [haltWords, List.forall_mem_cons, List.forall_mem_cons, List.forall_mem_singleton]
    exact ⟨.inr (by decide), .inr (by decide), .inr (by decide)⟩
  zero n hn := by
    have hlt : n < 128 := hn
    change (if (BitVec.ofNat 32 n).toNat < 128 then (0 : BitVec 8) else _) = 0
    rw [BitVec.toNat_ofNat, Nat.mod_eq_of_lt (by omega), if_pos hlt]

theorem halt_quiet (s₀ : State 32 k) (ins : ℕ → Inputs) (n : ℕ) :
    interruptRequest (run haltParams s₀ ins n) = false := by
  have hgood : EveryInst 32 haltParams (avoidsCsr 32 [csrAddrMie, csrAddrSie]) :=
    everyInst_of_lt (by decide) (by decide) (by decide) (by decide +kernel)
  exact interruptRequest_of_mie (mie_of_avoidsCsr hgood rfl (run_reachable _ _ _ _))

theorem Iss.step_store {C : IssConfig} {σ : Iss} {word : BitVec 32} (h0 : word ≠ 0)
    (hop : opcodeOf word = opcodeStore) (hmode : σ.privMode = privM) :
    σ.step C word = (Iss.storeBytes (funct3Of word)).map fun n ↦
      { σ.storeMem C (uXlen (C.uxlen (σ.regs (rs1Of word) + IssConfig.immS word)) C.xlen)
          (σ.regs (rs2Of word)) n with pc := σ.pc + 4 } := by
  rw [Iss.step, if_neg h0]
  simp only [hop]
  rw [Iss.translate_privM hmode _ .store]
  rfl

/-- Where the program is at any time. -/
structure AtHalt (σ : Iss) : Prop where
  pc : σ.pc = 0 ∨ σ.pc = 4 ∨ σ.pc = 8
  zero : σ.regs 0 = 0
  csr : σ.csrView = (Iss.init 128).csrView

theorem AtHalt.mode {σ : Iss} (h : AtHalt σ) : σ.privMode = privM := congrArg CsrView.privMode h.csr

theorem AtHalt.within {σ : Iss} (h : AtHalt σ) : σ.Within haltIss haltWords := by
  have hstore : haltIss.uxlen ((σ.regs 0 : ℤ) + IssConfig.immS 0x04102023#32) + 4 ≤ 128 := by
    rw [h.zero]
    decide
  constructor
  · constructor
    · rcases h.pc with hpc | hpc | hpc <;> rw [hpc] <;> decide
    · rcases h.pc with hpc | hpc | hpc <;> rw [hpc] <;> decide
    · rcases h.pc with hpc | hpc | hpc <;> rw [hpc]
    · exact h.mode
    · rcases h.pc with hpc | hpc | hpc
      · rw [hpc]
        exact ⟨fun hop ↦ absurd hop (by decide), fun hop ↦ absurd hop (by decide)⟩
      · rw [hpc]
        exact ⟨fun hop ↦ absurd hop (by decide), fun _ ↦ hstore⟩
      · rw [hpc]
        exact ⟨fun hop ↦ absurd hop (by decide), fun hop ↦ absurd hop (by decide)⟩
  · rcases h.pc with hpc | hpc | hpc <;> rw [hpc] <;> decide

theorem AtHalt.step {σ : Iss} (h : AtHalt σ) :
    ∃ σ', σ.step haltIss (wordAt haltWords σ.pc) = some σ' ∧ AtHalt σ' ∧
      (σ.pc < 8 → σ'.pc = σ.pc + 4) := by
  have hmode := h.mode
  obtain ⟨hpc, hzero, hcsr⟩ := h
  rcases hpc with hpc | hpc | hpc
  · rw [hpc]
    refine ⟨{ σ.wr haltIss 1 _ with pc := σ.pc + 4 }, rfl, ⟨?_, hzero, hcsr⟩, fun _ ↦ ?_⟩
    all_goals rw [hpc]
    exact .inr (.inl rfl)
  · have hop : opcodeOf 0x04102023#32 = opcodeStore := rfl
    have hstep : σ.step haltIss 0x04102023#32 = some { σ.storeMem haltIss (uXlen
        (haltIss.uxlen (σ.regs 0 + IssConfig.immS 0x04102023#32)) haltIss.xlen) (σ.regs 1) 4 with
          pc := σ.pc + 4 } := by
      rw [Iss.step_store (by decide) hop hmode]
      rfl
    obtain ⟨hregs, -, -, hview⟩ := Iss.storeMem_regs (C := haltIss) (σ := σ) (uXlen
        (haltIss.uxlen (σ.regs 0 + IssConfig.immS 0x04102023#32)) haltIss.xlen) (σ.regs 1) 4
    rw [hpc]
    refine ⟨_, hstep, ⟨?_, ?_, ?_⟩, fun _ ↦ ?_⟩
    · rw [hpc]
      exact .inr (.inr rfl)
    · exact (congrFun hregs 0).trans hzero
    · exact hview.trans hcsr
    · rw [hpc]
  · rw [hpc]
    refine ⟨σ, Iss.step_selfLoop rfl (by omega) (by decide) (by decide), ⟨.inr (.inr hpc), hzero,
      hcsr⟩, fun hlt ↦ absurd hlt (by decide)⟩

theorem runN_atHalt (n : ℕ) (σ : Iss) (h : Iss.runN haltIss (wordAt haltWords) n = some σ) :
    AtHalt σ := by
  induction n generalizing σ with
  | zero =>
    obtain rfl : Iss.init 128 = σ := Option.some.inj h
    exact ⟨.inl rfl, rfl, rfl⟩
  | succ n ih =>
    obtain ⟨τ, hτ, hnext⟩ := Option.bind_eq_some_iff.mp h
    obtain ⟨τ', hstep, hat, -⟩ := (ih τ hτ).step
    rw [Iss.next, hstep] at hnext
    obtain rfl := Option.some.inj hnext
    exact ⟨hat.pc, hat.zero, hat.csr⟩

/-- A round: the program goes on, or it has stopped. -/
theorem AtHalt.runStep {r : Iss.RunState} (h : AtHalt r.σ) (hpend : r.pending = none)
    (hsteps : r.σ.pc = 4 * r.steps) :
    (r.σ.pc < 8 ∧ ∃ r', Iss.runStep haltIss haltWords 5000 r = .inr r' ∧ AtHalt r'.σ ∧
      r'.pending = none ∧ r'.σ.pc = 4 * r'.steps ∧ r'.σ.pc = r.σ.pc + 4) ∨
    (r.σ.pc = 8 ∧ Iss.runStep haltIss haltWords 5000 r = .inl (.returned r)) := by
  obtain ⟨σ', hstep, hat, hgo⟩ := h.step
  have hle : r.σ.pc ≤ 8 := by
    rcases h.pc with hpc | hpc | hpc <;> omega
  have hlt : r.steps < 5000 := by omega
  obtain ⟨hstop, hnext⟩ := h.within.runStep rfl hpend (by omega) hlt
  by_cases hpc : r.σ.pc = 8
  · refine .inr ⟨hpc, hstop ?_⟩
    rw [hpc]
    decide
  · have hpc' := hgo (by omega)
    have hself : Iss.selfLoop (wordAt haltWords r.σ.pc) = false := by
      rcases h.pc with hat | hat | hat
      · rw [hat]
        decide
      · rw [hat]
        decide
      · exact absurd hat hpc
    refine .inl ⟨by omega, _, hnext σ' hself hstep, hat, hpend, ?_, hpc'⟩
    change σ'.pc = 4 * (r.steps + 1)
    omega

theorem visits_atHalt (r : Iss.RunState)
    (h : Loop.Visits (Iss.runStep haltIss haltWords 5000) (.start (Iss.init 128) none) r) :
    AtHalt r.σ ∧ r.pending = none ∧ r.σ.pc = 4 * r.steps := by
  induction h with
  | start => exact ⟨⟨.inl rfl, rfl, rfl⟩, rfl, rfl⟩
  | next _ hnext ih =>
    obtain ⟨hat, hpend, hsteps⟩ := ih
    rcases hat.runStep hpend hsteps with ⟨-, r', hr', h, hp, hs, -⟩ | ⟨-, hlast⟩
    · cases hr'.symm.trans hnext
      exact ⟨h, hp, hs⟩
    · cases hlast.symm.trans hnext

theorem halt_ends : ∃ last, Loop.Ends (Iss.runStep haltIss haltWords 5000)
    (.start (Iss.init 128) none) (.returned last) ∧ last.σ.pc = 8 := by
  have hends : ∃ res, Loop.Ends (Iss.runStep haltIss haltWords 5000) (.start (Iss.init 128) none)
      res := by
    apply Loop.ends_of_measure fun r ↦ 8 - r.σ.pc
    intro r r' hv hnext
    obtain ⟨hat, hpend, hsteps⟩ := visits_atHalt r hv
    rcases hat.runStep hpend hsteps with ⟨hlt, r₁, hr₁, -, -, -, hgo⟩ | ⟨-, hlast⟩
    · cases hr₁.symm.trans hnext
      omega
    · cases hlast.symm.trans hnext
  obtain ⟨res, hres⟩ := hends
  obtain ⟨r, hv, hlast⟩ := hres.last
  obtain ⟨hat, hpend, hsteps⟩ := visits_atHalt r hv
  rcases hat.runStep hpend hsteps with ⟨-, r', hr', -⟩ | ⟨hpc, hret⟩
  · cases hr'.symm.trans hlast
  · cases hret.symm.trans hlast
    exact ⟨r, hres, hpc⟩

/-! ## The comparison -/

section Comparison

variable {P : Params} {C : IssConfig} {words : List (BitVec 32)} {s₀ : State 32 k}

/-- The core commits what the simulator writes, instruction for instruction. -/
def FollowsIss (P : Params) (C : IssConfig) (words : List (BitVec 32)) (s₀ : State 32 k)
    (ins : ℕ → Inputs) : Prop :=
  (∀ n, ∃ m σ, Iss.runN C (wordAt words) m = some σ ∧
    (commitLog P s₀ ins n).trace ≤ σ.trace) ∧
  ∀ m, ∃ n σ, Iss.runN C (wordAt words) m = some σ ∧
    σ.trace ≤ (commitLog P s₀ ins n).trace

/-- A run of legal instructions in machine mode, with accesses to the RAM alone, and with no
enabled interrupt pending. -/
structure LegalRun (P : Params) (C : IssConfig) (words : List (BitVec 32)) (s₀ : State 32 k)
    (ins : ℕ → Inputs) : Prop where
  comparable : Comparable P C words s₀
  legal : ∀ n σ, Iss.runN C (wordAt words) n = some σ → σ.AtLegal C words
  quiet : ∀ n, interruptRequest (run P s₀ ins n) = false

/-- `csrrs x1, csr, x0` and `jal x0, .`. -/
def readWords (csr : BitVec 12) : List (BitVec 32) := [csr ++ 0x020F3#20, 0x0000006F#32]

def readParams (csr : BitVec 12) : Params := { insts := instsOfWords (readWords csr) }

section Reads

variable {csr : BitVec 12}

theorem read_comparable (hlegal : legalWord (csr ++ 0x020F3#20) = true) :
    Comparable (readParams csr) haltIss (readWords csr) (default : State 32 0) where
  insts := rfl
  mode := rfl
  profile := rfl
  predictor := rfl
  latency := rfl
  xlen := rfl
  memSize := rfl
  power := ⟨7, rfl, by decide⟩
  fits := by
    change 8 ≤ 128
    decide
  legal := by
    rw [readWords, List.forall_mem_cons, List.forall_mem_singleton]
    exact ⟨.inr hlegal, .inr (by decide)⟩
  zero := halt_comparable.zero

variable (hread : ∃ τ, (Iss.init 128).step haltIss (csr ++ 0x020F3#20) = some τ ∧ τ.pc = 4 ∧
  τ.privMode = privM ∧ τ.trace.x = [(1, 0)])

include hread

/-- The simulator reads zero, once, and stops. -/
theorem runN_atRead (n : ℕ) (σ : Iss) (h : Iss.runN haltIss (wordAt (readWords csr)) n = some σ) :
    σ = Iss.init 128 ∨ σ.pc = 4 ∧ σ.privMode = privM ∧ σ.trace.x = [(1, 0)] := by
  induction n generalizing σ with
  | zero => exact .inl (Option.some.inj h).symm
  | succ n ih =>
    obtain ⟨τ, hτ, hnext⟩ := Option.bind_eq_some_iff.mp h
    right
    rcases ih τ hτ with rfl | ⟨hpc, hmode, hx⟩
    · obtain ⟨τ', hstep, hpc, hmode, hx⟩ := hread
      have hword : wordAt (readWords csr) (Iss.init 128).pc = csr ++ 0x020F3#20 := rfl
      rw [Iss.next, hword, hstep] at hnext
      obtain rfl := Option.some.inj hnext
      exact ⟨hpc, hmode, hx⟩
    · have hword : wordAt (readWords csr) τ.pc = 0x0000006F#32 := by
        rw [hpc]
        rfl
      rw [Iss.next, hword, Iss.step_selfLoop rfl (by omega) (by decide) (by decide)] at hnext
      obtain rfl := Option.some.inj hnext
      exact ⟨hpc, hmode, hx⟩

theorem read_legalRun (hlegal : legalWord (csr ++ 0x020F3#20) = true)
    (hgood : EveryInst 32 (readParams csr) (avoidsCsr 32 [csrAddrMie, csrAddrSie])) :
    LegalRun (readParams csr) haltIss (readWords csr) (default : State 32 0) fun _ ↦ {} where
  comparable := read_comparable hlegal
  legal n σ h := by
    rcases runN_atRead hread n σ h with rfl | ⟨hpc, hmode, -⟩
    · have hop : opcodeOf (csr ++ 0x020F3#20) = opcodeSystem := by
        apply BitVec.eq_of_toNat_eq
        rw [opcodeOf, BitVec.extractLsb'_toNat, BitVec.toNat_append, ← Nat.shiftLeft_add_eq_or_of_lt
          (BitVec.isLt _), Nat.shiftRight_zero, Nat.shiftLeft_eq]
        change (csr.toNat * 2 ^ 20 + 8435) % 2 ^ 7 = 115
        omega
      exact
        { inside := by
            change 0 < 8
            decide
          legal := hlegal
          aligned := rfl
          mode := rfl
          ram := ⟨fun h ↦ absurd (hop.symm.trans h) (by decide),
            fun h ↦ absurd (hop.symm.trans h) (by decide)⟩ }
    · have hword : wordAt (readWords csr) σ.pc = 0x0000006F#32 := by
        rw [hpc]
        rfl
      exact
        { inside := by
            rw [hpc]
            change 4 < 8
            decide
          legal := by
            rw [hword]
            decide
          aligned := by rw [hpc]
          mode := hmode
          ram := by
            rw [hword]
            exact ⟨fun h ↦ absurd h (by decide), fun h ↦ absurd h (by decide)⟩ }
  quiet n := interruptRequest_of_mie (mie_of_avoidsCsr hgood rfl (run_reachable _ _ _ _))

theorem not_followsIss_read {n v : ℕ} (hv : v ≠ 0)
    (hcommit : (commitLog (readParams csr) (default : State 32 0) (fun _ ↦ {}) n).trace.x[0]? =
      some (1, v)) :
    ¬FollowsIss (readParams csr) haltIss (readWords csr) (default : State 32 0) fun _ ↦ {} := by
  rintro ⟨hsound, -⟩
  obtain ⟨m, σ, hσ, hle⟩ := hsound n
  have hat := getElem?_of_prefix hle.1 hcommit
  rcases runN_atRead hread m σ hσ with rfl | ⟨-, -, hx⟩
  · cases hat
  · rw [hx] at hat
    exact hv (Prod.mk.inj (Option.some.inj hat)).2.symm

end Reads

/-- The cycle counter runs and the timer interrupt is pending on the core alone. -/
theorem commitLog_reads_time :
    (LegalRun (readParams csrAddrMcycle) haltIss (readWords csrAddrMcycle) (default : State 32 0)
        (fun _ ↦ {}) ∧
      ¬FollowsIss (readParams csrAddrMcycle) haltIss (readWords csrAddrMcycle)
        (default : State 32 0) fun _ ↦ {}) ∧
    (LegalRun (readParams csrAddrMip) haltIss (readWords csrAddrMip) (default : State 32 0)
        (fun _ ↦ {}) ∧
      ¬FollowsIss (readParams csrAddrMip) haltIss (readWords csrAddrMip)
        (default : State 32 0) fun _ ↦ {}) := by
  have hgood : ∀ csr ∈ [csrAddrMcycle, csrAddrMip],
      EveryInst 32 (readParams csr) (avoidsCsr 32 [csrAddrMie, csrAddrSie]) := by
    rw [List.forall_mem_cons, List.forall_mem_singleton]
    constructor
    all_goals exact everyInst_of_lt (by decide) (by decide) (by decide) (by decide +kernel)
  have hcycle : ∃ τ, (Iss.init 128).step haltIss (csrAddrMcycle ++ 0x020F3#20) = some τ ∧
      τ.pc = 4 ∧ τ.privMode = privM ∧ τ.trace.x = [(1, 0)] := ⟨_, rfl, rfl, rfl, rfl⟩
  have hmip : ∃ τ, (Iss.init 128).step haltIss (csrAddrMip ++ 0x020F3#20) = some τ ∧
      τ.pc = 4 ∧ τ.privMode = privM ∧ τ.trace.x = [(1, 0)] := ⟨_, rfl, rfl, rfl, rfl⟩
  refine ⟨⟨read_legalRun hcycle (by decide) (hgood _ (by simp)), ?_⟩,
    ⟨read_legalRun hmip (by decide) (hgood _ (by simp)), ?_⟩⟩
  · exact not_followsIss_read (n := 8) (v := 2) hcycle (by decide) (by decide +kernel)
  · exact not_followsIss_read (n := 8) (v := 128) hmip (by decide) (by decide +kernel)

/-- The core follows the simulator through every run of legal instructions that access no counter
and not `mip`. -/
theorem commitLog_follows_iss (ins : ℕ → Inputs) (hrun : LegalRun P C words s₀ ins)
    (htime : ∀ n σ, Iss.runN C (wordAt words) n = some σ →
      timeFree (wordAt words σ.pc) = true) :
    FollowsIss P C words s₀ ins := by
  have hcmp := hrun.comparable
  have hwithin : ∀ n σ, Iss.runN C (wordAt words) n = some σ → σ.Within C words :=
    fun n σ h ↦ ⟨hrun.legal n σ h, htime n σ h⟩
  obtain ⟨j, hj, hle⟩ := hcmp.power
  have hcycles : ∀ n, (∀ m < n, Safe P (run P s₀ ins m) (ins m)) ∧ FrontInv P (run P s₀ ins n) ∧
      ∃ ps : List Pending, actions P s₀ ins n = ps.map .exec :=
    safe_run_of_fits hcmp.mode hcmp.profile hcmp.predictor hcmp.latency hcmp.legalImage
      (by rw [hcmp.memSize, hj]; exact hle) (hcmp.fits_run hwithin) hrun.quiet
  have hsafe : ∀ n, Safe P (run P s₀ ins n) (ins n) :=
    fun n ↦ (hcycles (n + 1)).1 n (Nat.lt_succ_self n)
  constructor
  · intro n
    obtain ⟨-, -, ps, hps⟩ := hcycles n
    obtain ⟨σ, hσ, -, -, htrace⟩ := hcmp.runN_matches hwithin ps
    refine ⟨_, σ, hσ, ?_⟩
    rw [htrace, ← hps]
    exact Log.trace_mono (commitLog_le hcmp.mode n fun m _ ↦ hsafe m)
  · intro m
    obtain ⟨n₀, hn₀⟩ := actions_unbounded hcmp.mode hsafe m
    obtain ⟨n, hn⟩ := commitLog_overtakes hcmp.mode hsafe n₀
    obtain ⟨-, -, ps, hps⟩ := hcycles n₀
    obtain ⟨σ, hσ, -, -, htrace⟩ := hcmp.runN_matches hwithin (ps.take m)
    have hlen : (ps.take m).length = m := by
      rw [hps, List.length_map] at hn₀
      rw [List.length_take]
      omega
    rw [hlen] at hσ
    refine ⟨n, σ, hσ, ?_⟩
    rw [htrace]
    refine (Log.trace_mono ?_).trans (Log.trace_mono hn)
    rw [hps]
    exact Arch.logActions_mono ((List.take_prefix m ps).map _)

/-- A program that stores and stops is committed as the simulator executes it. -/
theorem commitLog_follows_halt :
    FollowsIss haltParams haltIss haltWords (default : State 32 0) fun _ ↦ {} :=
  commitLog_follows_iss (fun _ ↦ {})
    { comparable := halt_comparable
      legal := fun n σ h ↦ (runN_atHalt n σ h).within.toAtLegal
      quiet := halt_quiet _ _ } fun n σ h ↦ (runN_atHalt n σ h).within.time

/-- When `run` has returned at `jal x0, .`, the core comes to the same registers, memory and CSR
file, and keeps them. -/
theorem core_halts_as_iss {maxSteps : ℕ} {last : Iss.RunState} (hcmp : Comparable P C words s₀)
    (ins : ℕ → Inputs)
    (hends : Loop.Ends (Iss.runStep C words maxSteps) (.start (Iss.init C.memSize) none)
      (.returned last))
    (hwithin : ∀ r, Loop.Visits (Iss.runStep C words maxSteps) (.start (Iss.init C.memSize) none) r →
      r.σ.Within C words)
    (hquiet : ∀ n, interruptRequest (run P s₀ ins n) = false)
    (hrd : rdOf (wordAt words last.σ.pc) = 0) :
    ∃ N, ∀ n, N ≤ n →
      (∀ r, ((run P s₀ ins n).regs.get r).toNat = last.σ.regs r) ∧
      (∀ i < C.memSize, (run P s₀ ins n).ram.dataMemory (BitVec.ofNat 32 i) = last.σ.mem i) ∧
      (run P s₀ ins n).csr.view = last.σ.csrView := by
  obtain ⟨j, hj, hle⟩ := hcmp.power
  have hmatch := hcmp.run_matches hends hwithin hrd
  have hfits : ∀ ps : List Pending, Fits P ((Arch.reset P s₀).runActions P (ps.map .exec)) := by
    intro ps
    obtain ⟨r, hv, -, hm, -⟩ := hmatch ps
    exact hcmp.fits_of_within hm (hwithin r hv)
  have hrun : ∀ n, (∀ m < n, Safe P (run P s₀ ins m) (ins m)) ∧ FrontInv P (run P s₀ ins n) ∧
      ∃ ps : List Pending, actions P s₀ ins n = ps.map .exec :=
    safe_run_of_fits hcmp.mode hcmp.profile hcmp.predictor hcmp.latency hcmp.legalImage
      (by rw [hcmp.memSize, hj]; exact hle) hfits hquiet
  have hsafe : ∀ n, Safe P (run P s₀ ins n) (ins n) :=
    fun n ↦ (hrun (n + 1)).1 n (Nat.lt_succ_self n)
  -- once the simulator has stopped, the machine stays in its last state and writes nothing
  have hlast : ∀ n, last.steps < (actions P s₀ ins n).length →
      last.σ.Matches C ((Arch.reset P s₀).runActions P (actions P s₀ ins n)) ∧
      last.σ.trace.x = ((Arch.reset P s₀).logActions P (actions P s₀ ins n)).trace.x ∧
      last.σ.trace.m = ((Arch.reset P s₀).logActions P (actions P s₀ ins n)).trace.m := by
    intro n hn
    obtain ⟨-, -, ps, hps⟩ := hrun n
    rw [hps] at hn ⊢
    rw [List.length_map] at hn
    obtain ⟨r, hv, -, hm, -, htrace, hsteps | rfl⟩ := hmatch ps
    · have := Iss.steps_le (hends.of_visits hv)
      omega
    · exact ⟨hm, htrace⟩
  obtain ⟨n₀, hn₀⟩ := actions_unbounded hcmp.mode hsafe (last.steps + 1)
  obtain ⟨n₁, hn₁⟩ := commitLog_overtakes hcmp.mode hsafe n₀
  refine ⟨max n₀ n₁, fun n hn ↦ ?_⟩
  have hlen : last.steps < (actions P s₀ ins n).length :=
    hn₀.trans (length_actions_mono ((le_max_left _ _).trans hn))
  obtain ⟨hm, hx, hmem⟩ := hlast n hlen
  obtain ⟨-, hx₀, hmem₀⟩ := hlast n₀ hn₀
  -- all of it has been committed, so nothing is in flight
  have hdone : last.σ.trace.x <+: (commitLog P s₀ ins n).trace.x ∧
      last.σ.trace.m <+: (commitLog P s₀ ins n).trace.m := by
    have hle := Log.trace_mono (hn₁.trans (commitLog_mono ((le_max_right n₀ n₁).trans hn)))
    rw [hx₀, hmem₀]
    exact ⟨hle.1, hle.2.1⟩
  have hlog := congrArg Log.trace (log_always hcmp.mode hsafe n)
  rw [Log.trace_append] at hlog
  have hflight : (inFlight (run P s₀ ins n)).trace.x = [] ∧
      (inFlight (run P s₀ ins n)).trace.m = [] := by
    constructor
    · exact eq_nil_of_prefix_append hdone.1 ((congrArg Trace.x hlog).trans hx.symm)
    · exact eq_nil_of_prefix_append hdone.2 ((congrArg Trace.m hlog).trans hmem.symm)
  obtain ⟨hregs, hram⟩ := drained_of_inFlight hflight.1 hflight.2
  have hsim := sim_always hcmp.mode hsafe n
  obtain ⟨-, -, ps, hps⟩ := hrun n
  have hfit := hfits ps
  rw [← hps] at hfit
  refine ⟨?_, ?_, ?_⟩
  · intro r
    rw [hregs r, hsim.regs, hm.regs]
  · intro i hi
    rw [hram, hsim.mem, hm.mem i hi]
  · rw [hsim.csr_eq hfit.flags, hm.csr]

theorem core_halts_after_store :
    ∃ last, Loop.Ends (Iss.runStep haltIss haltWords 5000) (.start (Iss.init 128) none)
        (.returned last) ∧
      ∃ N, ∀ n, N ≤ n →
        (∀ r, ((run haltParams (default : State 32 0) (fun _ ↦ {}) n).regs.get r).toNat =
          last.σ.regs r) ∧
        (∀ i < 128, (run haltParams (default : State 32 0) (fun _ ↦ {}) n).ram.dataMemory
          (BitVec.ofNat 32 i) = last.σ.mem i) ∧
        (run haltParams (default : State 32 0) (fun _ ↦ {}) n).csr.view = last.σ.csrView := by
  obtain ⟨last, hends, hpc⟩ := halt_ends
  have hrd : rdOf (wordAt haltWords last.σ.pc) = 0 := by
    rw [hpc]
    decide
  exact ⟨last, hends, core_halts_as_iss halt_comparable (fun _ ↦ {}) hends
    (fun r hv ↦ (visits_atHalt r hv).1.within) (halt_quiet _ _) hrd⟩

end Comparison

end RvPipeline
