import RvPipeline.Iss.CsrOps
import RvPipeline.Trap.Stacks
import RvPipeline.Trap.Privilege

/-!
# Nested traps

The simulator keeps the same two frames as `CSR.v`, and in both a trap and the matching return nest.
-/

namespace RvPipeline

/-! ## Numbers cut to 32 bits -/

/-- A register is cut when it is written; the bits of the frames are below the cut. -/
theorem u32_update (m mask put put' : ℕ) (h : ∀ j < 32, put'.testBit j = put.testBit j) :
    u32 (andNot (u32 m) mask ||| put' : ℕ) = u32 (andNot m mask ||| put : ℕ) := by
  apply Nat.eq_of_testBit_eq
  intro j
  rw [testBit_u32, testBit_u32, Nat.testBit_or, Nat.testBit_or, testBit_andNot, testBit_andNot,
    testBit_u32]
  by_cases hj : j < 32
  · simp [hj, h j hj]
  · simp [hj]

theorem u32_field (m : ℕ) {i : ℕ} (hi : i < 32) : (u32 m >>> i) &&& 1 = (m >>> i) &&& 1 := by
  apply Nat.eq_of_testBit_eq
  intro j
  have hu := testBit_moveBit (u32 m) i 0 j
  have hm := testBit_moveBit m i 0 j
  rw [Nat.shiftLeft_zero] at hu hm
  rw [hu, hm, testBit_u32, decide_eq_true hi, Bool.true_and]

theorem testBit_cut (m j : ℕ) (h : (u32 m).testBit j = true) : j < 32 := by
  rw [testBit_u32, Bool.and_eq_true, decide_eq_true_eq] at h
  exact h.1

namespace Iss

variable {C : IssConfig} {σ σ' σ'' : Iss}

/-! ## The frames of the simulator -/

def frames (σ : Iss) : TrapStacks ℕ :=
  σ.privState.frames (σ.csr csrAddrSepc) (σ.csr csrAddrScause) (σ.csr csrAddrStval)
    (σ.csr csrAddrMepc) (σ.csr csrAddrMcause) (σ.csr csrAddrMtval)

def trapLevel (σ : Iss) (cause : ℕ) : TrapLevel := if σ.trapToS cause then .s else .m

/-- The privileged state with `mstatus` cut. -/
def cutState (σ : Iss) : PrivState :=
  { σ.privState with mstatus := (u32 (σ.csr csrAddrMstatus)).testBit }

theorem frames_cutState (σ : Iss) (sepc scause stval mepc mcause mtval : ℕ) :
    σ.privState.frames sepc scause stval mepc mcause mtval =
      σ.cutState.frames sepc scause stval mepc mcause mtval := by
  refine PrivState.frames_congr rfl fun j hj ↦ ?_
  have hlow : ∀ j ∈ Csr.mstatusBits, j < 32 := by decide
  change (σ.csr csrAddrMstatus).testBit j = (u32 (σ.csr csrAddrMstatus)).testBit j
  rw [testBit_u32, decide_eq_true (hlow j hj), Bool.true_and]

theorem testBit_stackS_cut (m : ℕ) (priv : BitVec 2) :
    (u32 (andNot m sstatusMask |||
      (((m >>> mstatusSieBit &&& 1) <<< mstatusSpieBit) |||
        ((priv.toNat &&& 1) <<< mstatusSppBit)) : ℕ)).testBit =
      PrivState.stackS priv (u32 m).testBit := by
  have hsie : (u32 m >>> mstatusSieBit) &&& 1 = (m >>> mstatusSieBit) &&& 1 :=
    u32_field m (by decide)
  have hcut := testBit_stackS (testBit_cut m) priv
  rwa [hsie, u32_update m sstatusMask _ _ fun _ _ ↦ rfl] at hcut

theorem testBit_stackM_cut (m : ℕ) (priv : BitVec 2) :
    (u32 (andNot m ((1 <<< 3) ||| (1 <<< 7) ||| (0b11 <<< mstatusMppLo)) |||
      (((m >>> 3 &&& 1) <<< 7) ||| (priv.toNat <<< mstatusMppLo)) : ℕ)).testBit =
      PrivState.stackM priv (u32 m).testBit := by
  have hmie : (u32 m >>> 3) &&& 1 = (m >>> 3) &&& 1 := u32_field m (by decide)
  have hcut := testBit_stackM (testBit_cut m) priv
  rwa [hmie, u32_update m _ _ _ fun _ _ ↦ rfl] at hcut

theorem testBit_popM_cut (m : ℕ) :
    (u32 (andNot m ((1 <<< 3) ||| (1 <<< 7) ||| (0b11 <<< mstatusMppLo)) |||
      (((m >>> 7 &&& 1) <<< 3) ||| (1 <<< 7) ||| (privU.toNat <<< mstatusMppLo)) : ℕ)).testBit =
      PrivState.popM (u32 m).testBit := by
  have hmpie : (u32 m >>> 7) &&& 1 = (m >>> 7) &&& 1 := u32_field m (by decide)
  have hcut := testBit_popM (testBit_cut m)
  rwa [hmpie, u32_update m _ _ _ fun _ _ ↦ rfl] at hcut

theorem testBit_popS_cut (m : ℕ) :
    (u32 (andNot m sstatusMask |||
      (((m >>> mstatusSpieBit &&& 1) <<< mstatusSieBit) ||| (1 <<< mstatusSpieBit)) : ℕ)).testBit =
      PrivState.popS (u32 m).testBit := by
  have hspie : (u32 m >>> mstatusSpieBit) &&& 1 = (m >>> mstatusSpieBit) &&& 1 :=
    u32_field m (by decide)
  have hcut := testBit_popS (testBit_cut m)
  rwa [hspie, u32_update m _ _ _ fun _ _ ↦ rfl] at hcut

theorem frames_trap (cause tval : ℕ) :
    (σ.trap cause tval).frames =
      σ.frames.enter (σ.trapLevel cause) σ.pc (u32 cause) (u32 tval) := by
  rw [frames, frames, frames_cutState σ, trapLevel]
  cases hS : σ.trapToS cause with
  | true =>
    have hstate : (σ.trap cause tval).privState =
        { σ.privState with
          priv := privS,
          mstatus := PrivState.stackS σ.privMode (u32 (σ.csr csrAddrMstatus)).testBit } := by
      rw [trap, if_pos hS]
      exact PrivState.ext rfl (testBit_stackS_cut _ σ.privMode) rfl rfl rfl rfl
    rw [hstate, trap, if_pos hS]
    rfl
  | false =>
    have hstate : (σ.trap cause tval).privState =
        { σ.privState with
          priv := privM,
          mstatus := PrivState.stackM σ.privMode (u32 (σ.csr csrAddrMstatus)).testBit } := by
      rw [trap, hS, if_neg Bool.false_ne_true]
      exact PrivState.ext rfl (testBit_stackM_cut _ σ.privMode) rfl rfl rfl rfl
    have hmpp (f : ℕ → Bool) :
        BitVec.ofBool (PrivState.stackM σ.privMode f (mstatusMppLo + 1)) ++
          BitVec.ofBool (PrivState.stackM σ.privMode f mstatusMppLo) = σ.privMode :=
      PrivState.ofBool_bits σ.privMode
    rw [hstate, trap, hS, if_neg Bool.false_ne_true, PrivState.frames, hmpp]
    rfl

theorem frames_mret : σ.mret.frames = σ.frames.leave .m := by
  have hstate : σ.mret.privState = { σ.cutState with
      priv := (σ.frames.frame .m).pp, mstatus := PrivState.popM σ.cutState.mstatus } :=
    PrivState.ext (ofNat_mpp _) (testBit_popM_cut _) rfl rfl rfl rfl
  rw [frames, frames, frames_cutState σ, hstate, ← PrivState.frames_mret (w := 32)]
  rw [frames, frames_cutState σ]
  rfl

theorem frames_sret : σ.sret.frames = σ.frames.leave .s := by
  have hstate : σ.sret.privState = { σ.cutState with
      priv := (σ.frames.frame .s).pp, mstatus := PrivState.popS σ.cutState.mstatus } :=
    PrivState.ext (ofNat_spp _) (testBit_popS_cut _) rfl rfl rfl rfl
  rw [frames, frames, frames_cutState σ, hstate, ← PrivState.frames_sret (w := 32)]
  rw [frames, frames_cutState σ]
  rfl

/-! ## Handlers -/

/-- A handler of the level at work in the simulator: words that leave the frame of the level alone,
and at the S level also traps to M, by a fetch or an interrupt too, and the return from them. -/
inductive Handler (C : IssConfig) (l : TrapLevel) (σ : Iss) : Iss → Prop where
  | start : Handler C l σ σ
  | step {σ' σ'' : Iss} (word : BitVec 32) :
      Handler C l σ σ' → σ'.step C word = some σ'' → TrapStacks.Keeps l σ'.frames σ''.frames →
        Handler C l σ σ''
  | trap {σ' : Iss} (cause tval : ℕ) :
      Handler C l σ σ' → l = .s → σ'.trapLevel cause = .m → Handler C l σ (σ'.trap cause tval)
  | mret {σ' : Iss} : Handler C l σ σ' → l = .s → Handler C l σ σ'.mret

theorem keeps_handler {l : TrapLevel} (h : Handler C l σ σ') :
    TrapStacks.Keeps l σ.frames σ'.frames := by
  induction h with
  | start => exact TrapStacks.Keeps.refl l σ.frames
  | step word _ _ hkeeps ih => exact ih.trans hkeeps
  | trap cause tval _ hl hm ih =>
    subst hl
    refine ih.trans ?_
    rw [frames_trap, hm]
    exact TrapStacks.keeps_enter_other .s
  | mret _ hl ih =>
    subst hl
    refine ih.trans ?_
    rw [frames_mret]
    exact TrapStacks.keeps_leave_other .s

/-- The return of a level. -/
def ret (σ : Iss) : TrapLevel → Iss
  | .s => σ.sret
  | .m => σ.mret

theorem frames_ret (l : TrapLevel) : (σ.ret l).frames = σ.frames.leave l := by
  cases l with
  | s => exact frames_sret
  | m => exact frames_mret

theorem pc_ret (l : TrapLevel) : (σ.ret l).pc = (σ.frames.frame l).epc := by
  cases l <;> rfl

theorem nest {cause tval : ℕ} {l : TrapLevel} (hlevel : σ.trapLevel cause = l)
    (hpriv : l = .s → σ.privMode.getLsbD 1 = false) (hrun : Handler C l (σ.trap cause tval) σ') :
    TrapStacks.Nest l σ.pc σ.frames (σ.trap cause tval).frames σ'.frames (σ'.ret l).frames := by
  have hkeeps := keeps_handler hrun
  rw [frames_trap, hlevel] at hkeeps
  rw [frames_trap, hlevel, frames_ret]
  exact TrapStacks.nest_of_keeps (l.field_eq hpriv) hkeeps

end Iss

/-! ## Nesting -/

theorem getLsbD_one_of_mem {priv : BitVec 2} (h : priv ∈ [privU, privS]) :
    priv.getLsbD 1 = false := by
  revert priv
  decide

theorem getLsbD_causeWord (hw : 31 < w) (isInterrupt : Bool) (cause : BitVec 31) :
    (Csr.causeWord isInterrupt (cause.setWidth w)).getLsbD 31 = isInterrupt := by
  rw [Csr.causeWord, BitVec.getLsbD_setWidth, decide_eq_true hw, Bool.true_and,
    BitVec.getLsbD_append]
  cases isInterrupt <;> rfl

/-- In `CSR.v` and in the simulator a trap and the return of its level nest, whatever a handler does
that leaves the frame of the level alone; bit 31 of the cause tells an interrupt at both widths. -/
theorem traps_nest {w : ℕ} (hw : w = 32 ∨ w = 64) :
    (∀ (c c' : Csr w) (k k' : Counters w) (p p' : Pending) (isInterrupt : Bool) (cause : BitVec 31)
        (pc tval : BitVec w) (l : TrapLevel),
      c.trapLevel isInterrupt cause = l → (l = .s → c.privMode ∈ [privU, privS]) →
      Csr.Handler l (c.next k p (CsrOp.trap isInterrupt cause pc tval).input) c' →
        TrapStacks.Nest l pc c.frames
            (c.next k p (CsrOp.trap isInterrupt cause pc tval).input).frames c'.frames
            (c'.next k' p' l.ret.input).frames ∧
          ((c.next k p (CsrOp.trap isInterrupt cause pc tval).input).frames.frame
            l).cause.getLsbD 31 = isInterrupt) ∧
      ∀ (C : IssConfig) (σ σ' : Iss) (cause tval : ℕ) (l : TrapLevel),
        σ.trapLevel cause = l → (l = .s → σ.privMode ∈ [privU, privS]) →
        Iss.Handler C l (σ.trap cause tval) σ' →
          TrapStacks.Nest l σ.pc σ.frames (σ.trap cause tval).frames σ'.frames (σ'.ret l).frames ∧
            (σ'.ret l).pc = σ.pc ∧
            ((σ.trap cause tval).frames.frame l).cause.testBit 31 = cause.testBit 31 := by
  have hw31 : 31 < w := by omega
  constructor
  · intro c c' k k' p p' isInterrupt cause pc tval l hlevel hpriv hrun
    refine ⟨Csr.nest (by omega) hlevel (fun hl ↦ getLsbD_one_of_mem (hpriv hl)) hrun, ?_⟩
    rw [Csr.frames_trap (by omega), hlevel]
    have hcause := getLsbD_causeWord hw31 isInterrupt cause
    cases l <;> exact hcause
  · intro C σ σ' cause tval l hlevel hpriv hrun
    have hnest := Iss.nest hlevel (fun hl ↦ getLsbD_one_of_mem (hpriv hl)) hrun
    refine ⟨hnest, ?_, ?_⟩
    · rw [Iss.pc_ret, hnest.epc]
    · rw [Iss.frames_trap, hlevel]
      have hcause : (u32 cause).testBit 31 = cause.testBit 31 := by
        rw [testBit_u32, decide_eq_true (by decide), Bool.true_and]
      cases l <;> exact hcause

/-- User code whose calls go to the S level. -/
def delegatedIss : Iss :=
  { Iss.init 4096 with
    pc := 64, privMode := privU
    csr := Function.update (fun _ ↦ 0) csrAddrMedeleg (1 <<< mcauseEcallFromU) }

/-- A call of user code, an illegal instruction in the handler, and both returns. -/
theorem traps_nest_delegated :
    let σ := delegatedIss.trap mcauseEcallFromU 0
    let σ' := (σ.trap mcauseIllegalInstruction 0).mret
    TrapStacks.Nest .s 64 delegatedIss.frames σ.frames σ'.frames (σ'.ret .s).frames ∧
      (σ'.ret .s).pc = 64 ∧
      (σ.frames.frame .s).cause.testBit 31 = mcauseEcallFromU.testBit 31 :=
  (traps_nest (.inl rfl)).2 plainIss delegatedIss _ mcauseEcallFromU 0 .s (by decide)
    (fun _ ↦ by decide)
    (.mret (.trap mcauseIllegalInstruction 0 .start rfl (by decide)) rfl)

/-- The top bit of the cause at width 64, a trap to M inside a handler of M, and a trap to S out of
the reserved mode. -/
theorem not_traps_nest :
    (((Csr.reset 64).next (Counters.reset 64) { msip := false, timer := true, ext := false }
        (CsrOp.trap true 7 0 0).input).mcause.getLsbD 63 = false) ∧
      (((((delegatedIss.trap mcauseIllegalInstruction 0).trap mcauseIllegalInstruction 0).mret).mret).pc
        ≠ delegatedIss.pc) ∧
      (({ delegatedIss with privMode := 2#2 }.trap mcauseEcallFromU 0).sret.privMode ≠ 2#2) := by
  decide

end RvPipeline
