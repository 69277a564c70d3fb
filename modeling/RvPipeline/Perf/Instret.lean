import RvPipeline.Core.Bare
import Mathlib.Order.Interval.Finset.Nat
import Mathlib.Data.Nat.Count

/-!
# Retired instructions

`minstret` against the instructions that leave the memory stage.  Its pulse waits for `mem_stall`
but not for `amo_stall`, and a csrrX that only reads a counter still goes through the write port.
-/

namespace RvPipeline

variable {w k : ℕ}

/-! ## The counters of `CSR.v` -/

namespace Counters

/-- `{minstret_hi, minstret_lo}`. -/
def minstret (c : Counters w) : BitVec (w + w) := c.minstretHi ++ c.minstretLo

/-- `{mcycle_hi, mcycle_lo}`. -/
def mcycle (c : Counters w) : BitVec (w + w) := c.mcycleHi ++ c.mcycleLo

theorem append_extract (v : BitVec (w + w)) : v.extractLsb' w w ++ v.extractLsb' 0 w = v := by
  apply BitVec.eq_of_getLsbD_eq
  intro j hj
  rw [BitVec.getLsbD_append]
  by_cases hlt : j < w
  · simp [hlt]
  · have hsub : j - w < w := by omega
    simp [hlt, hsub, Nat.add_sub_cancel' (not_lt.1 hlt)]

theorem append_bump (hi lo : BitVec w) :
    ((bump hi lo).1 ++ (bump hi lo).2 : BitVec (w + w)) = (hi ++ lo : BitVec (w + w)) + 1 :=
  append_extract _

theorem minstret_next (c : Counters w) (q : CsrIn w) (e : CsrEvents) (v : BitVec w) :
    (c.next q e v).minstret =
      if (q.csrWriteEn && q.csrAddr == csrAddrMinstret) = true then c.minstretHi ++ v
      else if (q.csrWriteEn && q.csrAddr == csrAddrMinstreth) = true then v ++ c.minstretLo
      else if (e.instret && !c.mcountinhibit.getLsbD 2) = true then c.minstret + 1
      else c.minstret := by
  unfold minstret next
  dsimp only
  rw [← append_bump]
  split_ifs <;> simp_all

theorem mcycle_next (c : Counters w) (q : CsrIn w) (e : CsrEvents) (v : BitVec w) :
    (c.next q e v).mcycle =
      if (q.csrWriteEn && q.csrAddr == csrAddrMcycle) = true then c.mcycleHi ++ v
      else if (q.csrWriteEn && q.csrAddr == csrAddrMcycleh) = true then v ++ c.mcycleLo
      else if c.mcountinhibit.getLsbD 0 = false then c.mcycle + 1
      else c.mcycle := by
  unfold mcycle next
  dsimp only
  rw [← append_bump]
  split_ifs <;> simp_all

end Counters

/-! ## Reading a counter

csrrs, csrrc and their immediate forms with a zero `rs1` field only read. -/

/-- csrrs or csrrc (or an immediate form) with `rs1 = x0`. -/
def Reg2.csrReadOnly (r : Reg2 w) : Bool := r.ctx.funct3.getLsbD 1 && rs1Of r.inst == 0

/-- A csrrX in EX takes effect on `a`. -/
def csrAccess (P : Params) (s : State w k) (i : Inputs) (a : BitVec 12) : Bool :=
  (csrIn P s i).csrWriteEn && s.reg2.csrAddr == a

/-- The addresses of the halves of `mcycle` and `minstret`. -/
def counterAddrs : List (BitVec 12) :=
  [csrAddrMcycle, csrAddrMcycleh, csrAddrMinstret, csrAddrMinstreth]

variable {P : Params} {s : State w k} {i : Inputs}

theorem reg2Hold_of_csrAccess {a : BitVec 12} (h : csrAccess P s i a = true) :
    reg2Hold P s i = false := by
  simp only [csrAccess, csrIn, Bool.and_eq_true, Bool.not_eq_true'] at h
  exact h.1.1.2

theorem isCsr_of_csrAccess {a : BitVec 12} (h : csrAccess P s i a = true) :
    s.reg2.ctl.isCsr = true := by
  simp only [csrAccess, csrIn, Bool.and_eq_true] at h
  exact h.1.1.1

theorem csrAddr_of_csrAccess {a : BitVec 12} (h : csrAccess P s i a = true) :
    s.reg2.csrAddr = a := by
  simp only [csrAccess, Bool.and_eq_true, beq_iff_eq] at h
  exact h.2

/-- What was read for `x0` in ID is zero. -/
def Reg2.ReadsZero (r : Reg2 w) : Prop := r.ctx.readReg1 = 0 → r.ctx.readData1 = 0

theorem reg2Next_readsZero : (reg2Next s).ReadsZero := by
  intro h
  have hrs1 : rs1Of s.reg1.inst = 0 := h
  simp [reg2Next, RegFile.read, hrs1]

theorem reg2_readsZero (h : Reachable P s) : s.reg2.ReadsZero := by
  refine h.invariant (fun s ↦ s.reg2.ReadsZero) ?_ ?_
  · rintro _ ⟨s₀, rfl⟩
    exact fun _ ↦ rfl
  · intro s i hs
    change (s.reg2.step _ _ _ (reg2Next s)).ReadsZero
    unfold Reg2.step
    split_ifs
    · exact hs
    · exact fun _ ↦ rfl
    · exact reg2Next_readsZero
    · exact reg2Next_readsZero

theorem forward_zero (validEm validWb : Bool) (destEm destWb : BitVec 5) (valEm valWb v : BitVec w) :
    forward 0 validEm destEm valEm validWb destWb valWb v = v := by
  unfold forward
  rw [if_neg, if_neg]
  all_goals simp only [Bool.and_eq_true, bne_iff_ne, beq_iff_eq]; tauto

theorem forwarded_zero (v : BitVec w) : forwarded P s 0 v = v := by
  unfold forwarded
  cases P.hazardStrategy with
  | forwarding => exact forward_zero _ _ _ _ _ _ _
  | noForward => rfl

theorem csrWdata_of_readOnly (h : Reachable P s) (hro : s.reg2.csrReadOnly = true) :
    s.reg2.csrWdata (operands P s) = 0 := by
  simp only [Reg2.csrReadOnly, Bool.and_eq_true, beq_iff_eq] at hro
  have hreg : s.reg2.ctx.readReg1 = 0 := (reg2_decoded h).fields.readReg1.trans hro.2
  have ha : (operands P s).a = 0 := by
    change forwarded P s s.reg2.ctx.readReg1 s.reg2.ctx.readData1 = 0
    rw [hreg, forwarded_zero, reg2_readsZero h hreg]
  simp [Reg2.csrWdata, hro.2, ha]

theorem Csr.newVal_zero {op : BitVec 2} (h : op.getLsbD 1 = true) (old : BitVec w) :
    Csr.newVal op old 0 = old := by
  have hop : op = 0b10#2 ∨ op = 0b11#2 := by
    revert h
    revert op
    decide
  rcases hop with rfl | rfl <;> simp [Csr.newVal]

/-- The value a read-only access writes back is the one it read. -/
theorem newVal_of_readOnly (h : Reachable P s) (hro : s.reg2.csrReadOnly = true) :
    Csr.newVal (csrIn P s i).csrOp (csrOldVal s) (csrIn P s i).csrWdata = csrOldVal s := by
  change Csr.newVal _ _ (s.reg2.csrWdata (operands P s)) = _
  rw [csrWdata_of_readOnly h hro]
  simp only [Reg2.csrReadOnly, Bool.and_eq_true] at hro
  exact Csr.newVal_zero (by simpa [csrIn] using hro.1) _

theorem csrOldVal_of_counterAddr {a : BitVec 12} (ha : a ∈ counterAddrs)
    (h : s.reg2.csrAddr = a) : csrOldVal s = Csr.counterRdata s.counters a := by
  have hall : ∀ a ∈ counterAddrs, Csr.isCounterAddr a = true := by decide
  simp [csrOldVal, Csr.rdata, h, hall a ha]

/-! ## One edge of the counters -/

/-- The counters after this edge had EX held no csrrX. -/
def countersAlone (P : Params) (s : State w k) (i : Inputs) : Counters w :=
  s.counters.next { csrIn P s i with csrWriteEn := false } (csrEvents P s i) 0

theorem countersAlone_minstret :
    (countersAlone P s i).minstret =
      if ((csrEvents P s i).instret && !s.counters.mcountinhibit.getLsbD 2) = true then
        s.counters.minstret + 1
      else s.counters.minstret := by
  simp [countersAlone, Counters.minstret_next]

theorem countersAlone_mcycle :
    (countersAlone P s i).mcycle =
      if s.counters.mcountinhibit.getLsbD 0 = false then s.counters.mcycle + 1
      else s.counters.mcycle := by
  simp [countersAlone, Counters.mcycle_next]

/-- A read-only access writes back the half it read, in place of the count. -/
theorem step_minstret (h : Reachable P s)
    (hro : csrAccess P s i csrAddrMinstret = true ∨ csrAccess P s i csrAddrMinstreth = true →
      s.reg2.csrReadOnly = true) :
    (step P s i).counters.minstret =
      if csrAccess P s i csrAddrMinstret = true ∨ csrAccess P s i csrAddrMinstreth = true then
        s.counters.minstret
      else (countersAlone P s i).minstret := by
  change (s.counters.next (csrIn P s i) _ _).minstret = _
  rw [Counters.minstret_next, countersAlone_minstret]
  change (if csrAccess P s i csrAddrMinstret = true then _
    else if csrAccess P s i csrAddrMinstreth = true then _ else _) = _
  by_cases hlo : csrAccess P s i csrAddrMinstret = true
  · rw [if_pos hlo, if_pos (.inl hlo), newVal_of_readOnly h (hro (.inl hlo)),
      csrOldVal_of_counterAddr (by decide) (csrAddr_of_csrAccess hlo)]
    rfl
  · by_cases hhi : csrAccess P s i csrAddrMinstreth = true
    · rw [if_neg hlo, if_pos hhi, if_pos (.inr hhi), newVal_of_readOnly h (hro (.inr hhi)),
        csrOldVal_of_counterAddr (by decide) (csrAddr_of_csrAccess hhi)]
      rfl
    · rw [if_neg hlo, if_neg hhi, if_neg (not_or.2 ⟨hlo, hhi⟩)]

theorem step_mcycle (h : Reachable P s)
    (hro : csrAccess P s i csrAddrMcycle = true ∨ csrAccess P s i csrAddrMcycleh = true →
      s.reg2.csrReadOnly = true) :
    (step P s i).counters.mcycle =
      if csrAccess P s i csrAddrMcycle = true ∨ csrAccess P s i csrAddrMcycleh = true then
        s.counters.mcycle
      else (countersAlone P s i).mcycle := by
  change (s.counters.next (csrIn P s i) _ _).mcycle = _
  rw [Counters.mcycle_next, countersAlone_mcycle]
  change (if csrAccess P s i csrAddrMcycle = true then _
    else if csrAccess P s i csrAddrMcycleh = true then _ else _) = _
  by_cases hlo : csrAccess P s i csrAddrMcycle = true
  · rw [if_pos hlo, if_pos (.inl hlo), newVal_of_readOnly h (hro (.inl hlo)),
      csrOldVal_of_counterAddr (by decide) (csrAddr_of_csrAccess hlo)]
    rfl
  · by_cases hhi : csrAccess P s i csrAddrMcycleh = true
    · rw [if_neg hlo, if_pos hhi, if_pos (.inr hhi), newVal_of_readOnly h (hro (.inr hhi)),
        csrOldVal_of_counterAddr (by decide) (csrAddr_of_csrAccess hhi)]
      rfl
    · rw [if_neg hlo, if_neg hhi, if_neg (not_or.2 ⟨hlo, hhi⟩)]

/-! ## Retirement -/

/-- The memory stage holds an instruction and lets it go. -/
def retires (P : Params) (s : State w k) : Bool := s.reg3.valid && !memHold P s

/-- EX holds an instruction and hands it on. -/
def handsOn (P : Params) (s : State w k) (i : Inputs) : Bool :=
  s.reg2.valid && !reg2Hold P s i && !exceptionTaken P s

/-- How many instructions have left the memory stage before cycle `n`. -/
def retired (P : Params) (c : ℕ → State w k) (n : ℕ) : ℕ :=
  Nat.count (fun j ↦ retires P (c j) = true) n

theorem step_reg3_valid :
    (step P s i).reg3.valid = if memHold P s = true then s.reg3.valid else handsOn P s i := by
  change (s.reg3.step (memHold P s) (reg3Next P s i)).valid = _
  unfold Reg3.step
  split_ifs with hhold
  · rfl
  · simp only [memHold, Bool.or_eq_true, not_or, Bool.not_eq_true] at hhold
    simp only [handsOn, reg3Next, reg3Bubble, reg2Hold, reg2HoldOf, hhold]
    cases divStall s <;> cases fpStall s <;> cases exceptionTaken P s <;>
      simp [Bool.and_comm]

/-- Every instruction EX handed on has left the memory stage once, or is still in it. -/
theorem count_handsOn (s₀ : State w k) (ins : ℕ → Inputs) (n : ℕ) :
    Nat.count (fun j ↦ handsOn P (run P s₀ ins j) (ins j) = true) n =
      retired P (run P s₀ ins) n + (run P s₀ ins n).reg3.valid.toNat := by
  induction n with
  | zero => rfl
  | succ n ih =>
    rw [retired, Nat.count_succ, Nat.count_succ, ih]
    change _ = _ + (step P (run P s₀ ins n) (ins n)).reg3.valid.toNat
    rw [step_reg3_valid, ← retired]
    by_cases hhold : memHold P (run P s₀ ins n) = true
    · have hex : handsOn P (run P s₀ ins n) (ins n) = false := by
        simp only [memHold, Bool.or_eq_true] at hhold
        rcases hhold with hm | ha
        · simp [handsOn, reg2Hold, reg2HoldOf, hm]
        · simp [handsOn, reg2Hold, reg2HoldOf, ha]
      simp [hhold, hex, retires]
    · cases hv : (run P s₀ ins n).reg3.valid <;>
        cases hex : handsOn P (run P s₀ ins n) (ins n) <;> simp [hhold, hv, retires]

/-- `minstret` counts each instruction that leaves the memory stage once, and reading it or
`mcycle` returns the half asked for and leaves both to evolve as they would have. -/
structure CountsExactly (P : Params) (c : ℕ → State w k) (ins : ℕ → Inputs) : Prop where
  count : ∀ n, (c n).counters.minstret = BitVec.ofNat (w + w) (retired P c n)
  read : ∀ n, ∀ a ∈ counterAddrs, csrAccess P (c n) (ins n) a = true →
    (c n).reg2.csrReadOnly = true →
      exResult P (c n) = Csr.counterRdata (c n).counters a ∧
        (c (n + 1)).counters.mcycle = (countersAlone P (c n) (ins n)).mcycle ∧
        (c (n + 1)).counters.minstret = (countersAlone P (c n) (ins n)).minstret

/-- No AMO is counted while it waits, and no counter is read while it counts. -/
structure Undisturbed (P : Params) (s : State w k) (i : Inputs) : Prop where
  amo : s.reg3.valid = true → amoStall s = true → memStall P s = true
  minstret : csrAccess P s i csrAddrMinstret = true ∨ csrAccess P s i csrAddrMinstreth = true →
    s.reg3.valid = false
  mcycle : csrAccess P s i csrAddrMcycle = true ∨ csrAccess P s i csrAddrMcycleh = true →
    s.reg2.csrReadOnly = true → s.counters.mcountinhibit.getLsbD 0 = true

/-- The edge adds one to `minstret`. -/
def counts (P : Params) (s : State w k) (i : Inputs) : Bool :=
  s.reg3.valid && !memStall P s &&
    !(csrAccess P s i csrAddrMinstret || csrAccess P s i csrAddrMinstreth)

theorem counts_of_access
    (hacc : csrAccess P s i csrAddrMinstret = true ∨ csrAccess P s i csrAddrMinstreth = true) :
    counts P s i = false := by
  rcases hacc with h | h <;> simp [counts, h]

theorem counts_of_not_access
    (hacc : ¬ (csrAccess P s i csrAddrMinstret = true ∨ csrAccess P s i csrAddrMinstreth = true)) :
    counts P s i = (s.reg3.valid && !memStall P s) := by
  simp only [not_or, Bool.not_eq_true] at hacc
  simp [counts, hacc]

theorem step_minstret_counts (h : Reachable P s) (hIR : s.counters.mcountinhibit.getLsbD 2 = false)
    (hro : csrAccess P s i csrAddrMinstret = true ∨ csrAccess P s i csrAddrMinstreth = true →
      s.reg2.csrReadOnly = true) :
    (step P s i).counters.minstret =
      s.counters.minstret + BitVec.ofNat (w + w) (counts P s i).toNat := by
  rw [step_minstret h hro, countersAlone_minstret, hIR]
  by_cases hacc : csrAccess P s i csrAddrMinstret = true ∨ csrAccess P s i csrAddrMinstreth = true
  · simp [hacc, counts_of_access hacc]
  · rw [if_neg hacc, counts_of_not_access hacc]
    change (if (s.reg3.valid && !memStall P s && !false) = true then _ else _) = _
    cases s.reg3.valid && !memStall P s <;> simp

theorem retired_succ (c : ℕ → State w k) (n : ℕ) :
    retired P c (n + 1) = retired P c n + (retires P (c n)).toNat := by
  rw [retired, Nat.count_succ, ← retired]
  cases retires P (c n) <;> rfl

/-- The two ways an edge miscounts: an AMO that waits, a read in the cycle of a retirement. -/
theorem counts_eq_retires_iff :
    counts P s i = retires P s ↔
      (s.reg3.valid = true → amoStall s = true → memStall P s = true) ∧
        (csrAccess P s i csrAddrMinstret = true ∨ csrAccess P s i csrAddrMinstreth = true →
          s.reg3.valid = false) := by
  have hfree : csrAccess P s i csrAddrMinstret = true ∨ csrAccess P s i csrAddrMinstreth = true →
      memStall P s = false ∧ amoStall s = false := by
    intro hacc
    have hhold := memHold_eq_false_of_reg2Hold (hacc.elim reg2Hold_of_csrAccess reg2Hold_of_csrAccess)
    simpa [memHold] using hhold
  by_cases hacc : csrAccess P s i csrAddrMinstret = true ∨ csrAccess P s i csrAddrMinstreth = true
  · obtain ⟨hm, ha⟩ := hfree hacc
    simp [counts_of_access hacc, retires, memHold, hm, ha, hacc]
  · rw [counts_of_not_access hacc, retires, memHold]
    cases s.reg3.valid <;> cases memStall P s <;> cases amoStall s <;> simp [hacc]

theorem add_toNat_inj (hw : 0 < w) {a : BitVec (w + w)} {b b' : Bool}
    (h : a + BitVec.ofNat (w + w) b.toNat = a + BitVec.ofNat (w + w) b'.toNat) : b = b' := by
  have hne : (1 : BitVec (w + w)) ≠ 0 := by
    intro h1
    have := congrArg BitVec.toNat h1
    simp at this
    omega
  have hinj := BitVec.add_right_inj _ |>.1 h
  cases b <;> cases b' <;> simp_all

theorem exResult_of_csr (h : Reachable P s) (hcsr : s.reg2.ctl.isCsr = true) :
    exResult P s = csrOldVal s := by
  have hfp : (s.reg2.isOpFp || s.reg2.isFma) = false := by
    by_contra hne
    rcases (reg2_decoded h).ctl_float (Bool.not_eq_false _ ▸ hne) with hc | hc | hc <;>
      simp [hc] at hcsr
  simp [exResult, hfp, hcsr]

section Run

variable {s₀ : State w k} {ins : ℕ → Inputs}

theorem minstret_run
    (hIR : ∀ n, (run P s₀ ins n).counters.mcountinhibit.getLsbD 2 = false)
    (hro : ∀ n, csrAccess P (run P s₀ ins n) (ins n) csrAddrMinstret = true ∨
      csrAccess P (run P s₀ ins n) (ins n) csrAddrMinstreth = true →
        (run P s₀ ins n).reg2.csrReadOnly = true)
    (hcount : ∀ n, counts P (run P s₀ ins n) (ins n) = retires P (run P s₀ ins n)) (n : ℕ) :
    (run P s₀ ins n).counters.minstret = BitVec.ofNat (w + w) (retired P (run P s₀ ins) n) := by
  induction n with
  | zero =>
    change (0 ++ 0 : BitVec (w + w)) = BitVec.ofNat (w + w) 0
    simp
  | succ n ih =>
    rw [retired_succ, BitVec.ofNat_add, ← ih, ← hcount n]
    exact step_minstret_counts (run_reachable P s₀ ins n) (hIR n) (hro n)

theorem undisturbed_of_countsExactly (hw : 0 < w)
    (hIR : ∀ n, (run P s₀ ins n).counters.mcountinhibit.getLsbD 2 = false)
    (hro : ∀ n, csrAccess P (run P s₀ ins n) (ins n) csrAddrMinstret = true ∨
      csrAccess P (run P s₀ ins n) (ins n) csrAddrMinstreth = true →
        (run P s₀ ins n).reg2.csrReadOnly = true)
    (h : CountsExactly P (run P s₀ ins) ins) (n : ℕ) :
    Undisturbed P (run P s₀ ins n) (ins n) := by
  have hcount : counts P (run P s₀ ins n) (ins n) = retires P (run P s₀ ins n) := by
    apply add_toNat_inj hw
    rw [← step_minstret_counts (run_reachable P s₀ ins n) (hIR n) (hro n), h.count n, ← BitVec.ofNat_add,
      ← retired_succ]
    exact h.count (n + 1)
  obtain ⟨hamo, hminstret⟩ := counts_eq_retires_iff.1 hcount
  refine ⟨hamo, hminstret, ?_⟩
  intro hacc hread
  -- the access leaves `mcycle` where it is, so it must not have been counting
  have hstep : (run P s₀ ins (n + 1)).counters.mcycle = (run P s₀ ins n).counters.mcycle :=
    (step_mcycle (run_reachable P s₀ ins n) fun _ ↦ hread).trans (if_pos hacc)
  have halone : (countersAlone P (run P s₀ ins n) (ins n)).mcycle =
      (run P s₀ ins n).counters.mcycle := by
    rcases hacc with hlo | hhi
    · exact (h.read n _ (by decide) hlo hread).2.1.symm.trans hstep
    · exact (h.read n _ (by decide) hhi hread).2.1.symm.trans hstep
  by_contra hrun
  rw [countersAlone_mcycle, if_pos (by simpa using hrun)] at halone
  have hsame : (run P s₀ ins n).counters.mcycle + BitVec.ofNat (w + w) true.toNat =
      (run P s₀ ins n).counters.mcycle + BitVec.ofNat (w + w) false.toNat := by
    simpa using halone
  exact Bool.noConfusion (add_toNat_inj hw hsame)

theorem countsExactly_of_undisturbed
    (hIR : ∀ n, (run P s₀ ins n).counters.mcountinhibit.getLsbD 2 = false)
    (hro : ∀ n, csrAccess P (run P s₀ ins n) (ins n) csrAddrMinstret = true ∨
      csrAccess P (run P s₀ ins n) (ins n) csrAddrMinstreth = true →
        (run P s₀ ins n).reg2.csrReadOnly = true)
    (h : ∀ n, Undisturbed P (run P s₀ ins n) (ins n)) : CountsExactly P (run P s₀ ins) ins := by
  refine ⟨minstret_run hIR hro fun n ↦ counts_eq_retires_iff.2 ⟨(h n).amo, (h n).minstret⟩, ?_⟩
  intro n a ha hacc hread
  refine ⟨?_, ?_, ?_⟩
  · rw [exResult_of_csr (run_reachable P s₀ ins n) (isCsr_of_csrAccess hacc)]
    exact csrOldVal_of_counterAddr ha (csrAddr_of_csrAccess hacc)
  · refine (step_mcycle (run_reachable P s₀ ins n) fun _ ↦ hread).trans ?_
    split_ifs with hcyc
    · rw [countersAlone_mcycle, (h n).mcycle hcyc hread]
      rfl
    · rfl
  · refine (step_minstret (run_reachable P s₀ ins n) fun _ ↦ hread).trans ?_
    split_ifs with hins
    · rw [countersAlone_minstret]
      simp [csrEvents, (h n).minstret hins]
    · rfl

end Run

/-- With `minstret` free to count and only ever read, it is the number of retired instructions
and reads pass unnoticed, unless some AMO waits in the memory stage, some instruction retires
while `minstret` is read, or `mcycle` is read while it runs. -/
theorem countsExactly_iff (hw : 0 < w) (P : Params) (s₀ : State w k) (ins : ℕ → Inputs)
    (hIR : ∀ n, (run P s₀ ins n).counters.mcountinhibit.getLsbD 2 = false)
    (hro : ∀ n, csrAccess P (run P s₀ ins n) (ins n) csrAddrMinstret = true ∨
      csrAccess P (run P s₀ ins n) (ins n) csrAddrMinstreth = true →
        (run P s₀ ins n).reg2.csrReadOnly = true) :
    CountsExactly P (run P s₀ ins) ins ↔ ∀ n, Undisturbed P (run P s₀ ins n) (ins n) :=
  ⟨undisturbed_of_countsExactly hw hIR hro, countsExactly_of_undisturbed hIR hro⟩

/-! ## Programs without CSR instructions -/

theorem csrAccess_of_noCsr (hgood : EveryInst w P (noCsr w)) (hmode : P.cacheMode = .none)
    (h : Reachable P s) (a : BitVec 12) : csrAccess P s i a = false := by
  simp [csrAccess, csrIn, isCsr_of_noCsr hgood hmode h]

theorem mcountinhibit_of_noCsr (hgood : EveryInst w P (noCsr w)) (hmode : P.cacheMode = .none)
    (s₀ : State w k) (ins : ℕ → Inputs) (n : ℕ) :
    (run P s₀ ins n).counters.mcountinhibit = 0 := by
  induction n with
  | zero => rfl
  | succ n ih =>
    have hcsr := isCsr_of_noCsr hgood hmode (run_reachable P s₀ ins n)
    have hkeep : (step P (run P s₀ ins n) (ins n)).counters.mcountinhibit =
        (run P s₀ ins n).counters.mcountinhibit := by
      simp [step, Counters.next, csrIn, hcsr]
    exact hkeep.trans ih

/-- Not an AMO. -/
def noAmo (w : ℕ) (inst : BitVec 32) : Prop := (decodeControl w inst).isAmo = false

instance (w : ℕ) (inst : BitVec 32) : Decidable (noAmo w inst) :=
  inferInstanceAs (Decidable (_ = _))

theorem isAmo_of_noAmo (hgood : EveryInst w P (noAmo w)) (hmode : P.cacheMode = .none)
    (s₀ : State w k) (ins : ℕ → Inputs) (n : ℕ) : (run P s₀ ins n).reg3.isAmo = false := by
  induction n with
  | zero => rfl
  | succ n ih =>
    have hamo : (run P s₀ ins n).reg2.ctl.isAmo = false := by
      rcases ctl_of_instsGood hgood hmode (run_reachable P s₀ ins n) with hctl | ⟨_, hinst, hctl⟩
      · rw [hctl]
      · rw [hctl]
        exact hinst
    change (Reg3.step _ _ _).isAmo = false
    unfold Reg3.step
    split_ifs
    · exact ih
    · simp [reg3Next, hamo]

/-- `sw x1, 0(x0); lw x3, 0(x0); j .` -/
def memLoopParams : Params :=
  { insts := instsOfWords [0x00102023, 0x00002183, 0x0000006f] }

theorem memLoopParams_noCsr : EveryInst 32 memLoopParams (noCsr 32) :=
  everyInst_of_lt (by decide) (by decide) (by decide) (by decide +kernel)

theorem memLoopParams_noAmo : EveryInst 32 memLoopParams (noAmo 32) :=
  everyInst_of_lt (by decide) (by decide) (by decide) (by decide +kernel)

theorem countsExactly_memLoop :
    CountsExactly memLoopParams (run memLoopParams (default : State 32 0) fun _ ↦ {})
      fun _ ↦ {} := by
  have hacc := fun n ↦ csrAccess_of_noCsr (i := {}) memLoopParams_noCsr rfl
    (run_reachable memLoopParams (default : State 32 0) (fun _ ↦ {}) n)
  refine (countsExactly_iff (by decide) memLoopParams default (fun _ ↦ {}) ?_ ?_).2 ?_
  · intro n
    rw [mcountinhibit_of_noCsr memLoopParams_noCsr rfl]
    rfl
  · intro n h
    simp [hacc] at h
  · intro n
    have hamo := isAmo_of_noAmo memLoopParams_noAmo rfl (default : State 32 0) (fun _ ↦ {}) n
    exact ⟨fun _ h ↦ by simp [amoStall, amoActive, hamo] at h, fun h ↦ by simp [hacc] at h,
      fun h ↦ by simp [hacc] at h⟩

/-- `addi x3, x0, 64; amoadd.w x1, x2, (x3); nop; j .` -/
def amoCountParams : Params :=
  { insts := instsOfWords [0x04000193, 0x0021A0AF, 0x00000013, 0x0000006f] }

/-- The AMO is the second instruction to leave the memory stage, in cycle 7; by then it has been
counted in four cycles. -/
theorem minstret_differs :
    ¬ ∀ (P : Params) (s₀ : State 32 0) (ins : ℕ → Inputs),
      (∀ n, (run P s₀ ins n).counters.mcountinhibit.getLsbD 2 = false) →
      (∀ n a, a ∈ counterAddrs → csrAccess P (run P s₀ ins n) (ins n) a = false) →
      ∀ n, retires P (run P s₀ ins n) = true →
        (run P s₀ ins (n + 1)).counters.minstret =
          BitVec.ofNat (32 + 32) (retired P (run P s₀ ins) (n + 1)) := by
  intro hall
  have hgood : EveryInst 32 amoCountParams (noCsr 32) :=
    everyInst_of_lt (by decide) (by decide) (by decide) (by decide +kernel)
  have hleave := hall amoCountParams default (fun _ ↦ {})
    (fun n ↦ by rw [mcountinhibit_of_noCsr hgood rfl]; rfl)
    (fun n a _ ↦ csrAccess_of_noCsr hgood rfl (run_reachable _ _ _ n) a) 7 (by decide +kernel)
  have hretired : retired amoCountParams
      (run amoCountParams (default : State 32 0) fun _ ↦ {}) 8 = 2 := by decide +kernel
  rw [hretired] at hleave
  exact absurd hleave (by decide +kernel)

end RvPipeline
