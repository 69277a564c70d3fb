import RvPipeline.Core.Order
import RvPipeline.Trap.CsrPort

/-!
# Precise exceptions

The cycle in which a synchronous exception commits its trap to the CSR file: where the
fetch PC goes, and what the faulting instruction and the younger ones leave behind.
`PC.v` lets a stall win over the redirect, and only some of the write enables of EX look
at `exception_taken`; `ExceptionClear` says when neither matters.
-/

namespace RvPipeline

variable {w k : ℕ} {P : Params} {s : State w k} {i : Inputs}

/-- The instruction in EX raises a synchronous exception and its trap is committed. -/
def ExceptionCommitted (P : Params) (s : State w k) (i : Inputs) : Prop :=
  exceptionTaken P s = true ∧ reg2Hold P s i = false

/-- Every CSR outside the trap group is as before, and so are the trap registers of the
level that did not take the trap. -/
structure OnlyTrapCsrs (toS : Bool) (c c' : Csr w) : Prop where
  mie : c'.mie = c.mie
  mtvec : c'.mtvec = c.mtvec
  mscratch : c'.mscratch = c.mscratch
  fflags : c'.fflags = c.fflags
  frm : c'.frm = c.frm
  sscratch : c'.sscratch = c.sscratch
  stvec : c'.stvec = c.stvec
  satp : c'.satp = c.satp
  mideleg : c'.mideleg = c.mideleg
  medeleg : c'.medeleg = c.medeleg
  mipSw : c'.mipSw = c.mipSw
  machine : toS = true → c'.mepc = c.mepc ∧ c'.mcause = c.mcause ∧ c'.mtval = c.mtval
  supervisor : toS = false → c'.sepc = c.sepc ∧ c'.scause = c.scause ∧ c'.stval = c.stval

/-- The page walk that is in progress in `s` lasts until cycle `x` of the run from there. -/
def WalkLasts (P : Params) (s : State w k) (ins : ℕ → Inputs) (x : ℕ) : Prop :=
  ∀ j < x, ((core P w k).run s ins j).ptw.busy = true

/-- What precision asks of the cycle that commits the trap, and of the walk it leaves behind. -/
structure PreciseException (P : Params) (s : State w k) (ins : ℕ → Inputs) : Prop where
  /-- the fetch PC takes the vector on this edge -/
  vector : (step P s (ins 0)).pc = trapVector P s (ins 0)
  /-- nothing younger is left in ID or EX -/
  younger : (step P s (ins 0)).reg1 = .bubble w ∧ (step P s (ins 0)).reg2 = .squashed w
  /-- under split fetch, the fetch that is still under way is dropped in the next cycle and
  the one after it is from the vector -/
  fetch : P.pipelineProfile = .splitFetch → ∀ j,
    (step P (step P s (ins 0)) j).reg1 = .bubble w ∧
      (step P (step P s (ins 0)) j).reg1a.pc = trapVector P s (ins 0)
  /-- the faulting instruction enters MEM as a bubble -/
  faulting : (step P s (ins 0)).reg3.regWrite = false ∧ (step P s (ins 0)).reg3.fRegWrite = false ∧
    (step P s (ins 0)).reg3.memRead = false ∧ (step P s (ins 0)).reg3.memWrite = false ∧
    (step P s (ins 0)).reg3.isAmo = false
  /-- the register files are written for `reg4` only, the memories for `reg3` only -/
  older : (step P s (ins 0)).regs =
      s.regs.write s.reg4.regWrite s.reg4.writeToReg (writeDataWb s) ∧
    (step P s (ins 0)).fregs =
      s.fregs.fwrite s.reg4.fRegWrite s.reg4.writeToReg (writeDataWb s) ∧
    (step P s (ins 0)).ram = s.ram.step P.memSizeBytes (ramReq P s)
  /-- no CSR but the trap registers changes, and no counter is written -/
  csrs : OnlyTrapCsrs (trapTargetIsS P s (ins 0)) s.csr (step P s (ins 0)).csr ∧
    (csrIn P s (ins 0)).csrWriteEn = false
  /-- the TLB is not cleared, and changes at most by a walk that is over now -/
  tlb : (step P s (ins 0)).tlb =
    s.tlb.step false (ptwFillValid s) (if s.ptwServicingD then dtlbVaddr P s else imemReadAddr P s)
      s.ptw.resultPpn s.ptw.resultPerm
  /-- a walk of the faulting instruction or of a younger one brings nothing into the TLB; an
  earlier redirect may have left one that does -/
  walk : s.ptwAbandoned = false → ∀ x, WalkLasts P s ins x → ∀ e,
    (((core P w k).run s ins (x + 1)).tlb e).valid = true →
      ((core P w k).run s ins (x + 1)).tlb e = ((core P w k).run s ins x).tlb e

/-- No load-use stall meets the redirect, a faulting fetch carries no bits that still act
from EX, and a walk that no earlier redirect has left behind does not go on to a leaf. -/
structure ExceptionClear (P : Params) (s : State w k) (ins : ℕ → Inputs) : Prop where
  stall : hazardStall P s true = false ∧ floatLoadUseHazard s = false
  fetchFault : s.reg2.ctx.ifetchFault = true → csrPermitted s = false ∧ sfenceReal s = false ∧
    s.reg2.isOpFp = false ∧ s.reg2.isFma = false
  fence : s.reg2.ctx.ifetchFault = true → P.pipelineProfile = .splitFetch → P.cacheMode ≠ .none →
    s.reg2.ctl.isFence = false
  walk : s.ptwAbandoned = false → ∀ x, WalkLasts P s ins x →
    ((core P w k).run s ins x).ptw.done = true → ((core P w k).run s ins x).ptw.fault = true

/-! ## A fence never waits behind a finished access -/

/-- A pending fence has not been answered yet, and there is none without a cache. -/
structure FenceInv (P : Params) (s : State w k) : Prop where
  unanswered : s.fencePending = true → s.memStallDone = false
  cached : P.cacheMode = .none → s.fencePending = false

theorem FenceInv.step (h : FenceInv P s) : FenceInv P (step P s i) := by
  constructor
  · intro hpend
    by_contra hdone
    have hstall : memStall P s = true ∧ memAccessReady P s = true := by
      simpa [RvPipeline.step] using hdone
    have hhold : reg2Hold P s i = true := by simp [reg2Hold, reg2HoldOf, hstall.1]
    have hfence : dcacheFlushDone P s = false ∧ s.fencePending = true := by
      simpa [RvPipeline.step, fencePendingNext, hhold] using hpend
    cases hmode : P.cacheMode with
    | none => simp [h.cached hmode] at hfence
    | writebackSetassoc => simp [memAccessReady, hmode, hfence.2, hfence.1] at hstall
  · intro hmode
    simp [RvPipeline.step, fencePendingNext, hmode, h.cached hmode]

theorem fenceInv (h : Reachable P s) : FenceInv P s := by
  refine h.invariant (FenceInv P) ?_ fun s i hs ↦ hs.step
  rintro _ ⟨s₀, rfl⟩
  constructor <;> simp [reset]

theorem fencePending_of_not_memStall (h : FenceInv P s) (hstall : memStall P s = false) :
    s.fencePending = false := by
  by_contra hne
  have hpend : s.fencePending = true := by simpa using hne
  have hdone := h.unanswered hpend
  cases hmode : P.cacheMode with
  | none => simp [h.cached hmode] at hpend
  | writebackSetassoc => simp [memStall, memTrigger, hmode, hpend, hdone] at hstall

/-! ## Which instructions can raise an exception -/

/-- Control values of the classes that act from EX outside the trap port. -/
theorem actingControl_cases : ∀ c ∈ ({} :: controlValues : List Control),
    (c.isSfenceVma || c.isFence) = true →
      c = { isSfenceVma := true } ∨ c = { isFence := true } := by
  decide

theorem exceptionTaken_cases (hexc : exceptionTaken P s = true)
    (hfetch : s.reg2.ctx.ifetchFault = false) :
    s.reg2.illegal s.csr.privMode = true ∨ s.reg2.ctl.isEcall = true ∨
      s.reg2.ctl.isEbreak = true ∨ dtlbPageFault P s = true := by
  simp only [exceptionTaken, Reg2.exceptionTaken, hfetch, Bool.or_false, Bool.or_eq_true] at hexc
  tauto

/-- Neither a fence nor a permitted `sfence.vma` raises an exception of its own. -/
theorem not_acting_of_exceptionTaken (hdec : s.reg2.Decoded) (hwalk : WalkInv P s)
    (hexc : exceptionTaken P s = true) (hfetch : s.reg2.ctx.ifetchFault = false) :
    sfenceReal s = false ∧ s.reg2.ctl.isFence = false := by
  by_contra hne
  have hact : sfenceReal s = true ∨ s.reg2.ctl.isFence = true := by
    by_contra h
    exact hne (by simpa [not_or] using h)
  have hclass : (s.reg2.ctl.isSfenceVma || s.reg2.ctl.isFence) = true := by
    rcases hact with h | h
    · simp only [sfenceReal, Reg2.sfenceReal, Bool.and_eq_true] at h
      simp [h.1]
    · simp [h]
  have hmem := fun hf ↦ mem_of_dtlbPageFault (P := P) (s := s) hwalk hf
  have hcases := exceptionTaken_cases hexc hfetch
  rcases actingControl_cases _ hdec.ctl_mem hclass with h | h <;>
    simp_all [sfenceReal, Reg2.sfenceReal, Reg2.illegal, Reg2.aluCtl, aluCtrl,
      Reg2.csrPrivViolation, Reg2.mretPrivViolation, Reg2.sretPrivViolation,
      Reg2.sfencePrivViolation]

/-- Float arithmetic raises no exception of its own. -/
theorem not_float_of_exceptionTaken (hdec : s.reg2.Decoded) (hwalk : WalkInv P s)
    (hexc : exceptionTaken P s = true) (hfetch : s.reg2.ctx.ifetchFault = false) :
    s.reg2.isOpFp = false ∧ s.reg2.isFma = false := by
  rw [← Bool.or_eq_false_iff]
  by_contra hne
  have hmem := fun hf ↦ mem_of_dtlbPageFault (P := P) (s := s) hwalk hf
  have hcases := exceptionTaken_cases hexc hfetch
  rcases hdec.ctl_float (Bool.eq_true_of_not_eq_false hne) with h | h | h <;>
    simp_all [Reg2.illegal, Reg2.aluCtl, aluCtrl, Reg2.csrPrivViolation, Reg2.mretPrivViolation,
      Reg2.sretPrivViolation, Reg2.sfencePrivViolation]

/-- With the condition met, nothing but the trap port acts from EX. -/
theorem quiet_of_exceptionClear {ins : ℕ → Inputs} (hdec : s.reg2.Decoded) (hwalk : WalkInv P s)
    (hexc : exceptionTaken P s = true) (hclear : ExceptionClear P s ins) :
    csrPermitted s = false ∧ sfenceReal s = false ∧ s.reg2.isOpFp = false ∧
      s.reg2.isFma = false := by
  cases hfetch : s.reg2.ctx.ifetchFault with
  | true => exact hclear.fetchFault hfetch
  | false =>
    obtain ⟨hsf, -⟩ := not_acting_of_exceptionTaken hdec hwalk hexc hfetch
    obtain ⟨hop, hfma⟩ := not_float_of_exceptionTaken hdec hwalk hexc hfetch
    refine ⟨?_, hsf, hop, hfma⟩
    by_contra hne
    have := ifetchFault_of_exceptionTaken hdec hwalk hexc (.inl (by simpa using hne))
    rw [hfetch] at this
    exact Bool.noConfusion this

/-! ## The committing edge -/

theorem branchTaken_of_exceptionTaken (hexc : exceptionTaken P s = true) :
    branchTaken P s i = true := by
  simp [branchTaken, otherRedirectTaken, hexc]

theorem interruptTaken_of_exceptionTaken (hexc : exceptionTaken P s = true) :
    interruptTaken P s i = false := by
  simp [interruptTaken, otherRedirectTaken, hexc]

theorem csr_of_trapTaken {c : Csr w} {n : Counters w} {p : Pending} {q : CsrIn w}
    (hwe : q.csrWriteEn = false) (htrap : q.trapTaken = true) (hfp : q.fpFlagsWe = false) :
    OnlyTrapCsrs (c.trapTargetIsS q) c (c.next n p q) := by
  constructor <;> simp +contextual [Csr.next, Csr.nextWith, hwe, htrap, hfp]

/-- What comes into the TLB is what a walk has found. -/
theorem tlb_of_ptwFillValid (hfill : ptwFillValid s = false) (e : BitVec 4)
    (hvalid : ((step P s i).tlb e).valid = true) : (step P s i).tlb e = s.tlb e := by
  change ((tlbNext P s i) e).valid = true at hvalid
  change tlbNext P s i e = s.tlb e
  simp only [tlbNext, Tlb.step, hfill, Bool.false_eq_true, if_false] at hvalid ⊢
  cases hflush : sfenceReal s && !reg2Hold P s i with
  | true => simp [hflush, Tlb.invalidate] at hvalid
  | false => rfl

/-- After the trap the pipeline has nothing to wait for while the squash is extended. -/
theorem pcStall_after_exception (hexc : exceptionTaken P s = true)
    (hhold : reg2Hold P s i = false) (hfence : s.fencePending = false)
    (hfe : P.cacheMode ≠ .none → s.reg2.ctl.isFence = false)
    (hprof : P.pipelineProfile = .splitFetch) (j : Inputs) :
    pcStall P (step P s i) j = false := by
  have hbt := branchTaken_of_exceptionTaken (i := i) hexc
  have hmem := memHold_eq_false_of_reg2Hold hhold
  have hreg2 : (step P s i).reg2 = .squashed w := by simp [step, Reg2.step, hhold, hbt]
  have hreg3 : (step P s i).reg3 = reg3Next P s i := by simp [step, Reg3.step, hmem]
  have hbub : reg3Bubble P s i = true := by simp [reg3Bubble, hexc]
  have hext : (step P s i).redirectSquashExtend = true := by simp [step, hprof, hbt]
  have hpend : (step P s i).fencePending = false := by
    cases hmode : P.cacheMode with
    | none => simp [step, fencePendingNext, hmode, hfence]
    | writebackSetassoc => simp [step, fencePendingNext, hfe (by simp [hmode]), hfence]
  have hhaz : ∀ bt, hazardStall P (step P s i) bt = false := by
    intro bt
    unfold hazardStall
    cases P.hazardStrategy with
    | forwarding => simp [hreg2, hazard]
    | noForward => simp [hreg2, hreg3, reg3Next, hbub, hazardNoForward]
  have hstall : memStall P (step P s i) = false := by
    cases hmode : P.cacheMode <;>
      simp [memStall, memTrigger, hmode, hreg3, reg3Next, hbub, hpend]
  have hamo : amoStall (step P s i) = false := by simp [amoStall, amoActive, hreg3, reg3Next, hbub]
  have hdiv : divStall (step P s i) = false := by simp [divStall, hreg2]
  have hfp : fpStall (step P s i) = false := by
    simp [fpStall, hreg2, Reg2.isFpDiv, Reg2.isFpSqrt]
  have hflu : floatLoadUseHazard (step P s i) = false := by simp [floatLoadUseHazard, hreg2]
  have hdtlb : ∀ bt, dtlbMiss P (step P s i) bt = false := by
    intro bt
    simp [dtlbMiss, dtlbNeeded, hreg2]
  simp [pcStall, pcStallOf, hhaz, hstall, hamo, hdiv, hfp, hflu, hdtlb, itlbMiss, icacheMiss,
    imemWait, hext]

/-- Maps everything execute-only through a megapage, returns to S-mode, and loads there with
the next instruction waiting for the result. -/
def swallowProgram : List (BitVec 32) :=
  [0x00900093,  -- addi x1, x0, 9
   0x00102023,  -- sw   x1, 0(x0)
   0x80000137,  -- lui  x2, 0x80000
   0x18011073,  -- csrw satp, x2
   0x04000193,  -- addi x3, x0, 64
   0x30519073,  -- csrw mtvec, x3
   0x00001237,  -- lui  x4, 1
   0x80020213,  -- addi x4, x4, -2048
   0x30021073,  -- csrw mstatus, x4
   0x03000293,  -- addi x5, x0, 48
   0x34129073,  -- csrw mepc, x5
   0x30200073,  -- mret
   0x00002283,  -- lw   x5, 0(x0)
   0x00528333]  -- add  x6, x5, x5

def swallowParams : Params := { insts := instsOfWords swallowProgram }

/-- The cycle in which the load is in EX and its page fault commits. -/
def swallowState : State 32 0 := run swallowParams default (fun _ ↦ {}) 21

theorem swallowState_reachable : Reachable swallowParams swallowState :=
  (core swallowParams 32 0).reachable_run ⟨default, rfl⟩ _ 21

/-- The same with a jump to a page that is not mapped in place of the load. -/
def unmappedParams : Params :=
  { insts := instsOfWords (swallowProgram.take 12 ++
      [0x004003b7,     -- lui  x7, 0x400
       0x00038067]) }  -- jalr x0, 0(x7)

/-- The cycle in which the page fault of the fetch commits, with the walk for the next fetch under
way. -/
def unmappedState : State 32 0 := run unmappedParams default (fun _ ↦ {}) 29

theorem unmappedState_reachable : Reachable unmappedParams unmappedState :=
  (core unmappedParams 32 0).reachable_run ⟨default, rfl⟩ _ 29

theorem unmappedState_walk (x : ℕ) (hlasts : WalkLasts unmappedParams unmappedState (fun _ ↦ {}) x) :
    ((core unmappedParams 32 0).run unmappedState (fun _ ↦ {}) x).ptw.done = true →
      ((core unmappedParams 32 0).run unmappedState (fun _ ↦ {}) x).ptw.fault = true := by
  have hover : ((core unmappedParams 32 0).run unmappedState (fun _ ↦ {}) 3).ptw.busy = false := by
    decide +kernel
  have hx : x < 4 := by
    by_contra hle
    exact absurd (hover.symm.trans (hlasts 3 (by omega))) Bool.false_ne_true
  revert x
  suffices hall : ∀ x < 4,
      ((core unmappedParams 32 0).run unmappedState (fun _ ↦ {}) x).ptw.done = true →
        ((core unmappedParams 32 0).run unmappedState (fun _ ↦ {}) x).ptw.fault = true from
    fun x _ hx ↦ hall x hx
  decide +kernel

end RvPipeline
