import RvPipeline.Refine.Front

/-!
# Operands in every configuration

With caches, translation and AMOs too, the instruction in EX works on the registers as MEM and
WB will leave them, whatever the memory answers to the access in MEM.  It has them from the file
and the muxes; once these have nothing to forward any more, an iterative unit or the registers
that wait for a translation have taken what it needs.
-/

namespace RvPipeline

variable {w k : ℕ} {P : Params} {s : State w k} {i : Inputs} {v : BitVec w}

/-! ## One cycle of MEM and WB -/

/-- What the memory has answered to the access in MEM. -/
def memAnswer (P : Params) (s : State w k) : BitVec w :=
  if s.reg3.isAmo then (amoNext P s).capturedRead else (reg4Next P s).readData

theorem writeDataWb_of_leave (hmem : memHold P s = false) :
    writeDataWb (step P s i) = answeredValue (memAnswer P s) s := by
  have h4 : (step P s i).reg4 = reg4Next P s := by simp [step, Reg4.step, hmem]
  unfold writeDataWb answeredValue memAnswer
  rw [h4]
  cases hamo : s.reg3.isAmo with
  | true =>
    simp only [reg4Next, Reg4.ofReg3, hamo, if_true]
    rfl
  | false => simp only [reg4Next, Reg4.ofReg3, hamo, Bool.false_eq_true, if_false]

/-- What leaves MEM has the value it was to have, and what enters MEM comes after it. -/
theorem settled_of_leave (hmem : memHold P s = false) (v : BitVec w) :
    settledX v (step P s i) = (settledX (memAnswer P s) s).write (step P s i).reg3.regWrite
        (step P s i).reg3.writeToReg (answeredValue v (step P s i)) ∧
      settledF v (step P s i) = (settledF (memAnswer P s) s).fwrite (step P s i).reg3.fRegWrite
        (step P s i).reg3.writeToReg (answeredValue v (step P s i)) := by
  have h4 : (step P s i).reg4 = reg4Next P s := by simp [step, Reg4.step, hmem]
  constructor
  · conv_lhs => unfold settledX
    rw [writeDataWb_of_leave hmem, h4]
    rfl
  · conv_lhs => unfold settledF
    rw [writeDataWb_of_leave hmem, h4]
    rfl

/-- While MEM waits, nothing that is to be written changes. -/
theorem settled_of_memHold (hmem : memHold P s = true)
    (hapart : s.reg3.isAmo = true → s.reg4.isAmo = false) (v : BitVec w) :
    settledX v (step P s i) = settledX v s ∧ settledF v (step P s i) = settledF v s := by
  have h3 := step_reg3_of_memHold (i := i) hmem
  have h4 := step_reg4_of_memHold (i := i) hmem
  have hvalue : answeredValue v (step P s i) = answeredValue v s := by simp [answeredValue, h3]
  have hwb : writeDataWb (step P s i) = writeDataWb s := by
    unfold writeDataWb
    rw [h4]
    cases hamo : s.reg4.isAmo with
    | false => rfl
    | true =>
      -- the sequencer is at rest under whatever is in MEM
      have hno : s.reg3.isAmo = false := by
        by_contra hne
        rw [hapart (by simpa using hne)] at hamo
        exact Bool.noConfusion hamo
      simp [step, amoNext, amoActive, hno]
  constructor
  · unfold settledX
    rw [hvalue, hwb, h3, h4]
    change ((s.regs.write _ _ _).write _ _ _).write _ _ _ = _
    rw [RegFile.write_write_self]
  · unfold settledF
    rw [hvalue, hwb, h3, h4]
    change ((s.fregs.fwrite _ _ _).fwrite _ _ _).fwrite _ _ _ = _
    rw [RegFile.fwrite_fwrite_self]

/-! ## What holds of every state -/

/-- The record in MEM writes nothing at all, and no fence is pending. -/
structure MemDone (s : State w k) : Prop where
  x : s.reg3.regWrite = false
  silent : s.reg3.Silent
  fence : s.fencePending = false

theorem MemDone.memHold (h : MemDone s) : memHold P s = false := by
  cases hmode : P.cacheMode <;>
    simp [RvPipeline.memHold, memStall, memTrigger, amoStall, amoActive, hmode, h.silent.read,
      h.silent.write, h.silent.amo, h.fence]

/-- No AMO follows an AMO directly, and no fused multiply-add that a hazard unit blind to float
registers lets pass enters EX behind the load of its first operand. -/
structure OperandsKept (P : Params) (s : State w k) (i : Inputs) : Prop where
  amo : s.reg2.ctl.isAmo = true → s.reg3.isAmo = false
  fma : P.hazardStrategy = .noForward → branchTaken P s i = false → FmaApart P s i

instance : Decidable (OperandsKept P s i) :=
  decidable_of_iff ((s.reg2.ctl.isAmo = true → s.reg3.isAmo = false) ∧
      (P.hazardStrategy = .noForward → branchTaken P s i = false → FmaApart P s i))
    ⟨fun h ↦ ⟨h.1, h.2⟩, fun h ↦ ⟨h.amo, h.fma⟩⟩

/-- What waits in EX and MEM: a translation is missing for a load or store only, a fence has MEM
to itself, and no two AMOs are in MEM and WB. -/
structure WaitInv (P : Params) (s : State w k) : Prop where
  access : s.dtlbMissR = true → (s.reg2.ctl.memRead || s.reg2.ctl.memWrite) = true
  fence : s.memStallDone = true → s.fencePending = false
  uncached : P.cacheMode = .none → s.fencePending = false
  apart : s.reg3.isAmo = true → s.reg4.isAmo = false
  x0 : s.regs 0 = 0

theorem reg2Hold_of_dtlbMiss (h : dtlbMiss P s (branchTaken P s i) = true) :
    reg2Hold P s i = true := by
  simp [reg2Hold, reg2HoldOf, h]

theorem reg2Hold_of_memStall (h : memStall P s = true) : reg2Hold P s i = true := by
  simp [reg2Hold, reg2HoldOf, h]

/-- A fence that is pending is not forgotten before the cache has been flushed, and one more does
not leave EX meanwhile. -/
theorem fencePendingNext_eq_false (hhold : reg2Hold P s i = true)
    (hno : s.fencePending = true → dcacheFlushDone P s = true) :
    fencePendingNext P s i = false := by
  unfold fencePendingNext
  rw [hhold]
  cases hf : s.fencePending with
  | false => simp
  | true => simp [hno hf]

theorem WaitInv.step (h : WaitInv P s) (hkept : OperandsKept P s i) :
    WaitInv P (step P s i) where
  access hmiss := by
    have hmiss' : dtlbMiss P s (branchTaken P s i) = true := hmiss
    rw [step_reg2_of_hold (reg2Hold_of_dtlbMiss hmiss')]
    simp only [dtlbMiss, dtlbNeeded, Bool.and_eq_true] at hmiss'
    exact hmiss'.1.1.1.2
  fence hdone := by
    have hboth : (memStall P s && memAccessReady P s) = true := hdone
    rw [Bool.and_eq_true] at hboth
    refine fencePendingNext_eq_false (reg2Hold_of_memStall hboth.1) fun hf ↦ ?_
    cases hmode : P.cacheMode with
    | none =>
      rw [h.uncached hmode] at hf
      exact Bool.noConfusion hf
    | writebackSetassoc => simpa [memAccessReady, hmode, hf] using hboth.2
  uncached hmode := by
    change fencePendingNext P s i = false
    simp [fencePendingNext, dcacheFlushDone, hmode, h.uncached hmode]
  apart := by
    cases hmem : memHold P s with
    | true =>
      rw [step_reg3_of_memHold hmem, step_reg4_of_memHold hmem]
      exact h.apart
    | false =>
      have h4 : (RvPipeline.step P s i).reg4 = reg4Next P s := by simp [RvPipeline.step, Reg4.step, hmem]
      rw [step_reg3_of_move hmem, h4]
      intro hamo
      simp only [reg3Next, Bool.and_eq_true] at hamo
      exact hkept.amo hamo.2
  x0 := by
    change (s.regs.write _ _ _) 0 = 0
    unfold RegFile.write
    split_ifs with hw h0
    · rfl
    · simp only [Bool.and_eq_true, beq_iff_eq] at hw
      exact absurd hw.2.symm h0
    · exact h.x0

theorem WaitInv.init (s₀ : State w k) : WaitInv P (reset P s₀) where
  access h := absurd h Bool.false_ne_true
  fence _ := rfl
  uncached _ := rfl
  apart h := absurd h Bool.false_ne_true
  x0 := rfl

/-- A fence that has MEM to itself leaves it with nothing pending. -/
theorem WaitInv.fence_of_leave (h : WaitInv P s) (hmem : memHold P s = false) :
    s.fencePending = false := by
  by_contra hne
  have hf := Bool.eq_true_of_not_eq_false hne
  cases hmode : P.cacheMode with
  | none =>
    rw [h.uncached hmode] at hf
    exact Bool.noConfusion hf
  | writebackSetassoc =>
    simp only [memHold, memStall, memTrigger, hmode, hf, Bool.or_true, Bool.true_and,
      Bool.or_eq_false_iff, Bool.not_eq_false'] at hmem
    rw [h.fence hmem.1] at hf
    exact Bool.noConfusion hf

/-! ## The operands -/

/-- The instruction in EX works on the registers as they will be if the memory answers `v`: it
sees them, or MEM is empty and what it needs of them has been taken. -/
structure OperandsSettled (P : Params) (s : State w k) (v : BitVec w) : Prop where
  reads : s.reg2.valid = true →
    s.reg2.mask (operands P s) = s.reg2.mask (settledOperands v s) ∨
      (MemDone s ∧ (Captured s ∨ s.dtlbMissR = true))
  units : UnitsFor s (settledOperands v s)
  latched : s.reg2.valid = true → s.dtlbMissR = true →
    s.dtlbVaddrR = s.reg2.aluOut (settledOperands v s) ∧
      s.dtlbStoreDataR = s.reg2.storeData (settledOperands v s)

theorem Reg2.singleCycle_of_access {r : Reg2 w} (hdec : r.Decoded)
    (h : (r.ctl.memRead || r.ctl.memWrite) = true) : r.singleCycle := by
  apply Reg2.singleCycle_of_not_float
  · by_contra hne
    have hctl := control_rtype _ hdec.ctl_mem (aluOp_of_isDivRem (by simpa using hne))
    simp [hctl] at h
  · by_contra hne
    rcases hdec.ctl_float (Bool.eq_true_of_not_eq_false hne) with hc | hc | hc <;> simp [hc] at h

theorem not_captured_of_singleCycle (h : s.reg2.singleCycle) : ¬Captured s := by
  rintro (hc | hc | hc)
  · exact Bool.noConfusion (h.1.symm.trans hc.1)
  · exact Bool.noConfusion (h.2.1.symm.trans hc.1)
  · exact Bool.noConfusion (h.2.2.symm.trans hc.1)

namespace OperandsSettled

variable (hdec : s.reg2.Decoded) (hwait : WaitInv P s) (h : OperandsSettled P s v)

include h

/-- An instruction that no unit works for and no translation holds sees the registers. -/
theorem mask_eq (hval : s.reg2.valid = true) (hone : s.reg2.singleCycle)
    (hno : s.dtlbMissR = false) :
    s.reg2.mask (operands P s) = s.reg2.mask (settledOperands v s) := by
  rcases h.reads hval with hfresh | ⟨-, hcap | hmiss⟩
  · exact hfresh
  · exact absurd hcap (not_captured_of_singleCycle hone)
  · exact Bool.noConfusion (hno.symm.trans hmiss)

include hdec

/-- What the registers of a missing translation hold after a cycle, if it was missing in it. -/
theorem latched_of_miss (hval : s.reg2.valid = true)
    (hmiss : dtlbMiss P s (branchTaken P s i) = true) :
    (step P s i).dtlbVaddrR = s.reg2.aluOut (settledOperands v s) ∧
      (step P s i).dtlbStoreDataR = s.reg2.storeData (settledOperands v s) := by
  have hneed : dtlbNeeded s = true := by
    simp only [dtlbMiss, Bool.and_eq_true] at hmiss
    exact hmiss.1.1.1
  cases hold : s.dtlbMissR with
  | true => simpa [step, hneed, hold] using h.latched hval hold
  | false =>
    have hacc : (s.reg2.ctl.memRead || s.reg2.ctl.memWrite) = true := by
      simp only [dtlbNeeded, Bool.and_eq_true] at hneed
      exact hneed.2
    have hmask := h.mask_eq hval (Reg2.singleCycle_of_access hdec hacc) hold
    have haddr := congrArg s.reg2.aluOut hmask
    change exAluOut P s = s.reg2.aluOut (settledOperands v s) at haddr
    have hdata : s.reg2.storeData (operands P s) = s.reg2.storeData (settledOperands v s) := by
      rw [← s.reg2.storeData_mask, hmask, s.reg2.storeData_mask]
    simp [step, hneed, hold, haddr, hdata]

include hwait

theorem units_step_hold (hhold : reg2Hold P s i = true) :
    UnitsFor (step P s i) (settledOperands v s) := by
  refine h.units.step_hold hdec hhold fun hval hcap hiter ↦ ?_
  rcases h.reads hval with hfresh | ⟨-, hc | hmiss⟩
  · exact hfresh
  · exact absurd hc hcap
  · exact absurd (Reg2.singleCycle_of_access hdec (hwait.access hmiss)) hiter

/-- While MEM waits, EX keeps what it sees. -/
theorem step_of_memHold (hmem : memHold P s = true) (hhold : reg2Hold P s i = true) :
    OperandsSettled P (step P s i) v := by
  have hreg2 := step_reg2_of_hold hhold
  obtain ⟨hx, hf⟩ := settled_of_memHold (i := i) hmem hwait.apart v
  have hset : settledOperands v (step P s i) = settledOperands v s := by
    rw [settledOperands, hx, hf, hreg2]
    rfl
  have hapart : (s.reg3.isAmo && s.reg4.isAmo) = false := by
    cases h3 : s.reg3.isAmo with
    | false => rfl
    | true => exact hwait.apart h3
  have hops : operands P (step P s i) = operands P s := operands_of_memHold hapart hmem hreg2
  refine ⟨fun hval ↦ .inl ?_, ?_, fun hval hmiss ↦ ?_⟩
  · rw [hreg2] at hval
    rcases h.reads hval with hfresh | ⟨hdone, -⟩
    · rw [hreg2, hops, hset, hfresh]
    · exact Bool.noConfusion (hdone.memHold.symm.trans hmem)
  · rw [hset]
    exact h.units_step_hold hdec hwait hhold
  · rw [hreg2] at hval
    rw [hset, hreg2]
    exact h.latched_of_miss hdec hval hmiss

end OperandsSettled

/-- EX holds its instruction while MEM drains: a unit or a missing translation holds it. -/
theorem stall_of_hold (hmem : memHold P s = false) (hhold : reg2Hold P s i = true) :
    (divStall s = true ∨ fpStall s = true) ∨ dtlbMiss P s (branchTaken P s i) = true := by
  simp only [memHold, Bool.or_eq_false_iff] at hmem
  simpa [reg2Hold, reg2HoldOf, hmem.1, hmem.2, or_assoc] using hhold

theorem memDone_of_drain (hwait : WaitInv P s) (hmem : memHold P s = false)
    (hhold : reg2Hold P s i = true) : MemDone (step P s i) := by
  have hbubble : reg3Bubble P s i = true := by
    rcases stall_of_hold hmem hhold with (hd | hd) | hd <;> simp [reg3Bubble, hd]
  have h3 := step_reg3_of_move (i := i) hmem
  refine ⟨by simp [h3, reg3Next, hbubble], ?_, ?_⟩
  · rw [h3]
    exact reg3Next_silent hbubble
  · refine fencePendingNext_eq_false hhold fun hf ↦ ?_
    rw [hwait.fence_of_leave hmem] at hf
    exact Bool.noConfusion hf

/-- An empty MEM adds nothing to the registers. -/
theorem settledOperands_of_drain (hwait : WaitInv P s) (hmem : memHold P s = false)
    (hhold : reg2Hold P s i = true) (v : BitVec w) :
    settledOperands v (step P s i) = settledOperands (memAnswer P s) s := by
  have hdone := memDone_of_drain (i := i) hwait hmem hhold
  obtain ⟨hx, hf⟩ := settled_of_leave (i := i) hmem v
  have hx' : settledX v (step P s i) = settledX (memAnswer P s) s := by
    rw [hx, hdone.x]
    rfl
  have hf' : settledF v (step P s i) = settledF (memAnswer P s) s := by
    rw [hf, hdone.silent.f]
    rfl
  rw [settledOperands, hx', hf', step_reg2_of_hold hhold]
  rfl

/-- MEM drains while EX is held: what the instruction needs of the muxes has been taken. -/
theorem OperandsSettled.step_of_drain (hdec : s.reg2.Decoded) (hwait : WaitInv P s)
    (h : OperandsSettled P s (memAnswer P s)) (hmem : memHold P s = false)
    (hhold : reg2Hold P s i = true) (v : BitVec w) : OperandsSettled P (step P s i) v := by
  have hreg2 := step_reg2_of_hold hhold
  have hset := settledOperands_of_drain (i := i) hwait hmem hhold v
  refine ⟨fun _ ↦ .inr ⟨memDone_of_drain hwait hmem hhold, ?_⟩, ?_, fun hval hmiss ↦ ?_⟩
  · rcases stall_of_hold hmem hhold with hd | hd
    · exact .inl (captured_of_stall hhold hd)
    · exact .inr hd
  · rw [hset]
    exact h.units_step_hold hdec hwait hhold
  · rw [hreg2] at hval
    rw [hset, hreg2]
    exact h.latched_of_miss hdec hval hmiss

/-- An instruction that enters EX sees the registers. -/
theorem OperandsSettled.step_of_leave (hdec : s.reg2.Decoded) (hkept : OperandsKept P s i)
    (h : OperandsSettled P s v) (hhold : reg2Hold P s i = false) :
    OperandsSettled P (step P s i) v := by
  refine ⟨fun hval ↦ .inl ?_, h.units.step_leave hhold _, fun _ hmiss ↦ ?_⟩
  · obtain ⟨hreg2, hbt, hflush⟩ := step_reg2_of_enter hhold hval
    have hhaz := hflush
    simp only [reg2Flush, hbt, Bool.or_eq_false_iff] at hhaz
    refine settled_of_enter hdec (memHold_eq_false_of_reg2Hold hhold) hreg2 hhaz.1.1.1.1
      hhaz.1.1.1.2 ?_ v
    intro hP hf hl heq
    rw [hkept.fma hP hbt hf hl heq] at hflush
    exact Bool.noConfusion hflush
  · have hmiss' : dtlbMiss P s (branchTaken P s i) = true := hmiss
    rw [reg2Hold_of_dtlbMiss hmiss'] at hhold
    exact Bool.noConfusion hhold

theorem OperandsSettled.step (hdec : s.reg2.Decoded) (hwait : WaitInv P s)
    (hkept : OperandsKept P s i) (h : ∀ v, OperandsSettled P s v) (v : BitVec w) :
    OperandsSettled P (step P s i) v := by
  cases hhold : reg2Hold P s i with
  | false => exact (h v).step_of_leave hdec hkept hhold
  | true =>
    cases hmem : memHold P s with
    | true => exact (h v).step_of_memHold hdec hwait hmem hhold
    | false => exact (h _).step_of_drain hdec hwait hmem hhold v

theorem OperandsSettled.init (s₀ : State w k) (v : BitVec w) :
    OperandsSettled P (reset P s₀) v :=
  ⟨fun h ↦ absurd h Bool.false_ne_true, .init s₀ _, fun h ↦ absurd h Bool.false_ne_true⟩

/-! ## Runs -/

theorem settled_run {s₀ : State w k} {ins : ℕ → Inputs} (n : ℕ)
    (hkept : ∀ m < n, OperandsKept P (run P s₀ ins m) (ins m)) :
    WaitInv P (run P s₀ ins n) ∧ ∀ v, OperandsSettled P (run P s₀ ins n) v := by
  induction n with
  | zero => exact ⟨.init s₀, .init s₀⟩
  | succ n ih =>
    obtain ⟨hwait, hset⟩ := ih fun m hm ↦ hkept m (hm.trans n.lt_succ_self)
    have hnow := hkept n n.lt_succ_self
    exact ⟨hwait.step hnow, OperandsSettled.step (reg2_decoded (run_reachable P s₀ ins n)) hwait
      hnow hset⟩

end RvPipeline
