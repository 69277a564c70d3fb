import RvPipeline.Core.Wires

/-!
# Invariants of every reachable state

The ID/EX register always holds fields of one instruction word, with its control
bits either decoded from that word or all clear; and a page walk that was started
for the instruction in EX, and not abandoned, still finds that instruction there.
-/

namespace RvPipeline

variable {w k : ℕ} {P : Params} {s : State w k} {i : Inputs}

/-! ## The ID/EX register -/

/-- The decode context agrees with the instruction word. -/
structure Reg2.Fields (r : Reg2 w) : Prop where
  funct7 : r.ctx.funct7 = funct7Of r.inst
  funct3 : r.ctx.funct3 = funct3Of r.inst
  imm : r.ctx.imm = immGen w r.inst
  readReg1 : r.ctx.readReg1 = rs1Of r.inst
  readReg2 : r.ctx.readReg2 = rs2Of r.inst
  readReg3 : r.ctx.readReg3 = rs3Of r.inst

/-- The control bits are those of the instruction word, or a bubble's. -/
def Reg2.ControlOk (r : Reg2 w) : Prop :=
  (r.ctl = {} ∧ r.writeToReg = 0 ∧ r.valid = false) ∨
    (r.ctl = decodeControl w r.inst ∧ r.writeToReg = rdOf r.inst)

/-- What every reachable ID/EX register satisfies. -/
structure Reg2.Decoded (r : Reg2 w) : Prop where
  fields : r.Fields
  control : r.ControlOk

theorem signExtend_zero (n : ℕ) : (0#n).signExtend w = 0 := by
  apply BitVec.eq_of_getLsbD_eq
  intro j hj
  simp [BitVec.getLsbD_signExtend]

theorem immGen_nopInst : immGen w nopInst = 0 := by
  simp [immGen, nopInst, opcodeI, signExtend_zero]

theorem nopInst_fields :
    funct7Of nopInst = 0 ∧ funct3Of nopInst = 0 ∧ rs1Of nopInst = 0 ∧ rs2Of nopInst = 0 ∧
      rs3Of nopInst = 0 := by
  decide

theorem zeroInst_fields :
    funct7Of 0 = 0 ∧ funct3Of 0 = 0 ∧ rs1Of 0 = 0 ∧ rs2Of 0 = 0 ∧ rs3Of 0 = 0 := by
  decide

theorem immGen_zero : immGen w 0 = 0 := by
  simp [immGen, opcodeI, opcodeOpImm32, opcodeBranch, opcodeLoad, opcodeLoadFp, opcodeStore,
    opcodeStoreFp, opcodeJal, opcodeJalr, opcodeLui, opcodeAuipc, opcodeSystem]

theorem Reg2.decoded_squashed : (Reg2.squashed w).Decoded := by
  obtain ⟨h7, h3, h1, h2, h3'⟩ := nopInst_fields
  exact ⟨⟨h7.symm, h3.symm, immGen_nopInst.symm, h1.symm, h2.symm, h3'.symm⟩, .inl ⟨rfl, rfl, rfl⟩⟩

theorem Reg2.decoded_reset : (Reg2.reset w).Decoded := by
  obtain ⟨h7, h3, h1, h2, h3'⟩ := zeroInst_fields
  exact ⟨⟨h7.symm, h3.symm, immGen_zero.symm, h1.symm, h2.symm, h3'.symm⟩, .inl ⟨rfl, rfl, rfl⟩⟩

theorem reg2Next_decoded : (reg2Next s).Decoded where
  fields := ⟨rfl, rfl, rfl, rfl, rfl, rfl⟩
  control := .inr ⟨rfl, rfl⟩

theorem Reg2.Decoded.flushed {r : Reg2 w} (h : r.Decoded) : r.flushed.Decoded where
  fields := ⟨h.fields.funct7, h.fields.funct3, h.fields.imm, h.fields.readReg1,
    h.fields.readReg2, h.fields.readReg3⟩
  control := .inl ⟨rfl, rfl, rfl⟩

theorem Reg2.Decoded.step {r next : Reg2 w} (h : r.Decoded) (hnext : next.Decoded)
    (hold bt flush : Bool) : (r.step hold bt flush next).Decoded := by
  unfold Reg2.step
  split_ifs
  · exact h
  · exact Reg2.decoded_squashed
  · exact hnext.flushed
  · exact hnext

theorem reg2_decoded (h : Reachable P s) : s.reg2.Decoded := by
  refine h.invariant (fun s ↦ s.reg2.Decoded) ?_ ?_
  · rintro _ ⟨s₀, rfl⟩
    exact Reg2.decoded_reset
  · intro s i hs
    exact hs.step reg2Next_decoded _ _ _

/-! ## The values of `Control.v` -/

/-- Every value the decoder can produce. -/
def controlValues : List Control :=
  [{ aluOp := .rtype, regWrite := true },
   { memRead := true, memtoReg := true, aluSrc := true, regWrite := true },
   { memWrite := true, aluSrc := true },
   { aluSrc := true, regWrite := true, isAmo := true },
   { aluOp := .itype, aluSrc := true, regWrite := true },
   { illegalOpcode := true },
   { branch := true, aluOp := .branch },
   { regWrite := true, jump := true },
   { regWrite := true, jump := true, jalr := true },
   { aluSrc := true, regWrite := true, lui := true },
   { aluSrc := true, regWrite := true, auipc := true },
   { isSfenceVma := true },
   { isEcall := true },
   { isEbreak := true },
   { isMret := true },
   { isSret := true },
   { isCsr := true, regWrite := true },
   { regWrite := true },
   { fRegWrite := true },
   { memRead := true, memtoReg := true, aluSrc := true, fRegWrite := true },
   { isFence := true }]

theorem ite_mem {α : Type} {c : Prop} [Decidable c] {a b : α} {l : List α} (ha : a ∈ l)
    (hb : b ∈ l) : (if c then a else b) ∈ l := by
  split <;> assumption

theorem control_mem_controlValues (xlen : ℕ) (opcode funt7 : BitVec 7) (funt3 : BitVec 3)
    (csrImm12 : BitVec 12) : control xlen opcode funt7 funt3 csrImm12 ∈ controlValues := by
  unfold control
  repeat' refine ite_mem ?_ ?_
  all_goals simp [controlValues]

/-- A decidable property of control values holds of whatever `reg2` holds once it is
checked on the decoder's values and on the bubble. -/
theorem Reg2.Decoded.ctl_mem {r : Reg2 w} (h : r.Decoded) : r.ctl ∈ ({} :: controlValues) := by
  rcases h.control with ⟨hctl, -, -⟩ | ⟨hctl, -⟩
  · rw [hctl]
    exact List.mem_cons_self
  · rw [hctl]
    exact List.mem_cons_of_mem _ (control_mem_controlValues _ _ _ _ _)

theorem control_fma {xlen : ℕ} {opcode funt7 : BitVec 7} {funt3 : BitVec 3}
    {csrImm12 : BitVec 12} (h : isFmaOpcode opcode = true) :
    control xlen opcode funt7 funt3 csrImm12 = { fRegWrite := true } := by
  simp only [isFmaOpcode, Bool.or_eq_true, beq_iff_eq] at h
  rcases h with ((h | h) | h) | h <;> subst h <;> rfl

theorem control_fp (xlen : ℕ) (funt7 : BitVec 7) (funt3 : BitVec 3) (csrImm12 : BitVec 12) :
    control xlen opcodeFp funt7 funt3 csrImm12 =
      if funt7.extractLsb' 2 5 = funct5Fcmp ∨ funt7.extractLsb' 2 5 = funct5FcvtWS ∨
          funt7.extractLsb' 2 5 = funct5FmvXWFclass then
        { regWrite := true }
      else { fRegWrite := true } := rfl

/-- The float arithmetic opcodes only ever write a register. -/
theorem decodeControl_float {inst : BitVec 32}
    (h : (opcodeOf inst == opcodeFp || isFmaOpcode (opcodeOf inst)) = true) :
    decodeControl w inst = { regWrite := true } ∨ decodeControl w inst = { fRegWrite := true } := by
  unfold decodeControl
  simp only [Bool.or_eq_true, beq_iff_eq] at h
  rcases h with h | h
  · rw [h, control_fp]
    split_ifs
    · exact .inl rfl
    · exact .inr rfl
  · exact .inr (control_fma h)

/-- A float arithmetic instruction in EX, or a bubble with its bits. -/
theorem Reg2.Decoded.ctl_float {r : Reg2 w} (h : r.Decoded) (hf : (r.isOpFp || r.isFma) = true) :
    r.ctl = {} ∨ r.ctl = { regWrite := true } ∨ r.ctl = { fRegWrite := true } := by
  rcases h.control with ⟨hctl, -, -⟩ | ⟨hctl, -⟩
  · exact .inl hctl
  · rw [hctl]
    exact .inr (decodeControl_float hf)

/-! ## The EX/MEM register -/

/-- At most one kind of access is asked for. -/
structure Reg3.OneAccess (r : Reg3 w) : Prop where
  read : r.memRead = true → r.memWrite = false ∧ r.isAmo = false
  write : r.memWrite = true → r.memRead = false ∧ r.isAmo = false

theorem control_oneAccess : ∀ c ∈ ({} :: controlValues : List Control),
    (c.memRead = true → c.memWrite = false ∧ c.isAmo = false) ∧
      (c.memWrite = true → c.memRead = false ∧ c.isAmo = false) := by
  decide

theorem reg3Next_oneAccess (hdec : s.reg2.Decoded) : (reg3Next P s i).OneAccess := by
  obtain ⟨hr, hw⟩ := control_oneAccess _ hdec.ctl_mem
  constructor
  · intro h
    simp only [reg3Next, Bool.and_eq_true] at h
    simp [reg3Next, hr h.2]
  · intro h
    simp only [reg3Next, Bool.and_eq_true] at h
    simp [reg3Next, hw h.2]

theorem reg3_oneAccess (h : Reachable P s) : s.reg3.OneAccess := by
  suffices hboth : s.reg2.Decoded ∧ s.reg3.OneAccess from hboth.2
  refine h.invariant (fun s ↦ s.reg2.Decoded ∧ s.reg3.OneAccess) ?_ ?_
  · rintro _ ⟨s₀, rfl⟩
    exact ⟨Reg2.decoded_reset, ⟨by simp [reset, Reg3.reset], by simp [reset, Reg3.reset]⟩⟩
  · rintro s i ⟨hdec, hacc⟩
    refine ⟨hdec.step reg2Next_decoded _ _ _, ?_⟩
    change (s.reg3.step (memHold P s) (reg3Next P s i)).OneAccess
    unfold Reg3.step
    split_ifs
    · exact hacc
    · exact reg3Next_oneAccess hdec

/-! ## Page walks -/

namespace Ptw

variable {start isFetch isStore privIsU mAck : Bool} {vaddr mDataI : BitVec w}
  {satpPpn : BitVec 44} {p : Ptw w}

/-- `busy` is up exactly outside `S_IDLE`, and never together with `done`. -/
structure Sane (p : Ptw w) : Prop where
  busy_iff : p.busy = true ↔ p.state ≠ .idle
  not_done : p.busy = true → p.done = false

theorem Sane.decodeStep (hp : p.busy = true) (level : ℕ) : (p.decodeStep level).Sane := by
  unfold Ptw.decodeStep failWalk succeed
  split_ifs <;> constructor <;> simp [hp]

theorem Sane.step (h : p.Sane) :
    (p.step start vaddr satpPpn isFetch isStore privIsU mDataI mAck).Sane := by
  unfold Ptw.step
  cases hstate : p.state with
  | idle =>
    have hbusy : p.busy = false := by
      have := h.busy_iff
      simpa [hstate] using this
    dsimp only
    split_ifs <;> constructor <;> simp [hbusy]
  | wait level =>
    have hbusy : p.busy = true := h.busy_iff.2 (by simp [hstate])
    dsimp only
    split_ifs <;> constructor <;> simp [hbusy]
  | decode level => exact Sane.decodeStep (h.busy_iff.2 (by simp [hstate])) level

/-- From rest, the walker is only ever left busy, and only by an accepted start. -/
theorem step_of_not_busy (h : p.Sane) (hbusy : p.busy = false) :
    let p' := p.step start vaddr satpPpn isFetch isStore privIsU mDataI mAck
    p'.done = false ∧ (p'.busy = true → start = true ∧ p.done = false) := by
  have hstate : p.state = .idle := by
    have := h.busy_iff
    rw [hbusy] at this
    simpa using this
  simp only [Ptw.step, hstate]
  split_ifs with hstart
  · simp_all
  · simp [hbusy]

end Ptw

theorem ptwNext_of_not_busy (h : s.ptw.Sane) (hbusy : s.ptw.busy = false) :
    (ptwNext P s i).done = false ∧
      ((ptwNext P s i).busy = true → ptwStart P s i = true ∧ s.ptw.done = false) :=
  Ptw.step_of_not_busy h hbusy

/-- A data walk that has not been abandoned belongs to the instruction in EX: it needs
translation, is being held, and does not hit. -/
structure WalkInv (P : Params) (s : State w k) : Prop where
  sane : s.ptw.Sane
  data : s.ptw.busy = true ∨ s.ptw.done = true → s.ptwServicingD = true →
    s.ptwAbandoned = false → dtlbNeeded s = true ∧ s.dtlbMissR = true ∧ lsHit P s = false

/-- While EX waits for a data walk, translation looks the same after the edge. -/
theorem WalkInv.hold_data (hneeded : dtlbNeeded s = true) (hmiss : lsHit P s = false)
    (hdone : s.ptw.done = false) (hbt : branchTaken P s i = false) :
    dtlbNeeded (step P s i) = true ∧ (step P s i).dtlbMissR = true ∧
      lsHit P (step P s i) = false := by
  have hdtlb : dtlbMiss P s (branchTaken P s i) = true := by
    simp [dtlbMiss, hneeded, hmiss, hbt, ptwDoneD, hdone]
  have hhold : reg2Hold P s i = true := by simp [reg2Hold, reg2HoldOf, hdtlb]
  have hcsr := step_csr_of_hold hhold
  have hreg2 := step_reg2_of_hold hhold
  have hmissR : (step P s i).dtlbMissR = true := hdtlb
  have htlb : (step P s i).tlb = s.tlb := by
    simp [step, tlbNext, Tlb.step, hhold, ptwFillValid, hdone]
  have hva : (step P s i).dtlbVaddrR = dtlbVaddr P s := by
    cases hR : s.dtlbMissR <;> simp [step, dtlbVaddr, hneeded, hR]
  refine ⟨?_, hmissR, ?_⟩
  · simpa [dtlbNeeded, translateEnable, hcsr, hreg2] using hneeded
  · simpa [lsHit, dtlbVaddr, hmissR, hva, htlb] using hmiss

theorem WalkInv.step (h : WalkInv P s) : WalkInv P (step P s i) := by
  refine ⟨h.sane.step, ?_⟩
  intro hactive hserv haband
  by_cases hbusy : s.ptw.busy = true
  · -- the walk was already running: it kept its owner, so no redirect can have come
    have hdone := h.sane.not_done hbusy
    have hserv' : s.ptwServicingD = true := by simpa [RvPipeline.step, hbusy] using hserv
    have hab : branchTaken P s i = false ∧ s.ptwAbandoned = false := by
      simpa [RvPipeline.step, hbusy, hdone] using haband
    obtain ⟨hneeded, -, hmiss⟩ := h.data (.inl hbusy) hserv' hab.2
    exact WalkInv.hold_data hneeded hmiss hdone hab.1
  · -- the walk starts on this edge, for a data miss seen with no redirect
    have hbusy' : s.ptw.busy = false := by simpa using hbusy
    obtain ⟨hdone', hstart⟩ := ptwNext_of_not_busy (P := P) (i := i) h.sane hbusy'
    have hbusy1 : (ptwNext P s i).busy = true := by
      rcases hactive with hb | hd
      · exact hb
      · exact absurd (hdone'.symm.trans hd) Bool.false_ne_true
    obtain ⟨hst, hdone⟩ := hstart hbusy1
    have hreq : ptwReqD P s i = true := by
      simpa [RvPipeline.step, hst, hbusy'] using hserv
    simp only [ptwReqD, dtlbMiss, Bool.and_eq_true, Bool.not_eq_true'] at hreq
    exact WalkInv.hold_data hreq.1.1.1 hreq.1.1.2 hdone hreq.2

theorem WalkInv.init (s₀ : State w k) : WalkInv P (reset P s₀) := by
  refine ⟨⟨?_, ?_⟩, ?_⟩ <;> simp [reset, Ptw.reset]

theorem walkInv (h : Reachable P s) : WalkInv P s := by
  refine h.invariant (WalkInv P) ?_ fun s i hs ↦ hs.step
  rintro _ ⟨s₀, rfl⟩
  exact WalkInv.init s₀

/-- A data page fault is raised only for a load or store in EX. -/
theorem mem_of_dtlbPageFault (h : WalkInv P s) (hfault : dtlbPageFault P s = true) :
    s.reg2.ctl.memRead = true ∨ s.reg2.ctl.memWrite = true := by
  have hneeded : dtlbNeeded s = true := by
    simp only [dtlbPageFault, dtlbHitFault, ptwDoneD, Bool.or_eq_true, Bool.and_eq_true,
      Bool.not_eq_true'] at hfault
    rcases hfault with hhit | hwalk
    · exact hhit.1.1
    · exact (h.data (.inr hwalk.1.1.1) hwalk.1.1.2 hwalk.2).1
  simp only [dtlbNeeded, Bool.and_eq_true, Bool.or_eq_true] at hneeded
  exact hneeded.2

end RvPipeline
