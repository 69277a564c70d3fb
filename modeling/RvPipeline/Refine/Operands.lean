import RvPipeline.Refine.Drain

/-!
# Operands

The hazard units keep an instruction in ID exactly as long as the register file and the
forwarding muxes could not deliver its operands: one that enters EX sees the drained
registers, whichever strategy is selected.
-/

namespace RvPipeline

variable {w k : ℕ} {P : Params} {s : State w k} {i : Inputs}

/-! ## Float loads -/

theorem ite_of {α : Type} {Q : α → Prop} {c : Prop} [Decidable c] {a b : α} (ha : c → Q a)
    (hb : ¬c → Q b) : Q (if c then a else b) := by
  split
  · exact ha ‹_›
  · exact hb ‹_›

/-- Only `flw` loads a float register. -/
theorem opcode_of_floatLoad {xlen : ℕ} {opcode funt7 : BitVec 7} {funt3 : BitVec 3}
    {csrImm12 : BitVec 12}
    (h : (control xlen opcode funt7 funt3 csrImm12).memRead = true ∧
      (control xlen opcode funt7 funt3 csrImm12).fRegWrite = true) : opcode = opcodeLoadFp := by
  revert h
  unfold control
  repeat' refine ite_of (Q := fun c : Control ↦ c.memRead = true ∧ c.fRegWrite = true →
    opcode = opcodeLoadFp) (fun hc ↦ ?_) (fun hc ↦ ?_)
  all_goals first
    | exact fun _ ↦ hc
    | exact fun h ↦ absurd h (by decide)

theorem isLoadFp_of_floatLoad (hdec : s.reg2.Decoded) (hr : s.reg2.ctl.memRead = true)
    (hf : s.reg2.ctl.fRegWrite = true) : s.reg2.isLoadFp = true := by
  rcases hdec.control with ⟨hctl, -, -⟩ | ⟨hctl, -⟩
  · simp [hctl] at hr
  · rw [hctl] at hr hf
    simp [Reg2.isLoadFp, Reg2.opcode, opcode_of_floatLoad ⟨hr, hf⟩]

/-! ## The muxes -/

theorem exmemFwdVal_eq (h : (s.reg3.isAmo || s.reg3.memtoReg) = false) (v : BitVec w) :
    exmemFwdVal s = answeredValue v s := by
  rw [Bool.or_eq_false_iff] at h
  simp [exmemFwdVal, answeredValue, h.1, h.2]

/-- The integer register `r` is not the destination of anything the file and the muxes of the
selected strategy cannot deliver. -/
def XClear (P : Params) (s : State w k) (r : BitVec 5) : Prop :=
  match P.hazardStrategy with
  | .forwarding => s.reg3.regWrite = true → (s.reg3.isAmo || s.reg3.memtoReg) = true →
      s.reg3.writeToReg ≠ r
  | .noForward => (s.reg3.regWrite = true → s.reg3.writeToReg ≠ 0 → s.reg3.writeToReg ≠ r) ∧
      (s.reg4.regWrite = true → s.reg4.writeToReg ≠ 0 → s.reg4.writeToReg ≠ r)

/-- The float register `r` is not the destination of a load in MEM. -/
def FClear (s : State w k) (r : BitVec 5) : Prop :=
  s.reg3.fRegWrite = true → (s.reg3.isAmo || s.reg3.memtoReg) = true → s.reg3.writeToReg ≠ r

theorem forwarded_eq_settled {r : BitVec 5} (h : XClear P s r) (v : BitVec w) :
    forwarded P s r (s.regs.get r) = (settledX v s).get r := by
  unfold forwarded settledX
  unfold XClear at h
  cases hP : P.hazardStrategy with
  | forwarding =>
    simp only [hP] at h ⊢
    apply forward_eq_get
    intro hen _ heq
    cases hm : s.reg3.isAmo || s.reg3.memtoReg with
    | false => exact exmemFwdVal_eq hm v
    | true => exact absurd heq (h hen hm)
  | noForward =>
    simp only [hP] at h ⊢
    rw [RegFile.get_write_of_ne h.1, RegFile.get_write_of_ne h.2]

theorem fforwarded_eq_settled {r : BitVec 5} (h : FClear s r) (v : BitVec w) :
    fforwarded s r (s.fregs r) = settledF v s r := by
  unfold fforwarded settledF
  apply fforward_eq
  intro hen heq
  cases hm : s.reg3.isAmo || s.reg3.memtoReg with
  | false => exact exmemFwdVal_eq hm v
  | true => exact absurd heq (h hen hm)

/-! ## Entering EX -/

/-- The hazard units' verdict on the instruction in ID, once it is in EX. -/
theorem xClear_of_enter (hdec : s.reg2.Decoded)
    (hmem : memHold P s = false) (hhaz : hazardStall P s false = false) {r : BitVec 5}
    (hr : r = rs1Of s.reg1.inst ∨ r = rs2Of s.reg1.inst) : XClear P (step P s i) r := by
  have h3 := step_reg3_of_move (i := i) hmem
  have h4 : (step P s i).reg4 = reg4Next P s := by simp [step, Reg4.step, hmem]
  unfold XClear
  unfold hazardStall at hhaz
  cases hP : P.hazardStrategy with
  | forwarding =>
    simp only [hP, hazard, Bool.and_eq_false_iff, Bool.or_eq_false_iff, beq_eq_false_iff_ne] at hhaz
    simp only [h3, reg3Next, Bool.and_eq_true]
    rintro ⟨hlive, -⟩ hm
    rw [← Bool.and_or_distrib_left, control_memtoReg _ hdec.ctl_mem, Bool.and_eq_true] at hm
    rw [if_pos hlive]
    rcases hhaz with hno | hne
    · simp [hno.1, hno.2] at hm
    · rcases hr with rfl | rfl
      · exact hne.1
      · exact hne.2
  | noForward =>
    simp only [hP, hazardNoForward, Bool.not_false, Bool.and_true, Bool.or_eq_false_iff,
      Bool.and_eq_false_iff, bne_eq_false_iff_eq, beq_eq_false_iff_ne] at hhaz
    obtain ⟨hex, hmemh⟩ := hhaz
    constructor
    · simp only [h3, reg3Next, Bool.and_eq_true]
      rintro ⟨hlive, hw⟩
      rw [if_pos hlive]
      intro hne
      rcases hex with (hno | hno) | hne'
      · rw [hw] at hno
        exact Bool.noConfusion hno
      · exact absurd hno hne
      · rcases hr with rfl | rfl
        · exact hne'.1
        · exact hne'.2
    · simp only [h4, reg4Next, Reg4.ofReg3]
      intro hw hne
      rcases hmemh with (hno | hno) | hne'
      · rw [hw] at hno
        exact Bool.noConfusion hno
      · exact absurd hno hne
      · rcases hr with rfl | rfl
        · exact hne'.1
        · exact hne'.2

theorem control_amo : ∀ c ∈ ({} :: controlValues : List Control), c.isAmo = true →
    c = { aluSrc := true, regWrite := true, isAmo := true } := by
  decide

/-- A float load in EX that becomes the load in MEM was one `r` did not wait for. -/
theorem fClear_of_enter (hdec : s.reg2.Decoded) (hmem : memHold P s = false) {r : BitVec 5}
    (hr : s.reg2.ctl.memRead = true → s.reg2.isLoadFp = true → s.reg2.writeToReg ≠ r) :
    FClear (step P s i) r := by
  unfold FClear
  rw [step_reg3_of_move hmem]
  simp only [reg3Next, Bool.and_eq_true]
  rintro ⟨hlive, hf⟩ hm
  rw [← Bool.and_or_distrib_left, control_memtoReg _ hdec.ctl_mem, Bool.and_eq_true,
    Bool.or_eq_true] at hm
  rw [if_pos hlive]
  rcases hm.2 with hm | hm
  · simp [control_amo _ hdec.ctl_mem hm] at hf
  exact hr hm (isLoadFp_of_floatLoad hdec hm hf)

theorem extract_funct5 (inst : BitVec 32) : (funct7Of inst).extractLsb' 2 5 = rs3Of inst := by
  apply BitVec.eq_of_getLsbD_eq
  intro j hj
  have h7 : 2 + j < 7 := by omega
  simp only [funct7Of, rs3Of, BitVec.getLsbD_extractLsb', hj, h7, decide_true, Bool.true_and]
  congr 1
  omega

theorem reg2Next_uses :
    (reg2Next s).rs1IsFloat = rs1IsFloatFd s ∧ (reg2Next s).isFma = isFmaFd s ∧
      ((reg2Next s).isOpFp || (reg2Next s).isStoreFp || (reg2Next s).isFma) = rs2IsFloatFd s := by
  refine ⟨?_, rfl, rfl⟩
  have h5 : (reg2Next s).funct5 = rs3Of s.reg1.inst := extract_funct5 s.reg1.inst
  simp only [Reg2.rs1IsFloat, rs1IsFloatFd, h5]
  rfl

/-- An instruction that no hazard unit keeps in ID enters EX with fresh operands. -/
theorem settled_of_enter (hdec : s.reg2.Decoded)
    (hmem : memHold P s = false) (hreg2 : (step P s i).reg2 = reg2Next s)
    (hhaz : hazardStall P s false = false) (hflu : floatLoadUseHazard s = false)
    (hfma : P.hazardStrategy = .noForward → isFmaFd s = true → s.reg2.isLoadFp = true →
      s.reg2.writeToReg ≠ rs1Of s.reg1.inst) (v : BitVec w) :
    (step P s i).reg2.mask (operands P (step P s i)) =
      (step P s i).reg2.mask (settledOperands v (step P s i)) := by
  have hx := fun r hr ↦
    forwarded_eq_settled (xClear_of_enter (i := i) (r := r) hdec hmem hhaz hr) v
  have hregs : (step P s i).regs =
      s.regs.write s.reg4.regWrite s.reg4.writeToReg (writeDataWb s) := rfl
  have hfregs : (step P s i).fregs =
      s.fregs.fwrite s.reg4.fRegWrite s.reg4.writeToReg (writeDataWb s) := rfl
  obtain ⟨hu1, hu3, hu2⟩ := reg2Next_uses (s := s)
  -- what the two load-use checks leave to a float load in EX
  have hload : s.reg2.ctl.memRead = true → P.hazardStrategy = .forwarding →
      s.reg2.writeToReg ≠ rs1Of s.reg1.inst ∧ s.reg2.writeToReg ≠ rs2Of s.reg1.inst := by
    intro hr hP
    simpa [hazardStall, hP, hazard, hr] using hhaz
  have hlf : s.reg2.isLoadFp = true →
      (rs1IsFloatFd s = true → s.reg2.writeToReg ≠ rs1Of s.reg1.inst) ∧
      (rs2IsFloatFd s = true → s.reg2.writeToReg ≠ rs2Of s.reg1.inst) ∧
      (isFmaFd s = true → s.reg2.writeToReg ≠ rs3Of s.reg1.inst) := by
    intro hl
    simpa [floatLoadUseHazard, hl, and_assoc] using hflu
  have hfa : (rs1IsFloatFd s || isFmaFd s) = true → FClear (step P s i) (rs1Of s.reg1.inst) := by
    intro huse
    apply fClear_of_enter hdec hmem
    intro hr hl
    cases hP : P.hazardStrategy with
    | forwarding => exact (hload hr hP).1
    | noForward =>
      rcases Bool.or_eq_true _ _ ▸ huse with h1 | h1
      · exact (hlf hl).1 h1
      · exact hfma hP h1 hl
  have hfb : rs2IsFloatFd s = true → FClear (step P s i) (rs2Of s.reg1.inst) :=
    fun huse ↦ fClear_of_enter hdec hmem fun _ hl ↦ (hlf hl).2.1 huse
  have hfc : isFmaFd s = true → FClear (step P s i) (rs3Of s.reg1.inst) :=
    fun huse ↦ fClear_of_enter hdec hmem fun _ hl ↦ (hlf hl).2.2 huse
  unfold Reg2.mask operands settledOperands readOperands
  rw [hreg2, hu1, hu2, hu3]
  have ha := hx _ (.inl rfl)
  have hb := hx _ (.inr rfl)
  rw [hregs, ← RegFile.read_eq_get] at ha hb
  congr 1
  · split_ifs with huse
    · have := fforwarded_eq_settled (hfa huse) v
      rwa [hfregs, ← RegFile.fread_eq] at this
    · rfl
  · split_ifs with huse
    · have := fforwarded_eq_settled (hfb huse) v
      rwa [hfregs, ← RegFile.fread_eq] at this
    · rfl
  · split_ifs with huse
    · have := fforwarded_eq_settled (hfc huse) v
      rwa [hfregs, ← RegFile.fread_eq] at this
    · rfl

end RvPipeline
