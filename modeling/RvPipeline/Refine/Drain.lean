import RvPipeline.Seq.Machine
import RvPipeline.Bus.Transaction

/-!
# Draining MEM and WB

The register files and the memory as they will be once the instructions in MEM and WB have
completed, and the forwarding muxes and hazard stalls in these terms: an instruction that
enters EX sees the drained registers.
-/

namespace RvPipeline

variable {w k : ℕ} {P : Params} {s : State w k} {i : Inputs}

/-! ## Drained state -/

/-- The value the instruction in MEM has for its destination, if the memory answers `v`. -/
def answeredValue (v : BitVec w) (s : State w k) : BitVec w :=
  if s.reg3.isAmo then v
  else if s.reg3.jump then s.reg3.pcPlus4
  else if s.reg3.memtoReg then v
  else s.reg3.aluOut

/-- The registers once MEM and WB have completed, if the memory answers `v` to MEM. -/
def settledX (v : BitVec w) (s : State w k) : RegFile w :=
  (s.regs.write s.reg4.regWrite s.reg4.writeToReg (writeDataWb s)).write s.reg3.regWrite
    s.reg3.writeToReg (answeredValue v s)

def settledF (v : BitVec w) (s : State w k) : RegFile w :=
  (s.fregs.fwrite s.reg4.fRegWrite s.reg4.writeToReg (writeDataWb s)).fwrite s.reg3.fRegWrite
    s.reg3.writeToReg (answeredValue v s)

/-- The operands of the instruction in EX in these registers. -/
def settledOperands (v : BitVec w) (s : State w k) : Operands w :=
  readOperands (settledX v s) (settledF v s) s.reg2.inst

/-- The value the instruction in MEM has for its destination, if it is no AMO. -/
def value3 (s : State w k) : BitVec w :=
  if s.reg3.jump then s.reg3.pcPlus4
  else if s.reg3.memtoReg then loadValue s
  else s.reg3.aluOut

def drainX (s : State w k) : RegFile w :=
  (s.regs.write s.reg4.regWrite s.reg4.writeToReg (writeDataWb s)).write s.reg3.regWrite
    s.reg3.writeToReg (value3 s)

def drainF (s : State w k) : RegFile w :=
  (s.fregs.fwrite s.reg4.fRegWrite s.reg4.writeToReg (writeDataWb s)).fwrite s.reg3.fRegWrite
    s.reg3.writeToReg (value3 s)

def drainM (P : Params) (s : State w k) : Ram w :=
  if s.reg3.memWrite then
    storeTo P s.ram.dataMemory s.reg3.aluOut s.reg3.readData2 s.reg3.funct3
  else s.ram.dataMemory

/-- The operands of the instruction in EX once MEM and WB have drained. -/
def drainOperands (s : State w k) : Operands w :=
  readOperands (drainX s) (drainF s) s.reg2.inst

theorem drainOperands_eq (hamo : s.reg3.isAmo = false) :
    drainOperands s = settledOperands (loadValue s) s := by
  have hvalue : answeredValue (loadValue s) s = value3 s := by simp [answeredValue, value3, hamo]
  simp only [drainOperands, settledOperands, drainX, drainF, settledX, settledF, hvalue]

/-! ## The operands an instruction uses -/

/-- The integer operands, and those float operands the instruction reads. -/
def Reg2.mask (r : Reg2 w) (o : Operands w) : Operands w :=
  { a := o.a
    b := o.b
    fa := if r.rs1IsFloat || r.isFma then o.fa else 0
    fb := if r.isOpFp || r.isStoreFp || r.isFma then o.fb else 0
    fc := if r.isFma then o.fc else 0 }

/-- EX sees the drained values of the operands it uses. -/
def Fresh (P : Params) (s : State w k) : Prop :=
  s.reg2.mask (operands P s) = s.reg2.mask (drainOperands s)

theorem Reg2.storeData_mask (r : Reg2 w) (o : Operands w) :
    r.storeData (r.mask o) = r.storeData o := by
  unfold Reg2.storeData
  split_ifs with h
  · simp [Reg2.mask, h]
  · rfl

theorem Reg2.fpuOperandA_mask (r : Reg2 w) (o : Operands w) :
    r.fpuOperandA (r.mask o) = r.fpuOperandA o := by
  unfold Reg2.fpuOperandA
  split_ifs with h
  · simp [Reg2.mask, h]
  · rfl

theorem Reg2.fb_mask {r : Reg2 w} (o : Operands w) (h : (r.isOpFp || r.isFma) = true) :
    (r.mask o).fb = o.fb := by
  have huse : (r.isOpFp || r.isStoreFp || r.isFma) = true := by
    rcases Bool.or_eq_true _ _ ▸ h with h | h <;> simp [h]
  simp [Reg2.mask, huse]

theorem Reg2.fpResult_mask {r : Reg2 w} (o : Operands w) (frm : BitVec 3) (d q : Fp.Result)
    (h : (r.isOpFp || r.isFma) = true) :
    r.fpResult (r.mask o) frm d q = r.fpResult o frm d q := by
  have hb := Reg2.fb_mask o h
  unfold Reg2.fpResult
  split_ifs with hfma
  · have hc : (r.mask o).fc = o.fc := by simp [Reg2.mask, hfma]
    have ha : (r.mask o).fa = o.fa := by simp [Reg2.mask, hfma]
    simp only [Reg2.fmaddResult, ha, hb, hc]
  · rfl
  · rfl
  · simp only [Reg2.faluResult, Reg2.fpuOperandA_mask, hb]

theorem Reg2.fpValue_mask {r : Reg2 w} (o : Operands w) (frm : BitVec 3)
    (h : (r.isOpFp || r.isFma) = true) : r.fpValue (r.mask o) frm = r.fpValue o frm := by
  simp only [Reg2.fpValue, Reg2.fpResult_mask o _ _ _ h, Reg2.fpuOperandA_mask, Reg2.fb_mask o h]

/-! ## Register files -/

namespace RegFile

theorem read_eq_get (f : RegFile w) (en : Bool) (rd r : BitVec 5) (v : BitVec w) :
    f.read en rd v r = (f.write en rd v).get r := by
  unfold RegFile.read RegFile.get RegFile.write
  by_cases hr : r = 0#5
  · simp [hr]
  · cases en with
    | false => simp
    | true =>
      by_cases hd : rd = r
      · subst hd
        simp [hr]
      · simp [hd, Ne.symm hd]

theorem fread_eq (f : RegFile w) (en : Bool) (rd r : BitVec 5) (v : BitVec w) :
    f.fread en rd v r = f.fwrite en rd v r := by
  unfold RegFile.fread RegFile.fwrite
  by_cases hd : rd = r
  · simp [hd]
  · simp [hd, Ne.symm hd]

theorem write_write_self (f : RegFile w) (en : Bool) (rd : BitVec 5) (v : BitVec w) :
    (f.write en rd v).write en rd v = f.write en rd v := by
  funext r
  unfold RegFile.write
  split_ifs <;> rfl

theorem fwrite_fwrite_self (f : RegFile w) (en : Bool) (rd : BitVec 5) (v : BitVec w) :
    (f.fwrite en rd v).fwrite en rd v = f.fwrite en rd v := by
  funext r
  unfold RegFile.fwrite
  split_ifs <;> rfl

theorem get_write_of_ne {f : RegFile w} {en : Bool} {rd r : BitVec 5} {v : BitVec w}
    (h : en = true → rd ≠ 0 → rd ≠ r) : (f.write en rd v).get r = f.get r := by
  unfold RegFile.get RegFile.write
  by_cases hr : r = 0
  · simp [hr]
  · cases en with
    | false => simp
    | true =>
      by_cases hd : r = rd
      · subst hd
        exact absurd rfl (h rfl hr)
      · simp [hd]

theorem get_write_self {f : RegFile w} {r : BitVec 5} {v : BitVec w} (hr : r ≠ 0) :
    (f.write true r v).get r = v := by
  have hr' : r ≠ 0#5 := hr
  simp [RegFile.get, RegFile.write, hr']

end RegFile

/-- The forwarding mux over the file WB has written delivers the drained value, if the value
MEM forwards is the one it will write. -/
theorem forward_eq_get {f : RegFile w} {en3 en4 : Bool} {rd3 rd4 r : BitVec 5}
    {fv3 v3 v4 : BitVec w} (h : en3 = true → rd3 ≠ 0 → rd3 = r → fv3 = v3) :
    forward r en3 rd3 fv3 en4 rd4 v4 (f.get r) =
      ((f.write en4 rd4 v4).write en3 rd3 v3).get r := by
  unfold forward
  split_ifs with h3 h4
  · simp only [Bool.and_eq_true, bne_iff_ne, ne_eq, beq_iff_eq] at h3
    obtain ⟨⟨hen, hne⟩, rfl⟩ := h3
    subst hen
    rw [RegFile.get_write_self hne, h rfl hne rfl]
  · simp only [Bool.and_eq_true, bne_iff_ne, ne_eq, beq_iff_eq] at h3 h4
    obtain ⟨⟨hen, hne⟩, rfl⟩ := h4
    subst hen
    rw [RegFile.get_write_of_ne, RegFile.get_write_self hne]
    intro hen3 hne3 heq
    exact h3 ⟨⟨hen3, hne3⟩, heq⟩
  · simp only [Bool.and_eq_true, bne_iff_ne, ne_eq, beq_iff_eq] at h3 h4
    rw [RegFile.get_write_of_ne, RegFile.get_write_of_ne]
    · intro hen4 hne4 heq
      exact h4 ⟨⟨hen4, hne4⟩, heq⟩
    · intro hen3 hne3 heq
      exact h3 ⟨⟨hen3, hne3⟩, heq⟩

theorem fforward_eq {f : RegFile w} {en3 en4 : Bool} {rd3 rd4 r : BitVec 5}
    {fv3 v3 v4 : BitVec w} (h : en3 = true → rd3 = r → fv3 = v3) :
    fforward r en3 rd3 fv3 en4 rd4 v4 (f r) =
      (f.fwrite en4 rd4 v4).fwrite en3 rd3 v3 r := by
  unfold fforward RegFile.fwrite
  by_cases h3 : en3 = true ∧ rd3 = r
  · obtain ⟨hen, hrd⟩ := h3
    subst hrd
    simp [hen, h hen rfl]
  · have h3' : (en3 && rd3 == r) = false ∧ (en3 && r == rd3) = false := by
      cases en3 with
      | false => simp
      | true =>
        have hne : ¬rd3 = r := fun heq ↦ h3 ⟨rfl, heq⟩
        simp [hne, Ne.symm hne]
    simp only [h3'.1, h3'.2, Bool.false_eq_true, if_false]
    by_cases h4 : rd4 = r
    · simp [h4]
    · simp [h4, Ne.symm h4]

/-! ## The EX/MEM register -/

/-- A load, and nothing else, takes its value from memory. -/
theorem control_memtoReg : ∀ c ∈ ({} :: controlValues : List Control), c.memtoReg = c.memRead := by
  decide

theorem reg3_memtoReg (h : Reachable P s) : s.reg3.memtoReg = s.reg3.memRead := by
  suffices hboth : s.reg2.Decoded ∧ s.reg3.memtoReg = s.reg3.memRead from hboth.2
  refine h.invariant (fun s ↦ s.reg2.Decoded ∧ s.reg3.memtoReg = s.reg3.memRead) ?_ ?_
  · rintro _ ⟨s₀, rfl⟩
    exact ⟨Reg2.decoded_reset, rfl⟩
  · rintro s i ⟨hdec, hreg3⟩
    refine ⟨hdec.step reg2Next_decoded _ _ _, ?_⟩
    change (s.reg3.step (memHold P s) (reg3Next P s i)).memtoReg = (s.reg3.step _ _).memRead
    unfold Reg3.step
    split_ifs
    · exact hreg3
    · simp [reg3Next, control_memtoReg _ hdec.ctl_mem]

/-! ## One cycle of MEM and WB -/

/-- Without a cache, a walk or an AMO the bus carries the access in MEM. -/
theorem busReq_plain (hmode : P.cacheMode = .none) (hidle : WalkerIdle s)
    (hamo : s.reg3.isAmo = false) :
    busReq P s = { cyc := memOp s, stb := memOp s, we := s.reg3.memWrite, addr := s.reg3.aluOut
                   data := s.reg3.readData2, funct3 := s.reg3.funct3 } := by
  simp [busReq, hmode, hidle.busy, lsuReq, lsuCyc, effMemRead, effMemWrite, amoActive, hamo, memOp]

/-- The store in MEM, if there is one, is performed in every cycle it is there. -/
theorem step_dataMemory (hmode : P.cacheMode = .none) (hidle : WalkerIdle s)
    (hamo : s.reg3.isAmo = false) : (step P s i).ram.dataMemory = drainM P s := by
  have hbus := busReq_plain hmode hidle hamo
  have hhit : ramHit P s = wbHit 0 P.memSizeBytes s.reg3.aluOut := by simp [ramHit, hbus]
  change (if RamPort.memWrite (ramReq P s) then _ else _) = _
  unfold drainM storeTo RamPort.memWrite ramReq BusReq.select
  rw [hhit, hbus]
  cases hw : s.reg3.memWrite with
  | false => simp
  | true =>
    cases hh : wbHit 0 P.memSizeBytes s.reg3.aluOut <;> simp [memOp, hw]

theorem Ram.write_write_self (m : Ram w) (size : ℕ) (addr data : BitVec w) (funct3 : BitVec 3) :
    (m.write size addr data funct3).write size addr data funct3 = m.write size addr data funct3 := by
  funext a
  unfold Ram.write
  dsimp only
  split_ifs <;> rfl

theorem storeTo_storeTo_self (m : Ram w) (addr data : BitVec w) (funct3 : BitVec 3) :
    storeTo P (storeTo P m addr data funct3) addr data funct3 = storeTo P m addr data funct3 := by
  unfold storeTo
  split_ifs
  · exact Ram.write_write_self _ _ _ _ _
  · rfl

section Held

variable (hmode : P.cacheMode = .none) (hidle : WalkerIdle s) (hacc : s.reg3.OneAccess)
  (hamo : s.reg3.isAmo = false ∧ s.reg4.isAmo = false) (hmem : memHold P s = true)
include hmem

theorem step_reg4_of_memHold : (step P s i).reg4 = s.reg4 := by simp [step, Reg4.step, hmem]

include hamo

theorem writeDataWb_of_memHold : writeDataWb (step P s i) = writeDataWb s := by
  simp [writeDataWb, step_reg4_of_memHold hmem, hamo.2]

include hmode hidle

theorem drainM_of_memHold : drainM P (step P s i) = drainM P s := by
  have hdm := step_dataMemory (i := i) hmode hidle hamo.1
  unfold drainM at hdm ⊢
  rw [step_reg3_of_memHold hmem, hdm]
  split_ifs
  · exact storeTo_storeTo_self _ _ _ _
  · rfl

include hacc

/-- A load's value does not change while it waits. -/
theorem value3_of_memHold (hreg3 : s.reg3.memtoReg = s.reg3.memRead) :
    value3 (step P s i) = value3 s := by
  have h3 := step_reg3_of_memHold (i := i) hmem
  unfold value3
  rw [h3, hreg3]
  cases hr : s.reg3.memRead with
  | false => simp
  | true =>
    have hdm := step_dataMemory (i := i) hmode hidle hamo.1
    simp only [drainM, (hacc.read hr).1, Bool.false_eq_true, if_false] at hdm
    simp [loadValue, h3, hdm]

theorem drainX_of_memHold (hreg3 : s.reg3.memtoReg = s.reg3.memRead) :
    drainX (step P s i) = drainX s := by
  unfold drainX
  rw [value3_of_memHold hmode hidle hacc hamo hmem hreg3, writeDataWb_of_memHold hamo hmem,
    step_reg3_of_memHold hmem, step_reg4_of_memHold hmem]
  change ((s.regs.write _ _ _).write _ _ _).write _ _ _ = _
  rw [RegFile.write_write_self]

theorem drainF_of_memHold (hreg3 : s.reg3.memtoReg = s.reg3.memRead) :
    drainF (step P s i) = drainF s := by
  unfold drainF
  rw [value3_of_memHold hmode hidle hacc hamo hmem hreg3, writeDataWb_of_memHold hamo hmem,
    step_reg3_of_memHold hmem, step_reg4_of_memHold hmem]
  change ((s.fregs.fwrite _ _ _).fwrite _ _ _).fwrite _ _ _ = _
  rw [RegFile.fwrite_fwrite_self]

end Held

section Moves

variable (hmode : P.cacheMode = .none) (hidle : WalkerIdle s)
  (hamo : s.reg3.isAmo = false ∧ s.reg4.isAmo = false) (hmem : memHold P s = false)

theorem step_reg3_of_move (hmem : memHold P s = false) :
    (step P s i).reg3 = reg3Next P s i := by
  simp [step, Reg3.step, hmem]

include hmode hmem

theorem step_reg4_of_move : (step P s i).reg4 = .ofReg3 s.reg3 (readData P s) := by
  simp [step, Reg4.step, hmem, reg4Next, hmode]

include hamo

/-- What moves to WB carries the value it had in MEM, if a load has been answered. -/
theorem writeDataWb_of_move (hload : s.reg3.memtoReg = true → readData P s = loadValue s) :
    writeDataWb (step P s i) = value3 s := by
  unfold writeDataWb value3
  rw [step_reg4_of_move hmode hmem]
  simp only [Reg4.ofReg3, hamo.1, Bool.false_eq_true, if_false]
  split_ifs with hj hm
  · rfl
  · exact hload hm
  · rfl

theorem drainX_of_move (hload : s.reg3.memtoReg = true → readData P s = loadValue s) :
    drainX (step P s i) = (drainX s).write (step P s i).reg3.regWrite
      (step P s i).reg3.writeToReg (value3 (step P s i)) := by
  conv_lhs => unfold drainX
  rw [writeDataWb_of_move hmode hamo hmem hload, step_reg4_of_move hmode hmem]
  rfl

theorem drainF_of_move (hload : s.reg3.memtoReg = true → readData P s = loadValue s) :
    drainF (step P s i) = (drainF s).fwrite (step P s i).reg3.fRegWrite
      (step P s i).reg3.writeToReg (value3 (step P s i)) := by
  conv_lhs => unfold drainF
  rw [writeDataWb_of_move hmode hamo hmem hload, step_reg4_of_move hmode hmem]
  rfl

end Moves

end RvPipeline
