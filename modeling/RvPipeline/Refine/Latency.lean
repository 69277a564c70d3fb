import RvPipeline.Refine.Step

/-!
# The latency wrapper and the load before

A load that has been answered leaves its request on the bus for one more cycle, and the wrapper
starts again for it.  The next load is taken for that one if it has the same address, and is then
answered with a word of the width of the load before.
-/

namespace RvPipeline

variable {w k : ℕ} {P : Params} {s : State w k} {i : Inputs} {f : BitVec 3}

/-! ## What is asked of a load -/

/-- The load that enters MEM is told from what the wrapper is doing: taken for a new request, it
does not meet the end of an old one; taken for the load before it, it is as wide. -/
def LoadTold (P : Params) (s : State w k) (f : BitVec 3) : Prop :=
  if dmemNewRequest P s then s.dmem.model.done = false else s.reg3.funct3 = f

instance : Decidable (LoadTold P s f) := by
  unfold LoadTold
  infer_instance

/-- `funct3` of the load that is in MEM, or else of the last one that was. -/
def loadWidth (s : State w k) (f : BitVec 3) : BitVec 3 :=
  if s.reg3.memRead then s.reg3.funct3 else f

/-! ## The wrapper -/

/-- For a read it is at, the wrapper has the word, or gets it in this cycle, extended for the last
load. -/
def WrapperHolds (s : State w k) (f : BitVec 3) : Prop :=
  s.dmem.reqActive = true → s.dmem.reqWe = false →
    if s.dmem.capturedThisReq then
      s.dmem.capturedData = loadExtend f (s.ram.dataMemory.rawWord s.dmem.reqAddr)
    else s.ram.memReadPending = true ∧
      s.ram.readData = loadExtend f (s.ram.dataMemory.rawWord s.dmem.reqAddr)

/-- Nothing is stored while the wrapper stays at a read. -/
theorem not_write_of_old (hold : dmemNewRequest P s = false) (hwe : s.dmem.reqWe = false) :
    RamPort.memWrite (ramReq P s) = false := by
  by_contra hne
  have hw : RamPort.memWrite (ramReq P s) = true := Bool.eq_true_of_not_eq_false hne
  simp only [RamPort.memWrite, Bool.and_eq_true] at hw
  simp [dmemNewRequest, hw, hwe] at hold

/-- In a cycle in which nothing new is asked for, the wrapper keeps its word, or gets it. -/
theorem WrapperHolds.step_old (h : WrapperHolds s f) (hold : dmemNewRequest P s = false)
    (hwidth : loadWidth s f = f) : WrapperHolds (step P s i) (loadWidth s f) := by
  have hdm : (step P s i).dmem = dmemNext P s := rfl
  have hram : (step P s i).ram = s.ram.step P.memSizeBytes (ramReq P s) := rfl
  intro hact hwe
  rw [hdm, dmemNext] at hact hwe ⊢
  simp only [hold, Bool.false_eq_true, if_false, Bool.not_false, Bool.true_and] at hact hwe ⊢
  have hact' : s.dmem.reqActive = true := by
    split_ifs at hact
    exact hact
  have hmem : (step P s i).ram.dataMemory = s.ram.dataMemory := by
    simp [hram, RamPort.step, not_write_of_old hold hwe]
  have hword := h hact' hwe
  rw [hwidth, hmem]
  cases hcap : s.dmem.capturedThisReq with
  | true => simpa [hcap] using hword
  | false =>
    rw [hcap, if_neg Bool.false_ne_true] at hword
    simpa [ramAckRaw, RamPort.ack, hword.1] using hword.2

section Cycle

variable (hmode : P.cacheMode = .none) (hidle : WalkerIdle s) (hamo : s.reg3.isAmo = false)
  (hreach : Reachable P s) (hload : s.reg3.memRead = true → ramOnly P s.reg3.aluOut = true)

include hmode hidle hamo

theorem ramReq_plain : ramReq P s =
    { cyc := memOp s && wbHit 0 P.memSizeBytes s.reg3.aluOut
      stb := memOp s && wbHit 0 P.memSizeBytes s.reg3.aluOut
      we := s.reg3.memWrite, addr := s.reg3.aluOut
      data := s.reg3.readData2, funct3 := s.reg3.funct3 } := by
  simp [ramReq, ramHit, busReq_plain hmode hidle hamo, BusReq.select]

/-- A read the wrapper has just been asked for is the load's in MEM. -/
theorem wrapperHolds_of_new (hnew : dmemNewRequest P s = true) :
    WrapperHolds (step P s i) (loadWidth s f) := by
  have hreq := ramReq_plain hmode hidle hamo
  have hdm : (step P s i).dmem = dmemNext P s := rfl
  have hram : (step P s i).ram = s.ram.step P.memSizeBytes (ramReq P s) := rfl
  intro _ hwe
  rw [hdm, dmemNext] at hwe ⊢
  simp only [hnew, if_true, Bool.false_eq_true, if_false] at hwe ⊢
  rw [hreq] at hwe
  have hwe' : s.reg3.memWrite = false := hwe
  have hcyc : s.reg3.memRead = true ∧ wbHit 0 P.memSizeBytes s.reg3.aluOut = true := by
    simp only [dmemNewRequest, hreq, Bool.and_eq_true, memOp, hwe', Bool.or_false] at hnew
    exact hnew.1.1
  simp [hram, RamPort.step, RamPort.readData, RamPort.memWrite, RamPort.memReadReq, hreq, memOp,
    hcyc, hwe', loadWidth]

include hreach hload

/-- A load the wrapper has been asked for is answered with its own word. -/
theorem recognised_of_told (h : WrapperHolds s f) (hr : s.reg3.memRead = true)
    (htold : LoadTold P s f) : Recognised P s := by
  unfold LoadTold at htold
  unfold Recognised
  split_ifs at htold with hnew
  · rw [if_pos hnew]
    exact htold
  · have hold : dmemNewRequest P s = false := by simpa using hnew
    have hw := ((reg3_oneAccess hreach).read hr).1
    have hhit : wbHit 0 P.memSizeBytes s.reg3.aluOut = true := by
      have hram := hload hr
      simp only [ramOnly, Bool.and_eq_true] at hram
      exact hram.1.1
    have hat : s.dmem.reqActive = true ∧ s.reg3.aluOut = s.dmem.reqAddr ∧
        s.dmem.reqWe = false := by
      simp only [dmemNewRequest, ramReq_plain hmode hidle hamo, memOp, hr, hw, hhit,
        Bool.or_false, Bool.true_and, Bool.or_eq_false_iff, Bool.not_eq_false',
        bne_eq_false_iff_eq] at hold
      exact ⟨hold.1.1, hold.1.2, hold.2.symm⟩
    have hword := h hat.1 hat.2.2
    have hvalue : loadValue s = loadExtend f (s.ram.dataMemory.rawWord s.dmem.reqAddr) := by
      rw [loadValue, htold, hat.2.1]
    rw [if_neg hnew, hvalue]
    split_ifs at hword ⊢
    · exact hword
    · exact ⟨by simp [ramAckRaw, RamPort.ack, hword.1], hword.2⟩

end Cycle

/-! ## Whole runs -/

section Runs

variable (P) (s₀ : State w k) (ins : ℕ → Inputs)

/-- `funct3` of the last load that has been in MEM before cycle `n`. -/
def lastWidth : ℕ → BitVec 3
  | 0 => 0
  | n + 1 => loadWidth (run P s₀ ins n) (lastWidth n)

/-- Every load that enters MEM in the run is told from the requests before it. -/
def LoadsTold : Prop :=
  ∀ n, memHold P (run P s₀ ins n) = false → (run P s₀ ins (n + 1)).reg3.memRead = true →
    LoadTold P (run P s₀ ins (n + 1)) (lastWidth P s₀ ins (n + 1))

variable {P s₀ ins}

/-- A load that is not taken for a new request is as wide as the last one. -/
theorem loadWidth_of_told (htold : LoadsTold P s₀ ins) (n : ℕ)
    (hold : dmemNewRequest P (run P s₀ ins n) = false) :
    loadWidth (run P s₀ ins n) (lastWidth P s₀ ins n) = lastWidth P s₀ ins n := by
  unfold loadWidth
  split_ifs with hr
  · cases n with
    | zero => exact absurd (show false = true from hr) Bool.false_ne_true
    | succ n =>
      cases hmem : memHold P (run P s₀ ins n) with
      | true =>
        have hreg3 : (run P s₀ ins (n + 1)).reg3 = (run P s₀ ins n).reg3 :=
          step_reg3_of_memHold hmem
        rw [hreg3] at hr ⊢
        rw [lastWidth, loadWidth, if_pos hr]
      | false =>
        have h := htold n hmem hr
        rw [LoadTold, hold, if_neg Bool.false_ne_true] at h
        exact h
  · rfl

variable (hord : ∀ n, Ordinary P (run P s₀ ins n))

include hord

theorem reg3_isAmo_run (n : ℕ) : (run P s₀ ins n).reg3.isAmo = false := by
  induction n with
  | zero => rfl
  | succ n ih =>
    change (Reg3.step _ _ _).isAmo = false
    unfold Reg3.step
    split_ifs
    · exact ih
    · simp [reg3Next, (hord n).amo]

variable (hmode : P.cacheMode = .none) (htold : LoadsTold P s₀ ins)

include hmode htold

theorem wrapperHolds_run (n : ℕ) :
    WrapperHolds (run P s₀ ins n) (lastWidth P s₀ ins n) := by
  induction n with
  | zero => exact fun hact ↦ absurd (show false = true from hact) Bool.false_ne_true
  | succ n ih =>
    cases hnew : dmemNewRequest P (run P s₀ ins n) with
    | true =>
      exact wrapperHolds_of_new hmode (walkerIdle_run (fun m ↦ (hord m).bare) n)
        (reg3_isAmo_run hord n) hnew
    | false => exact ih.step_old hnew (loadWidth_of_told htold n hnew)

theorem loadRecognised_of_told (n : ℕ) : LoadRecognised P (run P s₀ ins n) (ins n) := by
  intro hmem hr
  exact recognised_of_told hmode (walkerIdle_run (fun m ↦ (hord m).bare) (n + 1))
    (reg3_isAmo_run hord (n + 1)) (run_reachable P s₀ ins (n + 1)) (hord (n + 1)).load
    (wrapperHolds_run hord hmode htold (n + 1)) hr (htold n hmem hr)

end Runs

end RvPipeline
