import RvPipeline.Core.Bare

/-!
# Bus transactions of loads and stores

Without a cache the walker and the load/store unit share one bus, one data wire and one
acknowledge, switched by `ptw_busy`.  A load or store that is in MEM while the walker is
busy takes the walker's acknowledge for its own.
-/

namespace RvPipeline

variable {w k : ℕ} {P : Params} {s : State w k} {i : Inputs}

/-! ## What a transaction is -/

/-- The address selects the RAM and nothing else. -/
def ramOnly (P : Params) (a : BitVec w) : Bool :=
  wbHit 0 P.memSizeBytes a && !wbHit uartBase uartSize a && !wbHit timerBase timerSize a

/-- A load or store is in MEM. -/
def memOp (s : State w k) : Bool := s.reg3.memRead || s.reg3.memWrite

/-- The value the load in MEM should return. -/
def loadValue (s : State w k) : BitVec w :=
  loadExtend s.reg3.funct3 (s.ram.dataMemory.rawWord s.reg3.aluOut)

/-- The request the load or store in MEM should put on the bus. -/
def ownRequest (s : State w k) : BusReq w :=
  { cyc := true, stb := true, we := s.reg3.memWrite, addr := s.reg3.aluOut
    data := s.reg3.readData2, funct3 := s.reg3.funct3 }

/-- The instruction that leaves MEM in cycle `n` has been there since cycle `m`. -/
def Occupies (P : Params) (σ : ℕ → State w k) (m n : ℕ) : Prop :=
  ∀ j, m ≤ j → j < n → memHold P (σ j) = true ∧ (σ j).reg3 = (σ n).reg3

/-- Every RAM access that leaves MEM has driven its own request and seen it acknowledged, and
neither master consumes an acknowledge of the other. -/
structure OwnTransactions (P : Params) (σ : ℕ → State w k) : Prop where
  store : ∀ n, (σ n).reg3.memWrite = true → ramOnly P (σ n).reg3.aluOut = true →
    memHold P (σ n) = false →
      ∃ m ≤ n, Occupies P σ m n ∧ busReq P (σ m) = ownRequest (σ n) ∧ lsuAck P (σ m) = true
  load : ∀ n, (σ n).reg3.memRead = true → ramOnly P (σ n).reg3.aluOut = true →
    memHold P (σ n) = false →
      ∃ m < n, Occupies P σ m n ∧ busReq P (σ m) = ownRequest (σ n) ∧
        lsuAck P (σ (m + 1)) = true ∧ readData P (σ n) = loadValue (σ n)
  /-- the reply to a read the walker drove finds no load or store in MEM -/
  walkAck : ∀ n, (σ n).ptw.busy = true → (σ (n + 1)).ram.memReadPending = true →
    memOp (σ (n + 1)) = false
  /-- the reply to a read the load/store unit drove finds the walker not waiting -/
  lsuAck : ∀ n, (σ n).ptw.busy = false → lsuCyc (σ n) = true →
    (σ (n + 1)).ram.memReadPending = true → (σ (n + 1)).ptw.mCyc = false

/-- No load or store is in MEM while the walker is busy. -/
def WalkExclusive (s : State w k) : Prop := s.ptw.busy = true → memOp s = false

/-! ## The bus while the walker is idle -/

theorem step_reg3_of_memHold (h : memHold P s = true) : (step P s i).reg3 = s.reg3 := by
  simp [step, Reg3.step, h]

theorem busReq_of_not_busy (hmode : P.cacheMode = .none) (hbusy : s.ptw.busy = false) :
    busReq P s = lsuReq s := by
  simp [busReq, hmode, hbusy]

theorem lsuReq_of_memOp (hacc : s.reg3.OneAccess) (hop : memOp s = true) :
    lsuReq s = ownRequest s := by
  have hamo : s.reg3.isAmo = false := by
    simp only [memOp, Bool.or_eq_true] at hop
    rcases hop with h | h
    · exact (hacc.read h).2
    · exact (hacc.write h).2
  simp only [memOp] at hop
  simp [lsuReq, ownRequest, lsuCyc, effMemRead, effMemWrite, amoActive, hamo, hop]

theorem busReq_of_memOp (hmode : P.cacheMode = .none) (hacc : s.reg3.OneAccess)
    (hex : WalkExclusive s) (hop : memOp s = true) : busReq P s = ownRequest s := by
  have hbusy : s.ptw.busy = false := by
    by_contra hne
    rw [hex (by simpa using hne)] at hop
    exact Bool.noConfusion hop
  rw [busReq_of_not_busy hmode hbusy, lsuReq_of_memOp hacc hop]

/-- On a RAM-only address the acknowledge is the RAM's. -/
theorem lsuAck_of_ramOnly (hlat : P.memLatencyD = 0) (hram : ramOnly P (busReq P s).addr = true) :
    lsuAck P s = s.ram.ack (busReq P s) := by
  simp only [ramOnly, Bool.and_eq_true, Bool.not_eq_true'] at hram
  simp [lsuAck, wbSelect, ramHit, uartHit, timerHit, hram, ramAck, hlat, ramAckRaw, ramReq,
    BusReq.select, RamPort.ack, RamPort.memWrite]

theorem readData_of_ramOnly (hlat : P.memLatencyD = 0)
    (hram : ramOnly P (busReq P s).addr = true) : readData P s = s.ram.readData := by
  simp only [ramOnly, Bool.and_eq_true, Bool.not_eq_true'] at hram
  simp [readData, wbSelect, ramHit, uartHit, timerHit, hram, ramData, hlat]

/-- A load to RAM on the bus leaves its word in the read register and the array alone. -/
theorem step_ram_of_read (hreq : busReq P s = ownRequest s) (hw : s.reg3.memWrite = false)
    (hram : ramOnly P s.reg3.aluOut = true) :
    (step P s i).ram =
      { dataMemory := s.ram.dataMemory
        rawWord := s.ram.dataMemory.rawWord s.reg3.aluOut
        funct3 := s.reg3.funct3
        memRead := true
        memReadPending := true } := by
  simp only [ramOnly, Bool.and_eq_true, Bool.not_eq_true'] at hram
  simp [step, RamPort.step, ramReq, ramHit, hreq, ownRequest, BusReq.select, RamPort.memWrite,
    RamPort.memReadReq, hw, hram]

/-! ## The two masters -/

/-- A load leaves MEM one cycle after a cycle in which it was stalled and acknowledged. -/
theorem memStallDone_of_load_leaves (hmode : P.cacheMode = .none) (hr : s.reg3.memRead = true)
    (hhold : memHold P s = false) : s.memStallDone = true := by
  simp only [memHold, Bool.or_eq_false_iff] at hhold
  simpa [memStall, memTrigger, hmode, hr] using hhold.1

/-- `mem_stall_done_r` is set by a stalled load only, which it keeps in MEM. -/
theorem load_of_step_memStallDone (hmode : P.cacheMode = .none)
    (hdone : (step P s i).memStallDone = true) :
    s.reg3.memRead = true ∧ memHold P s = true ∧ (step P s i).reg3 = s.reg3 := by
  have hstall : memStall P s = true ∧ memAccessReady P s = true := by
    simpa [step] using hdone
  have hhold : memHold P s = true := by simp [memHold, hstall.1]
  refine ⟨?_, hhold, by simp [step, Reg3.step, hhold]⟩
  have htrig := hstall.1
  simp only [memStall, memTrigger, hmode, Bool.and_eq_true, Bool.or_eq_true] at htrig
  have hack : lsuAck P s = true := by simpa [memAccessReady, hmode] using hstall.2
  rcases htrig.1 with hr | ⟨-, hno⟩
  · exact hr
  · simp [hack] at hno

/-- When the walker gives up the bus it was decoding, with no read outstanding. -/
theorem memReadPending_of_walk_end (hmode : P.cacheMode = .none)
    (hbusy : s.ptw.busy = true) (hend : (step P s i).ptw.busy = false) :
    (step P s i).ram.memReadPending = false := by
  have hcyc : s.ptw.mCyc = false := by
    cases hstate : s.ptw.state with
    | idle => simp [Ptw.mCyc, hstate]
    | wait level =>
      exfalso
      have hstays : (step P s i).ptw.busy = true := by
        change (ptwNext P s i).busy = true
        unfold ptwNext Ptw.step
        rw [hstate]
        dsimp only
        split_ifs <;> exact hbusy
      rw [hstays] at hend
      exact Bool.noConfusion hend
    | decode level => simp [Ptw.mCyc, hstate]
  simp [step, RamPort.step, RamPort.memReadReq, ramReq, BusReq.select, busReq, hmode, hbusy,
    ptwReq, hcyc]

/-- The walker does not start over a load/store request. -/
theorem mCyc_of_lsuCyc (hsane : s.ptw.Sane) (hbusy : s.ptw.busy = false)
    (hcyc : lsuCyc s = true) : (step P s i).ptw.mCyc = false := by
  have hstart : ptwStart P s i = false := by simp [ptwStart, hcyc]
  have hidle : s.ptw.state = .idle := by
    have := hsane.busy_iff
    rw [hbusy] at this
    simpa using this
  change (ptwNext P s i).mCyc = false
  simp [ptwNext, Ptw.step, hidle, hstart, Ptw.mCyc]

end RvPipeline
