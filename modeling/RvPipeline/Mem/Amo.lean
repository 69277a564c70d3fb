import RvPipeline.Bus.Transaction
import RvPipeline.Lib.Trace

/-!
# Atomic memory operations

An AMO reads in one phase, writes in the next and takes the captured word along to WB.  The phase
flags are cleared only while no AMO is in MEM, and the reply that ends the read phase is whatever
acknowledge the bus shows.  So an AMO right behind another one, behind a load, or next to a page
walk does not run its own phases; every other one does, exactly once.
-/

namespace RvPipeline

variable {w k : ℕ} {P : Params} {s : State w k} {i : Inputs}

/-! ## Phases -/

/-- The bus acknowledges a read of the load/store unit. -/
def readAck (P : Params) (s : State w k) : Bool := !s.ptw.busy && effMemRead s && lsuAck P s

/-- The bus acknowledges a write of the load/store unit. -/
def writeAck (P : Params) (s : State w k) : Bool := !s.ptw.busy && effMemWrite s && lsuAck P s

/-- An AMO that moves to MEM at the end of cycle `a` and leaves it at the end of cycle `b`. -/
structure AmoStay (P : Params) (σ : ℕ → State w k) (a b : ℕ) : Prop where
  enter : memHold P (σ a) = false
  lt : a < b
  held : ∀ j, a < j → j < b → memHold P (σ j) = true
  leave : memHold P (σ b) = false
  amo : (σ b).reg3.isAmo = true

/-- The bus carries the read of the AMO in MEM. -/
structure AmoReads (P : Params) (s : State w k) : Prop where
  cyc : (busReq P s).cyc = true
  stb : (busReq P s).stb = true
  we : (busReq P s).we = false
  addr : (busReq P s).addr = s.reg3.aluOut
  funct3 : (busReq P s).funct3 = s.reg3.funct3

/-- The request that writes `v` to the address of the AMO in MEM. -/
def amoWriteReq (s : State w k) (v : BitVec w) : BusReq w :=
  { cyc := true, stb := true, we := true, addr := s.reg3.aluOut, data := v, funct3 := s.reg3.funct3 }

/-- The AMO reads its address once, then writes the combined value there once unless it is `lr`;
the RAM has changed by that write only, and what it brings to WB is the word of its own read. -/
def AmoOnce (P : Params) (σ : ℕ → State w k) (a b : ℕ) : Prop :=
  ∃ r, (a < r ∧ r < b ∧ readAck P (σ r) = true ∧ AmoReads P (σ r) ∧
      ∀ j, a < j → j ≤ b → readAck P (σ j) = true → j = r) ∧
    (ramOnly P (σ b).reg3.aluOut = true → readData P (σ r) =
      loadExtend (σ b).reg3.funct3 ((σ r).ram.dataMemory.rawWord (σ b).reg3.aluOut)) ∧
    (if amoIsLr (σ b) then ∀ j, a < j → j ≤ b → (busReq P (σ j)).we = false
      else ∃ x, r < x ∧ x < b ∧ writeAck P (σ x) = true ∧
        busReq P (σ x) = amoWriteReq (σ b)
          (amoCombined (amoFunct5 (σ b)) (readData P (σ r)) (σ b).reg3.readData2) ∧
        ∀ j, a < j → j ≤ b → writeAck P (σ j) = true → j = x) ∧
    (ramOnly P (σ b).reg3.aluOut = true → (σ (b + 1)).ram.dataMemory =
      if amoIsLr (σ b) then (σ (a + 1)).ram.dataMemory
      else (σ (a + 1)).ram.dataMemory.write P.memSizeBytes (σ b).reg3.aluOut
        (amoCombined (amoFunct5 (σ b)) (readData P (σ r)) (σ b).reg3.readData2)
        (σ b).reg3.funct3) ∧
    ∀ n, b < n → (∀ j, b < j → j < n → memHold P (σ j) = true) →
      writeDataWb (σ n) = readData P (σ r)

/-- Nothing that was asked of the RAM is still to be answered. -/
def RamQuiet (P : Params) (s : State w k) : Prop :=
  if P.memLatencyD = 0 then s.ram.memReadPending = false
  else s.dmem.reqActive = false ∧ s.dmem.model.busy = false ∧ s.dmem.model.done = false

/-- An AMO moves to MEM behind no other AMO and with the RAM quiet, and it has the bus to itself
there. -/
@[mk_iff]
structure AmoAlone (P : Params) (s : State w k) (i : Inputs) : Prop where
  behind : memHold P s = false → (step P s i).reg3.isAmo = true →
    s.reg3.isAmo = false ∧ RamQuiet P (step P s i)
  bus : s.reg3.isAmo = true → s.ptw.busy = false

instance : Decidable (RamQuiet P s) := inferInstanceAs (Decidable (ite _ _ _))

instance : Decidable (AmoAlone P s i) := decidable_of_iff _ (amoAlone_iff P s i).symm

/-! ## One cycle of an AMO in MEM -/

theorem memHold_of_amo (hmode : P.cacheMode = .none) (hacc : s.reg3.OneAccess)
    (hamo : s.reg3.isAmo = true) : memHold P s = !s.amo.writeDone := by
  have hr : s.reg3.memRead = false := by
    by_contra hr
    exact absurd ((hacc.read (by simpa using hr)).2.symm.trans hamo) Bool.false_ne_true
  have hw : s.reg3.memWrite = false := by
    by_contra hw
    exact absurd ((hacc.write (by simpa using hw)).2.symm.trans hamo) Bool.false_ne_true
  simp [memHold, memStall, memTrigger, hmode, hr, hw, amoStall, amoActive, hamo]

theorem step_amo_of_not_active (hamo : s.reg3.isAmo = false) :
    (step P s i).amo = { s.amo with writePhase := false, writeDone := false } := by
  change amoNext P s = _
  simp [amoNext, amoActive, hamo]

theorem step_amo_reading (hamo : s.reg3.isAmo = true) (hphase : s.amo.writePhase = false) :
    (step P s i).amo =
      if lsuAck P s then
        if amoIsLr s then { s.amo with capturedRead := readData P s, writeDone := true }
        else { s.amo with capturedRead := readData P s, writePhase := true }
      else s.amo := by
  change amoNext P s = _
  simp [amoNext, amoActive, hamo, hphase]

theorem step_amo_writing (hamo : s.reg3.isAmo = true) (hphase : s.amo.writePhase = true) :
    (step P s i).amo = if lsuAck P s then { s.amo with writeDone := true } else s.amo := by
  change amoNext P s = _
  simp [amoNext, amoActive, hamo, hphase]

/-! ## The word read -/

/-- The RAM answers the read phase with the word at the address of the AMO: at once or, with an
added latency, from the register the word was captured in. -/
def ReplyInv (P : Params) (s : State w k) : Prop :=
  if P.memLatencyD = 0 then s.ram.memReadPending = true → s.ram.readData = loadValue s
  else
    (s.dmem.reqActive = false ∧ s.dmem.model.busy = false ∧ s.dmem.model.done = false) ∨
    ((s.dmem.reqActive = true ∧ s.dmem.reqAddr = s.reg3.aluOut ∧ s.dmem.reqWe = false) ∧
      ((s.dmem.capturedThisReq = false ∧ s.dmem.model.done = false ∧
          s.ram.memReadPending = true ∧ s.ram.readData = loadValue s) ∨
        s.dmem.capturedThisReq = true ∧ s.dmem.capturedData = loadValue s))

/-- The AMO is in its read phase, at a RAM address and with the bus. -/
structure Reading (P : Params) (s : State w k) : Prop where
  mode : P.cacheMode = .none
  amo : s.reg3.isAmo = true
  writePhase : s.amo.writePhase = false
  writeDone : s.amo.writeDone = false
  bus : s.ptw.busy = false
  ram : ramOnly P s.reg3.aluOut = true

namespace Reading

variable (h : Reading P s)

include h

theorem busReq_eq : busReq P s = lsuReq s := busReq_of_not_busy h.mode h.bus

theorem lsuReq_fields : (lsuReq s).cyc = true ∧ (lsuReq s).stb = true ∧ (lsuReq s).we = false ∧
    (lsuReq s).addr = s.reg3.aluOut ∧ (lsuReq s).funct3 = s.reg3.funct3 := by
  simp [lsuReq, lsuCyc, effMemRead, effMemWrite, amoActive, h.amo, h.writePhase, h.writeDone]

theorem ramReq_eq : ramReq P s = lsuReq s := by
  have hhit := h.ram
  simp only [ramOnly, Bool.and_eq_true] at hhit
  obtain ⟨-, -, -, haddr, -⟩ := h.lsuReq_fields
  have hram : ramHit P s = true := by
    rw [ramHit, h.busReq_eq, haddr]
    exact hhit.1.1
  simp [ramReq, h.busReq_eq, hram, BusReq.select]

/-- The RAM after a cycle of the read phase. -/
theorem step_ram :
    (step P s i).ram.dataMemory = s.ram.dataMemory ∧ (step P s i).ram.memReadPending = true ∧
      (step P s i).ram.readData = loadValue s := by
  obtain ⟨hcyc, hstb, hwe, haddr, hfunct3⟩ := h.lsuReq_fields
  have hram : (step P s i).ram = s.ram.step P.memSizeBytes (lsuReq s) := by
    change s.ram.step P.memSizeBytes (ramReq P s) = _
    rw [h.ramReq_eq]
  rw [hram]
  simp [RamPort.step, RamPort.memWrite, RamPort.memReadReq, RamPort.readData, hcyc, hstb, hwe,
    haddr, hfunct3, loadValue]

theorem lsuAck_eq : lsuAck P s = ramAck P s := by
  have hhit := h.ram
  simp only [ramOnly, Bool.and_eq_true, Bool.not_eq_true'] at hhit
  obtain ⟨-, -, -, haddr, -⟩ := h.lsuReq_fields
  simp [lsuAck, wbSelect, ramHit, uartHit, timerHit, h.busReq_eq, haddr, hhit]

theorem readData_eq : readData P s = ramData P s := by
  have hhit := h.ram
  simp only [ramOnly, Bool.and_eq_true, Bool.not_eq_true'] at hhit
  obtain ⟨-, -, -, haddr, -⟩ := h.lsuReq_fields
  simp [readData, wbSelect, ramHit, uartHit, timerHit, h.busReq_eq, haddr, hhit]

/-- What the read phase is answered with is the word at its address. -/
theorem readData_of_ack (hreply : ReplyInv P s) (hack : lsuAck P s = true) :
    readData P s = loadValue s := by
  rw [h.lsuAck_eq, ramAck] at hack
  rw [h.readData_eq, ramData]
  unfold ReplyInv at hreply
  obtain ⟨hcyc, hstb, hwe, -, -⟩ := h.lsuReq_fields
  split_ifs at hack hreply ⊢ with hlat
  · refine hreply ?_
    simpa [ramAckRaw, RamPort.ack, h.ramReq_eq, RamPort.memWrite, hwe] using hack
  · rcases hreply with ⟨-, -, hdone⟩ | ⟨-, ⟨-, hdone, -⟩ | ⟨-, hdata⟩⟩
    · exact absurd (hdone.symm.trans hack) Bool.false_ne_true
    · exact absurd (hdone.symm.trans hack) Bool.false_ne_true
    · exact hdata

theorem memHold_eq (hacc : s.reg3.OneAccess) : memHold P s = true := by
  rw [memHold_of_amo h.mode hacc h.amo, h.writeDone]
  rfl

theorem step_loadValue (hacc : s.reg3.OneAccess) : loadValue (step P s i) = loadValue s := by
  rw [loadValue, step_reg3_of_memHold (h.memHold_eq hacc), (h.step_ram).1, loadValue]

theorem step_replyInv (hacc : s.reg3.OneAccess) (hreply : ReplyInv P s)
    (hack : lsuAck P s = false) : ReplyInv P (step P s i) := by
  obtain ⟨-, hpending, hdata⟩ := h.step_ram (i := i)
  have hvalue := h.step_loadValue (i := i) hacc
  have hreg3 := step_reg3_of_memHold (i := i) (h.memHold_eq hacc)
  unfold ReplyInv at hreply ⊢
  rw [hvalue, hpending, hdata, hreg3]
  split_ifs at hreply ⊢ with hlat
  · exact fun _ ↦ rfl
  · refine .inr ?_
    rw [h.lsuAck_eq, ramAck, if_neg hlat] at hack
    obtain ⟨hcyc, hstb, hwe, haddr, -⟩ := h.lsuReq_fields
    have hraw : ramAckRaw P s = s.ram.memReadPending := by
      simp [ramAckRaw, RamPort.ack, h.ramReq_eq, RamPort.memWrite, hwe]
    have hnew : dmemNewRequest P s =
        (!s.dmem.reqActive || s.reg3.aluOut != s.dmem.reqAddr || false != s.dmem.reqWe) := by
      simp [dmemNewRequest, h.ramReq_eq, hcyc, hstb, hwe, haddr]
    have hdmem : (step P s i).dmem = dmemNext P s := rfl
    rw [hdmem]
    rcases hreply with ⟨hactive, hbusy, hdone⟩ | ⟨⟨hactive, hreq, hreqWe⟩, hword⟩
    · have hnew' : dmemNewRequest P s = true := by simp [hnew, hactive]
      refine ⟨?_, .inl ?_⟩
      · simp [dmemNext, hnew', h.ramReq_eq, haddr, hwe]
      · simp [dmemNext, hnew', LatencyModel.step, hbusy]
    · have hnew' : dmemNewRequest P s = false := by simp [hnew, hactive, hreq, hreqWe]
      have hkept : (dmemNext P s).reqActive = true ∧ (dmemNext P s).reqAddr = s.reg3.aluOut ∧
          (dmemNext P s).reqWe = false := by
        simp [dmemNext, hnew', hack, hactive, hreq, hreqWe]
      refine ⟨hkept, .inr ?_⟩
      rcases hword with ⟨hfirst, -, hpend, hread⟩ | ⟨hlater, hcaptured⟩
      · simp [dmemNext, hnew', hraw, hfirst, hpend, hread]
      · simp [dmemNext, hnew', hraw, hlater, hcaptured]

end Reading

/-! ## The stay of an AMO -/

section Stay

variable {s₀ : State w k} {ins : ℕ → Inputs} {a b : ℕ}

theorem AmoStay.reg3_eq (h : AmoStay P (run P s₀ ins) a b) {j : ℕ} (hj : a < j) (hjb : j ≤ b) :
    (run P s₀ ins j).reg3 = (run P s₀ ins b).reg3 := by
  induction hd : b - j generalizing j with
  | zero =>
    obtain rfl : j = b := by omega
    rfl
  | succ d ih =>
    have hstep : (run P s₀ ins (j + 1)).reg3 = (run P s₀ ins j).reg3 :=
      step_reg3_of_memHold (h.held j hj (by omega))
    rw [← hstep]
    exact ih (by omega) (by omega) (by omega)

/-- The flags are down when the AMO comes in. -/
theorem AmoStay.amo_enter (h : AmoStay P (run P s₀ ins) a b)
    (halone : AmoAlone P (run P s₀ ins a) (ins a)) :
    (run P s₀ ins (a + 1)).amo.writePhase = false ∧
      (run P s₀ ins (a + 1)).amo.writeDone = false ∧ RamQuiet P (run P s₀ ins (a + 1)) := by
  have hamo : (step P (run P s₀ ins a) (ins a)).reg3.isAmo = true := by
    have := h.reg3_eq (Nat.lt_succ_self a) h.lt
    change (run P s₀ ins (a + 1)).reg3.isAmo = true
    rw [this]
    exact h.amo
  obtain ⟨hbehind, hquiet⟩ := halone.behind h.enter hamo
  have hnext : (run P s₀ ins (a + 1)).amo = _ := step_amo_of_not_active hbehind
  rw [hnext]
  exact ⟨rfl, rfl, hquiet⟩

theorem AmoStay.isAmo (h : AmoStay P (run P s₀ ins) a b) {j : ℕ} (hj : a < j) (hjb : j ≤ b) :
    (run P s₀ ins j).reg3.isAmo = true := by
  rw [h.reg3_eq hj hjb]
  exact h.amo

theorem AmoStay.amoIsLr_eq (h : AmoStay P (run P s₀ ins) a b) {j : ℕ} (hj : a < j) (hjb : j ≤ b) :
    amoIsLr (run P s₀ ins j) = amoIsLr (run P s₀ ins b) := by
  simp only [amoIsLr, amoFunct5, h.reg3_eq hj hjb]

/-- Where the AMO leaves, and nowhere before, its phases are over. -/
theorem AmoStay.writeDone_iff (h : AmoStay P (run P s₀ ins) a b) (hmode : P.cacheMode = .none)
    {j : ℕ} (hj : a < j) (hjb : j ≤ b) : (run P s₀ ins j).amo.writeDone = true ↔ j = b := by
  have hhold := memHold_of_amo hmode (reg3_oneAccess (run_reachable P s₀ ins j)) (h.isAmo hj hjb)
  constructor
  · intro hdone
    rw [hdone] at hhold
    by_contra hne
    exact absurd (hhold.symm.trans (h.held j hj (by omega))) Bool.false_ne_true
  · rintro rfl
    rw [h.leave] at hhold
    simpa using hhold.symm

/-- The read phase ends in cycle `r`, with the first acknowledge. -/
structure ReadEnds (P : Params) (σ : ℕ → State w k) (a r : ℕ) : Prop where
  lt : a < r
  phase : ∀ j, a < j → j ≤ r → (σ j).amo.writePhase = false ∧ (σ j).amo.writeDone = false
  quiet : ∀ j, a < j → j < r → lsuAck P (σ j) = false
  ack : lsuAck P (σ r) = true

theorem AmoStay.exists_readEnds (h : AmoStay P (run P s₀ ins) a b) (hmode : P.cacheMode = .none)
    (halone : AmoAlone P (run P s₀ ins a) (ins a)) :
    ∃ r, ReadEnds P (run P s₀ ins) a r ∧ r < b := by
  obtain ⟨hphase, hdone, -⟩ := h.amo_enter halone
  obtain ⟨r, hr, hrb, hlow, hup⟩ := exists_rise
    (f := fun j ↦ (run P s₀ ins j).amo.writePhase || (run P s₀ ins j).amo.writeDone)
    (Nat.succ_le_of_lt h.lt) (by simp [hphase, hdone])
    (by simp [(h.writeDone_iff hmode h.lt le_rfl).2 rfl])
  have hflags : ∀ j, a < j → j ≤ r →
      (run P s₀ ins j).amo.writePhase = false ∧ (run P s₀ ins j).amo.writeDone = false :=
    fun j hj hjr ↦ by simpa using hlow j hj hjr
  have hnext : ∀ j, a < j → j ≤ r → (run P s₀ ins (j + 1)).amo = _ := fun j hj hjr ↦
    step_amo_reading (i := ins j) (h.isAmo hj (by omega)) (hflags j hj hjr).1
  refine ⟨r, ⟨hr, hflags, fun j hj hjr ↦ ?_, ?_⟩, hrb⟩
  · by_contra hack
    have hup' := hflags (j + 1) (by omega) hjr
    rw [hnext j hj hjr.le, if_pos (by simpa using hack)] at hup'
    split_ifs at hup'
    · exact absurd hup'.2 (by simp)
    · exact absurd hup'.1 (by simp)
  · by_contra hack
    rw [hnext r hr le_rfl, if_neg hack] at hup
    simp [hflags r hr le_rfl] at hup

variable {r : ℕ}

theorem ReplyInv.of_quiet (h : RamQuiet P s) : ReplyInv P s := by
  unfold RamQuiet at h
  unfold ReplyInv
  split_ifs at h ⊢
  · intro hpending
    exact absurd (h.symm.trans hpending) Bool.false_ne_true
  · exact .inl h

theorem AmoStay.reading (h : AmoStay P (run P s₀ ins) a b) (hmode : P.cacheMode = .none)
    (halone : ∀ n ≤ b, AmoAlone P (run P s₀ ins n) (ins n)) (hread : ReadEnds P (run P s₀ ins) a r)
    (hrb : r < b) (hram : ramOnly P (run P s₀ ins b).reg3.aluOut = true) {j : ℕ} (hj : a < j)
    (hjr : j ≤ r) : Reading P (run P s₀ ins j) :=
  { mode := hmode
    amo := h.isAmo hj (by omega)
    writePhase := (hread.phase j hj hjr).1
    writeDone := (hread.phase j hj hjr).2
    bus := (halone j (by omega)).bus (h.isAmo hj (by omega))
    ram := by rwa [h.reg3_eq hj (by omega)] }

theorem AmoStay.replyInv (h : AmoStay P (run P s₀ ins) a b) (hmode : P.cacheMode = .none)
    (halone : ∀ n ≤ b, AmoAlone P (run P s₀ ins n) (ins n)) (hread : ReadEnds P (run P s₀ ins) a r)
    (hrb : r < b) (hram : ramOnly P (run P s₀ ins b).reg3.aluOut = true) {j : ℕ} (hj : a < j)
    (hjr : j ≤ r) : ReplyInv P (run P s₀ ins j) := by
  induction j, hj using Nat.le_induction with
  | base => exact ReplyInv.of_quiet (h.amo_enter (halone a h.lt.le)).2.2
  | succ j hj ih =>
    exact (h.reading hmode halone hread hrb hram hj (by omega)).step_replyInv
      (reg3_oneAccess (run_reachable P s₀ ins j)) (ih (by omega)) (hread.quiet j hj (by omega))

theorem AmoStay.word (h : AmoStay P (run P s₀ ins) a b) (hmode : P.cacheMode = .none)
    (halone : ∀ n ≤ b, AmoAlone P (run P s₀ ins n) (ins n)) (hread : ReadEnds P (run P s₀ ins) a r)
    (hrb : r < b) (hram : ramOnly P (run P s₀ ins b).reg3.aluOut = true) :
    readData P (run P s₀ ins r) = loadValue (run P s₀ ins r) :=
  (h.reading hmode halone hread hrb hram hread.lt le_rfl).readData_of_ack
    (h.replyInv hmode halone hread hrb hram hread.lt le_rfl) hread.ack

/-! ### After the read -/

theorem AmoStay.amo_after_read (h : AmoStay P (run P s₀ ins) a b)
    (hread : ReadEnds P (run P s₀ ins) a r) (hrb : r < b) :
    (run P s₀ ins (r + 1)).amo =
      if amoIsLr (run P s₀ ins b) then
        { (run P s₀ ins r).amo with
          capturedRead := readData P (run P s₀ ins r), writeDone := true }
      else
        { (run P s₀ ins r).amo with
          capturedRead := readData P (run P s₀ ins r), writePhase := true } := by
  have hnext : (run P s₀ ins (r + 1)).amo = _ :=
    step_amo_reading (i := ins r) (h.isAmo hread.lt hrb.le) (hread.phase r hread.lt le_rfl).1
  rw [hnext, if_pos hread.ack, h.amoIsLr_eq hread.lt hrb.le]

/-- `lr` leaves right after its read. -/
theorem AmoStay.leave_of_lr (h : AmoStay P (run P s₀ ins) a b) (hmode : P.cacheMode = .none)
    (hread : ReadEnds P (run P s₀ ins) a r) (hrb : r < b)
    (hlr : amoIsLr (run P s₀ ins b) = true) : r + 1 = b := by
  have hlt := hread.lt
  refine (h.writeDone_iff hmode (by omega) hrb).1 ?_
  rw [h.amo_after_read hread hrb, if_pos hlr]

/-- Every other AMO goes on to its write phase, which ends with the first acknowledge, in the
cycle before it leaves. -/
theorem AmoStay.exists_write (h : AmoStay P (run P s₀ ins) a b) (hmode : P.cacheMode = .none)
    (hread : ReadEnds P (run P s₀ ins) a r) (hrb : r < b)
    (hlr : amoIsLr (run P s₀ ins b) = false) :
    ∃ x, r < x ∧ x + 1 = b ∧ (∀ j, r < j → j ≤ b → (run P s₀ ins j).amo.writePhase = true ∧
        (run P s₀ ins j).amo.capturedRead = readData P (run P s₀ ins r)) ∧
      (∀ j, r < j → j < x → lsuAck P (run P s₀ ins j) = false) ∧
      lsuAck P (run P s₀ ins x) = true := by
  have hlt := hread.lt
  have hafter := h.amo_after_read hread hrb
  rw [hlr, if_neg Bool.false_ne_true] at hafter
  have hphase : ∀ j, r < j → j ≤ b → (run P s₀ ins j).amo.writePhase = true ∧
      (run P s₀ ins j).amo.capturedRead = readData P (run P s₀ ins r) := by
    intro j hj hjb
    induction j, hj using Nat.le_induction with
    | base => rw [hafter]; exact ⟨rfl, rfl⟩
    | succ j hj ih =>
      obtain ⟨hph, hcap⟩ := ih (by omega)
      have hnext : (run P s₀ ins (j + 1)).amo = _ :=
        step_amo_writing (i := ins j) (h.isAmo (by omega) (by omega)) hph
      rw [hnext]
      split_ifs
      · exact ⟨hph, hcap⟩
      · exact ⟨hph, hcap⟩
  have hnotdone : (run P s₀ ins (r + 1)).amo.writeDone = false := by
    rw [hafter]
    exact (hread.phase r hlt le_rfl).2
  obtain ⟨x, hx, hxb, hlow, hup⟩ := exists_rise (f := fun j ↦ (run P s₀ ins j).amo.writeDone)
    (Nat.succ_le_of_lt hrb) hnotdone ((h.writeDone_iff hmode h.lt le_rfl).2 rfl)
  have hnext : ∀ j, r < j → j ≤ x → (run P s₀ ins (j + 1)).amo = _ := fun j hj hjx ↦
    step_amo_writing (i := ins j) (h.isAmo (by omega) (by omega)) (hphase j hj (by omega)).1
  refine ⟨x, hx, (h.writeDone_iff hmode (by omega) (by omega)).1 hup, hphase, ?_, ?_⟩
  · intro j hj hjx
    by_contra hack
    have hlow' := hlow (j + 1) (by omega) hjx
    rw [hnext j hj hjx.le, if_pos (by simpa using hack)] at hlow'
    exact absurd hlow' (by simp)
  · by_contra hack
    have hlow' := hlow x hx le_rfl
    rw [hnext x hx le_rfl, if_neg hack, hlow'] at hup
    exact absurd hup (by simp)

/-! ### In WB -/

theorem LatencyModel.step_done {latency : ℕ} {start : Bool} {m : LatencyModel}
    (h : (m.step latency start).done = true) : (m.step latency start).busy = false := by
  unfold LatencyModel.step at h ⊢
  split_ifs at h ⊢
  all_goals simp_all

theorem LatencyModel.step_of_not_busy {latency : ℕ} {start : Bool} {m : LatencyModel}
    (h : m.busy = false) : (m.step latency start).done = false := by
  unfold LatencyModel.step
  split_ifs <;> simp_all

theorem dmem_not_busy (n : ℕ) (h : (run P s₀ ins n).dmem.model.done = true) :
    (run P s₀ ins n).dmem.model.busy = false := by
  cases n with
  | zero => rfl
  | succ n => exact LatencyModel.step_done h

/-- With nothing asked for, only the RAM acknowledges. -/
theorem ram_of_lsuAck (hmode : P.cacheMode = .none) (hbus : s.ptw.busy = false)
    (hcyc : lsuCyc s = false) (hack : lsuAck P s = true) :
    ramOnly P s.reg3.aluOut = true ∧ ramAck P s = true ∧ readData P s = ramData P s := by
  have hreq : busReq P s = lsuReq s := busReq_of_not_busy hmode hbus
  have haddr : (lsuReq s).addr = s.reg3.aluOut := rfl
  have hcyc' : (lsuReq s).cyc = false := hcyc
  have huart : uartHit P s = false ∧ timerHit P s = false := by
    constructor
    · by_contra hhit
      cases ht : timerHit P s
      · simp_all [lsuAck, wbSelect, uartReq, BusReq.select]
      · simp_all [lsuAck, wbSelect, timerReq, BusReq.select, Timer.ack]
    · by_contra hhit
      simp_all [lsuAck, wbSelect, timerReq, BusReq.select, Timer.ack]
  have hram : ramHit P s = true ∧ ramAck P s = true := by
    simpa [lsuAck, wbSelect, huart.1, huart.2] using hack
  refine ⟨?_, hram.2, ?_⟩
  · have h1 := hram.1
    have h2 := huart.1
    have h3 := huart.2
    rw [ramHit, hreq, haddr] at h1
    rw [uartHit, hreq, haddr] at h2
    rw [timerHit, hreq, haddr] at h3
    simp [ramOnly, h1, h2, h3]
  · simp [readData, wbSelect, huart.1, huart.2, hram.1]

/-- The reply that is still on the bus when `lr` leaves is the one it has taken. -/
theorem AmoStay.lr_again (h : AmoStay P (run P s₀ ins) a b) (hmode : P.cacheMode = .none)
    (halone : ∀ n ≤ b, AmoAlone P (run P s₀ ins n) (ins n)) (hread : ReadEnds P (run P s₀ ins) a r)
    (hrb : r < b) (hlr : amoIsLr (run P s₀ ins b) = true)
    (hack : lsuAck P (run P s₀ ins b) = true) :
    readData P (run P s₀ ins b) = readData P (run P s₀ ins r) := by
  have hlast := h.leave_of_lr hmode hread hrb hlr
  have hdone := (h.writeDone_iff hmode h.lt le_rfl).2 rfl
  have hcyc : lsuCyc (run P s₀ ins b) = false := by
    simp [lsuCyc, effMemRead, effMemWrite, amoActive, h.amo, hdone]
  obtain ⟨hram, hramAck, hdata⟩ :=
    ram_of_lsuAck hmode ((halone b le_rfl).bus h.amo) hcyc hack
  have hreading := h.reading hmode halone hread hrb hram hread.lt le_rfl
  rw [hdata, h.word hmode halone hread hrb hram, ramData]
  subst hlast
  by_cases hlat : P.memLatencyD = 0
  · rw [if_pos hlat]
    exact (hreading.step_ram (i := ins r)).2.2
  · have hdone' : (run P s₀ ins (r + 1)).dmem.model.done = true := by
      simpa [ramAck, hlat] using hramAck
    have hrdone : (run P s₀ ins r).dmem.model.done = true := by
      have := hread.ack
      rw [hreading.lsuAck_eq, ramAck, if_neg hlat] at this
      exact this
    have hlow : (run P s₀ ins (r + 1)).dmem.model.done = false :=
      LatencyModel.step_of_not_busy (dmem_not_busy r hrdone)
    exact absurd (hlow.symm.trans hdone') Bool.false_ne_true

theorem AmoStay.captured_leave (h : AmoStay P (run P s₀ ins) a b) (hmode : P.cacheMode = .none)
    (halone : ∀ n ≤ b, AmoAlone P (run P s₀ ins n) (ins n)) (hread : ReadEnds P (run P s₀ ins) a r)
    (hrb : r < b) :
    (run P s₀ ins (b + 1)).amo.capturedRead = readData P (run P s₀ ins r) := by
  cases hlr : amoIsLr (run P s₀ ins b) with
  | true =>
    have hafter := h.amo_after_read hread hrb
    rw [h.leave_of_lr hmode hread hrb hlr, if_pos hlr] at hafter
    have hphase : (run P s₀ ins b).amo.writePhase = false := by
      rw [hafter]
      exact (hread.phase r hread.lt le_rfl).1
    have hnext : (run P s₀ ins (b + 1)).amo = _ :=
      step_amo_reading (i := ins b) h.amo hphase
    rw [hnext, hlr, if_pos rfl]
    split_ifs with hack
    · exact h.lr_again hmode halone hread hrb hlr hack
    · rw [hafter]
  | false =>
    obtain ⟨x, -, -, hphase, -⟩ := h.exists_write hmode hread hrb hlr
    obtain ⟨hph, hcap⟩ := hphase b hrb le_rfl
    have hnext : (run P s₀ ins (b + 1)).amo = _ := step_amo_writing (i := ins b) h.amo hph
    rw [hnext]
    split_ifs
    · exact hcap
    · exact hcap

/-- While the AMO is in WB no other one is in MEM. -/
theorem AmoStay.writeDataWb_eq (h : AmoStay P (run P s₀ ins) a b) (hmode : P.cacheMode = .none)
    (halone : ∀ n ≤ b, AmoAlone P (run P s₀ ins n) (ins n)) (hread : ReadEnds P (run P s₀ ins) a r)
    (hrb : r < b) {n : ℕ} (hn : b < n)
    (hheld : ∀ j, b < j → j < n → memHold P (run P s₀ ins j) = true) :
    writeDataWb (run P s₀ ins n) = readData P (run P s₀ ins r) := by
  suffices hinv : (run P s₀ ins n).reg4.isAmo = true ∧ (run P s₀ ins n).reg3.isAmo = false ∧
      (run P s₀ ins n).amo.capturedRead = readData P (run P s₀ ins r) by
    rw [writeDataWb, if_pos hinv.1, hinv.2.2]
  induction n, hn using Nat.le_induction with
  | base =>
    refine ⟨?_, ?_, h.captured_leave hmode halone hread hrb⟩
    · have hreg4 : (run P s₀ ins (b + 1)).reg4 = reg4Next P (run P s₀ ins b) := by
        change (run P s₀ ins b).reg4.step (memHold P (run P s₀ ins b)) _ = _
        rw [h.leave]
        rfl
      rw [hreg4]
      exact h.amo
    · by_contra hne
      have hbehind := ((halone b le_rfl).behind h.leave (Bool.eq_true_of_not_eq_false hne)).1
      exact absurd (hbehind.symm.trans h.amo) Bool.false_ne_true
  | succ n hn ih =>
    obtain ⟨h4, h3, hcap⟩ := ih fun j hj hjn ↦ hheld j hj (by omega)
    have hhold := hheld n hn (Nat.lt_succ_self n)
    refine ⟨?_, ?_, ?_⟩
    · change ((run P s₀ ins n).reg4.step (memHold P (run P s₀ ins n)) _).isAmo = true
      rw [hhold]
      exact h4
    · change (step P (run P s₀ ins n) (ins n)).reg3.isAmo = false
      rw [step_reg3_of_memHold hhold]
      exact h3
    · have hnext : (run P s₀ ins (n + 1)).amo = _ := step_amo_of_not_active (i := ins n) h3
      rw [hnext]
      exact hcap

/-! ### Memory -/

theorem Ram.write_write (m : Ram w) (size : ℕ) (addr v : BitVec w) (f3 : BitVec 3) :
    (m.write size addr v f3).write size addr v f3 = m.write size addr v f3 := by
  funext a
  simp only [Ram.write]
  split_ifs <;> rfl

/-- The request of a write phase. -/
theorem lsuReq_of_writing (hamo : s.reg3.isAmo = true) (hphase : s.amo.writePhase = true)
    (hdone : s.amo.writeDone = false) : lsuReq s =
      amoWriteReq s (amoCombined (amoFunct5 s) s.amo.capturedRead s.reg3.readData2) := by
  simp [lsuReq, lsuCyc, effMemRead, effMemWrite, amoActive, hamo, hphase, hdone, amoWriteReq]

theorem step_ram_of_writing (hmode : P.cacheMode = .none) (hbus : s.ptw.busy = false)
    (hamo : s.reg3.isAmo = true) (hphase : s.amo.writePhase = true)
    (hdone : s.amo.writeDone = false) (hram : ramOnly P s.reg3.aluOut = true) :
    (step P s i).ram.dataMemory = s.ram.dataMemory.write P.memSizeBytes s.reg3.aluOut
      (amoCombined (amoFunct5 s) s.amo.capturedRead s.reg3.readData2) s.reg3.funct3 := by
  have hreq : busReq P s = _ :=
    (busReq_of_not_busy hmode hbus).trans (lsuReq_of_writing hamo hphase hdone)
  have hhit : ramHit P s = true := by
    simp only [ramOnly, Bool.and_eq_true] at hram
    rw [ramHit, hreq]
    exact hram.1.1
  change (s.ram.step P.memSizeBytes (ramReq P s)).dataMemory = _
  simp [ramReq, hhit, hreq, BusReq.select, RamPort.step, RamPort.memWrite, amoWriteReq]

theorem dataMemory_of_done (hmode : P.cacheMode = .none) (hbus : s.ptw.busy = false)
    (hamo : s.reg3.isAmo = true) (hdone : s.amo.writeDone = true) :
    (step P s i).ram.dataMemory = s.ram.dataMemory := by
  change (s.ram.step P.memSizeBytes (ramReq P s)).dataMemory = _
  simp [ramReq, busReq_of_not_busy hmode hbus, BusReq.select, RamPort.step, RamPort.memWrite,
    lsuReq, lsuCyc, effMemRead, effMemWrite, amoActive, hamo, hdone]

theorem AmoStay.dataMemory_read (h : AmoStay P (run P s₀ ins) a b) (hmode : P.cacheMode = .none)
    (halone : ∀ n ≤ b, AmoAlone P (run P s₀ ins n) (ins n)) (hread : ReadEnds P (run P s₀ ins) a r)
    (hrb : r < b) (hram : ramOnly P (run P s₀ ins b).reg3.aluOut = true) {j : ℕ} (hj : a < j)
    (hjr : j ≤ r + 1) :
    (run P s₀ ins j).ram.dataMemory = (run P s₀ ins (a + 1)).ram.dataMemory := by
  induction j, hj using Nat.le_induction with
  | base => rfl
  | succ j hj ih =>
    have hreading := h.reading hmode halone hread hrb hram hj (by omega)
    exact (hreading.step_ram (i := ins j)).1.trans (ih (by omega))

/-- The value the AMO in MEM reads and `rs2`, combined. -/
def amoStored (s : State w k) : BitVec w :=
  amoCombined (amoFunct5 s) (loadValue s) s.reg3.readData2

/-- The memory after an AMO that is alone. -/
theorem AmoStay.dataMemory_leave (h : AmoStay P (run P s₀ ins) a b) (hmode : P.cacheMode = .none)
    (halone : ∀ n ≤ b, AmoAlone P (run P s₀ ins n) (ins n))
    (hram : ramOnly P (run P s₀ ins b).reg3.aluOut = true) :
    (run P s₀ ins (b + 1)).ram.dataMemory =
      if amoIsLr (run P s₀ ins b) then (run P s₀ ins (a + 1)).ram.dataMemory
      else (run P s₀ ins (a + 1)).ram.dataMemory.write P.memSizeBytes (run P s₀ ins b).reg3.aluOut
        (amoStored (run P s₀ ins (a + 1))) (run P s₀ ins b).reg3.funct3 := by
  obtain ⟨r, hread, hrb⟩ := h.exists_readEnds hmode (halone a h.lt.le)
  have hlt := hread.lt
  have hbus : ∀ j, a < j → j ≤ b → (run P s₀ ins j).ptw.busy = false :=
    fun j hj hjb ↦ (halone j hjb).bus (h.isAmo hj hjb)
  have hlast : (run P s₀ ins (b + 1)).ram.dataMemory = (run P s₀ ins b).ram.dataMemory :=
    dataMemory_of_done hmode (hbus b h.lt le_rfl) h.amo ((h.writeDone_iff hmode h.lt le_rfl).2 rfl)
  rw [hlast]
  cases hlr : amoIsLr (run P s₀ ins b) with
  | true =>
    rw [if_pos rfl]
    have hb := h.leave_of_lr hmode hread hrb hlr
    exact h.dataMemory_read hmode halone hread hrb hram h.lt hb.ge
  | false =>
    rw [if_neg Bool.false_ne_true]
    obtain ⟨x, hrx, hxb, hphase, -, -⟩ := h.exists_write hmode hread hrb hlr
    have hmem : ∀ j, a < j → j ≤ r + 1 → (run P s₀ ins j).ram.dataMemory = _ :=
      fun j hj hjr ↦ h.dataMemory_read hmode halone hread hrb hram hj hjr
    have hword : readData P (run P s₀ ins r) = loadValue (run P s₀ ins (a + 1)) := by
      rw [h.word hmode halone hread hrb hram, loadValue, loadValue, hmem r hlt (by omega),
        h.reg3_eq hlt hrb.le, h.reg3_eq (Nat.lt_succ_self a) h.lt]
    have hstep : ∀ j, r < j → j < b → (run P s₀ ins (j + 1)).ram.dataMemory =
        (run P s₀ ins j).ram.dataMemory.write P.memSizeBytes (run P s₀ ins b).reg3.aluOut
          (amoStored (run P s₀ ins (a + 1))) (run P s₀ ins b).reg3.funct3 := by
      intro j hj hjb
      have hreg3 := h.reg3_eq (by omega : a < j) hjb.le
      have hdone : (run P s₀ ins j).amo.writeDone = false := by
        by_contra hne
        have := (h.writeDone_iff hmode (by omega) hjb.le).1 (by simpa using hne)
        omega
      have hnext := step_ram_of_writing (i := ins j) hmode (hbus j (by omega) hjb.le)
        (h.isAmo (by omega) hjb.le) (hphase j hj hjb.le).1 hdone (by rwa [hreg3])
      rw [(hphase j hj hjb.le).2, hword] at hnext
      simp only [amoFunct5, hreg3] at hnext
      simp only [amoStored, amoFunct5, h.reg3_eq (Nat.lt_succ_self a) h.lt]
      exact hnext
    have hrun : ∀ j, r + 1 < j → j ≤ b → (run P s₀ ins j).ram.dataMemory =
        (run P s₀ ins (a + 1)).ram.dataMemory.write P.memSizeBytes (run P s₀ ins b).reg3.aluOut
          (amoStored (run P s₀ ins (a + 1))) (run P s₀ ins b).reg3.funct3 := by
      intro j hj hjb
      induction j, hj using Nat.le_induction with
      | base => rw [hstep (r + 1) (by omega) (by omega), hmem (r + 1) (by omega) le_rfl]
      | succ j hj ih => rw [hstep j (by omega) (by omega), ih (by omega), Ram.write_write]
    exact hrun b (by omega) le_rfl

end Stay

/-! ## Whole runs -/

/-- In every run in which an AMO comes to MEM behind no other AMO, with the RAM quiet, and has the
bus to itself there, every AMO runs its own phases once. -/
theorem amoOnce_of_amoAlone (P : Params) (s₀ : State w k) (ins : ℕ → Inputs)
    (hmode : P.cacheMode = .none) (a b : ℕ) (halone : ∀ n ≤ b, AmoAlone P (run P s₀ ins n) (ins n))
    (h : AmoStay P (run P s₀ ins) a b) : AmoOnce P (run P s₀ ins) a b := by
  obtain ⟨r, hread, hrb⟩ := h.exists_readEnds hmode (halone a h.lt.le)
  have hlt := hread.lt
  have hbus : ∀ j, a < j → j ≤ b → (run P s₀ ins j).ptw.busy = false :=
    fun j hj hjb ↦ (halone j hjb).bus (h.isAmo hj hjb)
  have hdone : ∀ j, a < j → j ≤ b → (run P s₀ ins j).amo.writeDone = decide (j = b) := by
    intro j hj hjb
    rw [Bool.eq_iff_iff, h.writeDone_iff hmode hj hjb, decide_eq_true_iff]
  have hacts : ∀ j, a < j → j ≤ b →
      effMemRead (run P s₀ ins j) = (!(run P s₀ ins j).amo.writePhase && !decide (j = b)) ∧
        effMemWrite (run P s₀ ins j) = ((run P s₀ ins j).amo.writePhase && !decide (j = b)) := by
    intro j hj hjb
    simp [effMemRead, effMemWrite, amoActive, h.isAmo hj hjb, hdone j hj hjb]
  have hreq : ∀ j, a < j → j ≤ b → busReq P (run P s₀ ins j) = lsuReq (run P s₀ ins j) :=
    fun j hj hjb ↦ busReq_of_not_busy hmode (hbus j hj hjb)
  refine ⟨r, ⟨hlt, hrb, ?_, ?_, fun j hj hjb hack ↦ ?_⟩, ?_, ?_, fun hram ↦ ?_,
    fun n hn hheld ↦ ?_⟩
  · simp [readAck, hbus r hlt hrb.le, (hacts r hlt hrb.le).1, (hread.phase r hlt le_rfl).1, hread.ack,
      hrb.ne]
  · constructor <;> rw [hreq r hlt hrb.le] <;>
      simp [lsuReq, lsuCyc, hacts r hlt hrb.le, (hread.phase r hlt le_rfl).1, hrb.ne]
  · simp only [readAck, (hacts j hj hjb).1, Bool.and_eq_true, Bool.not_eq_true',
      decide_eq_false_iff_not] at hack
    rcases Nat.lt_trichotomy j r with hjr | rfl | hjr
    · exact absurd ((hread.quiet j hj hjr).symm.trans hack.2) Bool.false_ne_true
    · rfl
    · cases hlr : amoIsLr (run P s₀ ins b) with
      | true =>
        have := h.leave_of_lr hmode hread hrb hlr
        omega
      | false =>
        obtain ⟨x, -, -, hphase, -⟩ := h.exists_write hmode hread hrb hlr
        exact absurd (hack.1.2.1.symm.trans (hphase j hjr hjb).1) Bool.false_ne_true
  · intro hram
    rw [h.word hmode halone hread hrb hram, loadValue, h.reg3_eq hlt hrb.le]
  · cases hlr : amoIsLr (run P s₀ ins b) with
    | true =>
      have hlast := h.leave_of_lr hmode hread hrb hlr
      rw [if_pos rfl]
      intro j hj hjb
      rw [hreq j hj hjb]
      change effMemWrite _ = false
      rcases Nat.lt_or_ge r j with hjr | hjr
      · obtain rfl : j = b := by omega
        simp [(hacts j hj hjb).2]
      · simp [(hacts j hj hjb).2, (hread.phase j hj hjr).1]
    | false =>
      rw [if_neg Bool.false_ne_true]
      obtain ⟨x, hrx, hxb, hphase, hquiet, hack⟩ := h.exists_write hmode hread hrb hlr
      refine ⟨x, hrx, by omega, ?_, ?_, fun j hj hjb hj' ↦ ?_⟩
      · simp [writeAck, hbus x (by omega) (by omega), (hacts x (by omega) (by omega)).2,
          (hphase x hrx (by omega)).1, hack, show x ≠ b by omega]
      · obtain ⟨hph, hcap⟩ := hphase x hrx (by omega)
        have hdone' : (run P s₀ ins x).amo.writeDone = false := by
          rw [hdone x (by omega) (by omega)]
          exact decide_eq_false (by omega)
        rw [hreq x (by omega) (by omega),
          lsuReq_of_writing (h.isAmo (by omega) (by omega)) hph hdone', hcap]
        simp only [amoWriteReq, amoFunct5, h.reg3_eq (show a < x by omega) (by omega)]
      · simp only [writeAck, (hacts j hj hjb).2, Bool.and_eq_true, Bool.not_eq_true',
          decide_eq_false_iff_not] at hj'
        rcases Nat.lt_or_ge r j with hjr | hjr
        · by_contra hne
          exact absurd ((hquiet j hjr (by omega)).symm.trans hj'.2) Bool.false_ne_true
        · exact absurd ((hread.phase j hj hjr).1.symm.trans hj'.1.2.1) Bool.false_ne_true
  · rw [h.dataMemory_leave hmode halone hram, h.word hmode halone hread hrb hram, amoStored, loadValue,
      loadValue, h.dataMemory_read hmode halone hread hrb hram hlt (by omega)]
    simp only [amoFunct5, h.reg3_eq hlt hrb.le, h.reg3_eq (Nat.lt_succ_self a) h.lt]
  · exact h.writeDataWb_eq hmode halone hread hrb hn hheld

/-- `amoadd.w x1, x2, (x3)` at 64. -/
def amoParams : Params :=
  { insts := instsOfWords [0x04000193, 0x04400293, 0x0021A0AF, 0x00000013, 0x0000006f] }

theorem amoOnce_amoadd : AmoOnce amoParams (run amoParams (default : State 32 0) fun _ ↦ {}) 4 8 := by
  have hheld : ∀ j < 8, 4 < j →
      memHold amoParams (run amoParams (default : State 32 0) (fun _ ↦ {}) j) = true := by
    decide +kernel
  exact amoOnce_of_amoAlone amoParams default (fun _ ↦ {}) rfl 4 8 (by decide +kernel)
    { enter := by decide +kernel, lt := by decide, held := fun j hj hj' ↦ hheld j hj' hj
      leave := by decide +kernel, amo := by decide +kernel }

/-! ### Two AMOs in a row -/

/-- `amoadd.w x1, x2, (x3)` at 64 and `amoadd.w x4, x2, (x5)` at 68. -/
def amoPairParams : Params :=
  { insts := instsOfWords [0x04000193, 0x04400293, 0x0021A0AF, 0x0022A22F, 0x0000006f] }

/-- The second one is in MEM in cycle 9 only, and drives nothing. -/
theorem amoOnce_fails :
    ¬ ∀ (P : Params) (s₀ : State 32 0) (ins : ℕ → Inputs), P.cacheMode = .none →
      P.memLatencyD = 0 → ∀ a b, AmoStay P (run P s₀ ins) a b → AmoOnce P (run P s₀ ins) a b := by
  intro hall
  obtain ⟨r, ⟨hr, hr', -⟩, -⟩ := hall amoPairParams default (fun _ ↦ {}) rfl rfl 8 9
    { enter := by decide +kernel, lt := by decide, held := fun j hj hj' ↦ by omega
      leave := by decide +kernel, amo := by decide +kernel }
  omega

end RvPipeline
