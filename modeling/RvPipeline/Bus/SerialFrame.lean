import RvPipeline.Design.Bits
import RvPipeline.Design.Periph
import Mathlib.Tactic

/-!
# One frame on the serial line

A byte accepted by the transmitter of `Uart.v` takes ten bit times on the line.
Both state machines are placed relative to the edge that accepted it: `n` edges
later the transmitter is at `TxPos n` and a receiver on the other end, which lags by
the output register, the edge detector and half a bit, is at `RxPos n`.
-/

namespace RvPipeline

namespace Uart

/-- A write of the transmit holding register in this cycle. -/
def thrWrite (q : BusReq 32) (u : Uart) : Bool :=
  (q.cyc && q.stb && q.we) && regSel q.addr == 0 && !u.dlab

/-- A read of the receive buffer register in this cycle. -/
def rbrRead (q : BusReq 32) (u : Uart) : Bool :=
  (q.cyc && q.stb && !q.we) && regSel q.addr == 0 && !u.dlab

/-- `LSR.THRE`. -/
def thre (u : Uart) : Bool := u.lsr.getLsbD 5

/-- `LSR.DR`. -/
def dr (u : Uart) : Bool := u.lsr.getLsbD 0

/-- The receiver is on the last cycle of a stop bit: the edge ahead latches a byte. -/
def completes (clksPerBit : ℕ) (u : Uart) : Prop :=
  u.rxState = .stop ∧ u.rxClkCount + 1 = clksPerBit

instance (clksPerBit : ℕ) (u : Uart) : Decidable (u.completes clksPerBit) :=
  inferInstanceAs (Decidable (_ ∧ _))

theorem thre_eq (u : Uart) : u.thre = !u.txBusy := by
  unfold thre lsr
  cases u.txBusy <;> cases u.rxReady <;> rfl

theorem dr_eq (u : Uart) : u.dr = u.rxReady := by
  unfold dr lsr
  cases u.txBusy <;> cases u.rxReady <;> rfl

theorem thre_iff (u : Uart) : u.thre = true ↔ u.txState = .idle := by
  rw [thre_eq, txBusy]
  cases u.txState <;> decide

/-! ## The frame -/

/-- Start bit, data bits from the least significant, then the line high. -/
def frameBit (d : BitVec 8) : ℕ → Bool
  | 0 => false
  | i + 1 => if i < 8 then d.getLsbD i else true

/-- The line `n` edges after byte `d` was accepted. -/
def level (clksPerBit : ℕ) (d : BitVec 8) : ℕ → Bool
  | 0 => true
  | n + 1 => frameBit d (n / clksPerBit)

variable {C n : ℕ} {d : BitVec 8} {u : Uart} {r : Bool} {q : BusReq 32}

theorem level_slot {s k : ℕ} (hk : k < C) : level C d (s * C + k + 1) = frameBit d s := by
  have hdiv : (s * C + k) / C = s := by
    rw [Nat.mul_comm, Nat.mul_add_div (by omega), Nat.div_eq_of_lt hk, Nat.add_zero]
  rw [level, hdiv]

theorem level_stop (hn : 9 * C < n) (hn' : n ≤ 10 * C) : level C d n = true := by
  obtain ⟨k, rfl⟩ : ∃ k, n = 9 * C + k + 1 := ⟨n - 9 * C - 1, by omega⟩
  rw [level_slot (by omega)]
  rfl

/-- The transmitter `n` edges after it accepted a byte, until it is idle again. -/
inductive TxPos (C : ℕ) (u : Uart) : ℕ → Prop
  | start {k : ℕ} (hk : k < C) (hs : u.txState = .start) (hc : u.txClkCount = k) : TxPos C u k
  | data {i k : ℕ} (hi : i < 8) (hk : k < C) (hs : u.txState = .data)
      (hx : u.txBitIndex.toNat = i) (hc : u.txClkCount = k) : TxPos C u ((i + 1) * C + k)
  | stop {k : ℕ} (hk : k < C) (hs : u.txState = .stop) (hc : u.txClkCount = k) :
      TxPos C u (9 * C + k)
  | done (hs : u.txState = .idle) : TxPos C u (10 * C)

/-- The receiver, relative to the same edge.  Two edges pass before it sees the
falling line, `C / 2` more before it confirms the start bit. -/
inductive RxPos (C : ℕ) (d : BitVec 8) (u : Uart) : ℕ → Prop
  | wait {n : ℕ} (hn : n < 2) (hs : u.rxState = .idle) (hp : u.rxPrev = true) : RxPos C d u n
  | start {k : ℕ} (hk : k < C / 2) (hs : u.rxState = .start) (hc : u.rxClkCount = k) :
      RxPos C d u (k + 2)
  | data {i k : ℕ} (hi : i < 8) (hk : k < C) (hs : u.rxState = .data)
      (hx : u.rxBitIndex.toNat = i) (hc : u.rxClkCount = k)
      (hd : ∀ j < i, u.rxShiftReg.getLsbD j = d.getLsbD j) : RxPos C d u (i * C + C / 2 + k + 2)
  | stop {k : ℕ} (hk : k < C) (hs : u.rxState = .stop) (hc : u.rxClkCount = k)
      (hd : u.rxShiftReg = d) : RxPos C d u (8 * C + C / 2 + k + 2)
  | done {n : ℕ} (hn : 9 * C + C / 2 + 2 ≤ n) (hs : u.rxState = .idle) (hp : u.rxPrev = true) :
      RxPos C d u n

theorem tick_eq {k : ℕ} (hk : k < C) : tick C k = k + 1 := by
  have hC := le_two_pow_clog2 (C + 1)
  exact Nat.mod_eq_of_lt (by omega)

/-! ## One edge of the transmitter -/

theorem frameBit_data {i : ℕ} (hi : i < 8) : frameBit d (i + 1) = d.getLsbD i := if_pos hi

theorem toNat_succ {x : BitVec 3} {i : ℕ} (hx : x.toNat = i) (hi : i < 7) :
    (x + 1).toNat = i + 1 := by
  rw [BitVec.toNat_add, hx]
  exact Nat.mod_eq_of_lt (by show i + 1 < 8; omega)

/-- An idle transmitter takes the byte of a holding register write. -/
theorem step_tx_accept (hC : 0 < C) (hs : u.txState = .idle) (hw : thrWrite q u = true) :
    TxPos C (u.step C r q) 0 ∧ (u.step C r q).txShiftReg = q.data.setWidth 8 ∧
      (u.step C r q).tx = true := by
  have hstep : stepTx C (thrWrite q u) (q.data.setWidth 8) u =
      { u with tx := true, txShiftReg := q.data.setWidth 8, txState := .start, txClkCount := 0 } := by
    simp [stepTx, hs, hw]
  exact ⟨.start hC (congrArg txState hstep) (congrArg txClkCount hstep),
    congrArg txShiftReg hstep, congrArg tx hstep⟩

theorem step_tx_idle (hs : u.txState = .idle) (hw : thrWrite q u = false) :
    (u.step C r q).txState = .idle ∧ (u.step C r q).tx = true := by
  have hstep : stepTx C (thrWrite q u) (q.data.setWidth 8) u = { u with tx := true } := by
    simp [stepTx, hs, hw]
  exact ⟨(congrArg txState hstep).trans hs, congrArg tx hstep⟩

/-- Within a frame the transmitter moves on by one position, deaf to the bus. -/
theorem TxPos.stepTx {t : Bool} {v : BitVec 8} (h : TxPos C u n) (hn : n < 10 * C) :
    TxPos C (stepTx C t v u) (n + 1) ∧ (stepTx C t v u).txShiftReg = u.txShiftReg ∧
      (stepTx C t v u).tx = level C u.txShiftReg (n + 1) := by
  cases h with
  | start hk hs hc =>
    have hline : level C u.txShiftReg (n + 1) = false := by
      have h0 := level_slot (d := u.txShiftReg) (s := 0) hk
      rwa [Nat.zero_mul, Nat.zero_add] at h0
    by_cases hlast : n + 1 = C
    · have hstep : Uart.stepTx C t v u =
          { u with tx := false, txClkCount := 0, txBitIndex := 0, txState := .data } := by
        simp [Uart.stepTx, hs, hc, hlast]
      rw [hstep, hline, show n + 1 = (0 + 1) * C + 0 by omega]
      exact ⟨.data (by omega) (by omega) rfl rfl rfl, rfl, rfl⟩
    · have hstep : Uart.stepTx C t v u = { u with tx := false, txClkCount := n + 1 } := by
        simp [Uart.stepTx, hs, hc, hlast, tick_eq hk]
      rw [hstep, hline]
      exact ⟨.start (by omega) hs rfl, rfl, rfl⟩
  | @data i k hi hk hs hx hc =>
    have hline : level C u.txShiftReg ((i + 1) * C + k + 1) = u.txShiftReg.getLsbD i := by
      rw [level_slot hk, frameBit_data hi]
    rw [hline]
    by_cases hlast : k + 1 = C
    · by_cases hi7 : i = 7
      · have hx7 : u.txBitIndex = 7 := BitVec.eq_of_toNat_eq (hx.trans hi7)
        have hstep : Uart.stepTx C t v u =
            { u with tx := u.txShiftReg.getLsbD i, txClkCount := 0, txState := .stop } := by
          simp [Uart.stepTx, hs, hc, hlast, hx7, hi7]
        rw [hstep, show (i + 1) * C + k + 1 = 9 * C + 0 by subst hi7; omega]
        exact ⟨.stop (by omega) rfl rfl, rfl, rfl⟩
      · have hx7 : u.txBitIndex ≠ 7#3 := fun h7 ↦ hi7 (hx.symm.trans (congrArg BitVec.toNat h7))
        have hstep : Uart.stepTx C t v u =
            { u with tx := u.txShiftReg.getLsbD i, txClkCount := 0
                     txBitIndex := u.txBitIndex + 1 } := by
          simp [Uart.stepTx, hs, hc, hlast, hx7, hx]
        rw [hstep, show (i + 1) * C + k + 1 = (i + 1 + 1) * C + 0 by
          rw [Nat.add_mul (i + 1) 1]; omega]
        exact ⟨.data (by omega) (by omega) hs (toNat_succ hx (by omega)) rfl, rfl, rfl⟩
    · have hstep : Uart.stepTx C t v u =
          { u with tx := u.txShiftReg.getLsbD i, txClkCount := k + 1 } := by
        simp [Uart.stepTx, hs, hc, hx, hlast, tick_eq hk]
      rw [hstep]
      exact ⟨.data (k := k + 1) hi (by omega) hs hx rfl, rfl, rfl⟩
  | @stop k hk hs hc =>
    rw [level_stop (by omega) (by omega)]
    by_cases hlast : k + 1 = C
    · have hstep : Uart.stepTx C t v u =
          { u with tx := true, txClkCount := 0, txState := .idle } := by
        simp [Uart.stepTx, hs, hc, hlast]
      rw [hstep, show 9 * C + k + 1 = 10 * C by omega]
      exact ⟨.done rfl, rfl, rfl⟩
    · have hstep : Uart.stepTx C t v u = { u with tx := true, txClkCount := k + 1 } := by
        simp [Uart.stepTx, hs, hc, hlast, tick_eq hk]
      rw [hstep]
      exact ⟨.stop (k := k + 1) (by omega) hs rfl, rfl, rfl⟩
  | done => omega

theorem TxPos.of_stepTx
    (h : TxPos C (Uart.stepTx C (thrWrite q u) (q.data.setWidth 8) u) n) :
    TxPos C (u.step C r q) n := by
  cases h with
  | start hk hs hc => exact .start hk hs hc
  | data hi hk hs hx hc => exact .data hi hk hs hx hc
  | stop hk hs hc => exact .stop hk hs hc
  | done hs => exact .done hs

theorem TxPos.step (h : TxPos C u n) (hn : n < 10 * C) :
    TxPos C (u.step C r q) (n + 1) ∧ (u.step C r q).txShiftReg = u.txShiftReg ∧
      (u.step C r q).tx = level C u.txShiftReg (n + 1) := by
  obtain ⟨hpos, hshift, htx⟩ := h.stepTx (t := thrWrite q u) (v := q.data.setWidth 8) hn
  exact ⟨hpos.of_stepTx, hshift, htx⟩

theorem TxPos.idle_of_end (h : TxPos C u n) (hn : n = 10 * C) :
    u.txState = .idle := by
  cases h with
  | start hk hs hc => omega
  | @data i k hi hk hs hx hc =>
    have hslot : (i + 1) * C ≤ 8 * C := Nat.mul_le_mul_right C (by omega)
    omega
  | stop hk hs hc => omega
  | done hs => exact hs

theorem TxPos.thre_eq_false (h : TxPos C u n) (hn : n < 10 * C) : u.thre = false := by
  rw [thre_eq, txBusy]
  cases h with
  | start hk hs hc => rw [hs]; rfl
  | data hi hk hs hx hc => rw [hs]; rfl
  | stop hk hs hc => rw [hs]; rfl
  | done hs => omega

/-! ## One edge of the receiver -/

/-- The receiver's registers after an edge, whatever the two other processes do. -/
theorem RxPos.of_stepRx (h : RxPos C d (Uart.stepRx C (rbrRead q u) r u) n) :
    RxPos C d (u.step C r q) n := by
  cases h with
  | wait hn hs hp => exact .wait hn hs hp
  | start hk hs hc => exact .start hk hs hc
  | data hi hk hs hx hc hd => exact .data hi hk hs hx hc hd
  | stop hk hs hc hd => exact .stop hk hs hc hd
  | done hn hs hp => exact .done hn hs hp

/-- A byte is latched on a completing edge even when the same edge reads the last one. -/
theorem stepRx_completes {rd : Bool} (h : u.completes C) :
    (stepRx C rd r u).rxReady = true ∧ (stepRx C rd r u).rxDataReg = u.rxShiftReg := by
  obtain ⟨hs, hc⟩ := h
  simp [stepRx, hs, hc]

theorem stepRx_not_completes {rd : Bool} (h : ¬u.completes C) :
    (stepRx C rd r u).rxReady = (u.rxReady && !rd) ∧
      (stepRx C rd r u).rxDataReg = u.rxDataReg := by
  unfold stepRx
  cases hs : u.rxState with
  | idle => dsimp only; split <;> exact ⟨rfl, rfl⟩
  | start => dsimp only; split_ifs <;> exact ⟨rfl, rfl⟩
  | data => dsimp only; split_ifs <;> exact ⟨rfl, rfl⟩
  | stop =>
    have hc : u.rxClkCount + 1 ≠ C := fun hc ↦ h ⟨hs, hc⟩
    simp [hc]

theorem RxPos.completes_iff (hC : 2 ≤ C) (h : RxPos C d u n) :
    u.completes C ↔ n = 9 * C + C / 2 + 1 := by
  unfold completes
  cases h with
  | wait hn hs hp => simp [hs]; omega
  | start hk hs hc => simp [hs]; omega
  | @data i k hi hk hs hx hc hd =>
    have hslot : i * C ≤ 7 * C := Nat.mul_le_mul_right C (by omega)
    simp [hs]
    omega
  | stop hk hs hc hd => simp [hs, hc]; omega
  | done hn hs hp => simp [hs]; omega

/-- The receiver is waiting again before the earliest next start bit reaches it. -/
theorem RxPos.idle_of_end (hC : 2 ≤ C) (h : RxPos C d u n) (hn : 10 * C < n) :
    u.rxState = .idle ∧ u.rxPrev = true := by
  cases h with
  | wait hn' hs hp => exact ⟨hs, hp⟩
  | start hk hs hc => omega
  | @data i k hi hk hs hx hc hd =>
    have hslot : i * C ≤ 7 * C := Nat.mul_le_mul_right C (by omega)
    omega
  | stop hk hs hc hd => omega
  | done hn' hs hp => exact ⟨hs, hp⟩

theorem RxPos.rxShiftReg_eq (h : RxPos C d u n) (hc : u.completes C) : u.rxShiftReg = d := by
  cases h with
  | stop hk hs hc hd => exact hd
  | wait hn hs hp => exact absurd (hs.symm.trans hc.1) (by decide)
  | start hk hs hc' => exact absurd (hs.symm.trans hc.1) (by decide)
  | data hi hk hs hx hc' hd => exact absurd (hs.symm.trans hc.1) (by decide)
  | done hn hs hp => exact absurd (hs.symm.trans hc.1) (by decide)

/-- The receiver follows the frame: it samples every bit in the middle of its slot. -/
theorem RxPos.stepRx {rd : Bool} (hC : 2 ≤ C) (h : RxPos C d u n) (hn : n ≤ 10 * C) :
    RxPos C d (Uart.stepRx C rd (level C d n) u) (n + 1) := by
  have hhalf : C / 2 < C := by omega
  cases h with
  | wait hn hs hp =>
    obtain rfl | rfl : n = 0 ∨ n = 1 := by omega
    · refine .wait (by omega) ?_ ?_ <;> simp [Uart.stepRx, hs, hp, level]
    · have hline : level C d 1 = false := by simp [level, frameBit]
      refine .start (k := 0) (by omega) ?_ ?_ <;> simp [Uart.stepRx, hs, hp, hline]
  | @start k hk hs hc =>
    have hline : level C d (k + 2) = false := by
      have h0 := level_slot (C := C) (d := d) (s := 0) (k := k + 1) (by omega)
      rwa [Nat.zero_mul, Nat.zero_add] at h0
    rw [hline]
    by_cases hlast : k + 1 = C / 2
    · rw [show k + 2 + 1 = 0 * C + C / 2 + 0 + 2 by omega]
      refine .data (i := 0) (k := 0) (by omega) (by omega) ?_ ?_ ?_ (by omega) <;>
        simp [Uart.stepRx, hs, hc, hlast]
    · refine .start (k := k + 1) (by omega) ?_ ?_ <;>
        simp [Uart.stepRx, hs, hc, hlast, tick_eq (show k < C by omega)]
  | @data i k hi hk hs hx hc hd =>
    by_cases hlast : k + 1 = C
    · have hline : level C d (i * C + C / 2 + k + 2) = d.getLsbD i := by
        rw [show i * C + C / 2 + k + 2 = (i + 1) * C + C / 2 + 1 by
          rw [Nat.add_mul i 1]; omega, level_slot hhalf, frameBit_data hi]
      have hbits : ∀ j < i + 1, (putBit u.rxShiftReg i (d.getLsbD i)).getLsbD j = d.getLsbD j := by
        intro j hj
        rw [getLsbD_putBit (by omega)]
        split_ifs with hji
        · rw [hji]
        · exact hd j (by omega)
      rw [hline]
      by_cases hi7 : i = 7
      · have hx7 : u.rxBitIndex = 7#3 := BitVec.eq_of_toNat_eq (hx.trans hi7)
        have hall : putBit u.rxShiftReg i (d.getLsbD i) = d :=
          BitVec.eq_of_getLsbD_eq fun j hj ↦ hbits j (by omega)
        rw [show i * C + C / 2 + k + 2 + 1 = 8 * C + C / 2 + 0 + 2 by subst hi7; omega]
        refine .stop (k := 0) (by omega) ?_ ?_ ?_
        · simp [Uart.stepRx, hs, hc, hlast, hx7]
        · simp [Uart.stepRx, hs, hc, hlast, hx7]
        · simpa [Uart.stepRx, hs, hc, hlast, hx7, hi7] using hall
      · have hx7 : u.rxBitIndex ≠ 7#3 := fun h7 ↦ hi7 (hx.symm.trans (congrArg BitVec.toNat h7))
        rw [show i * C + C / 2 + k + 2 + 1 = (i + 1) * C + C / 2 + 0 + 2 by
          rw [Nat.add_mul i 1]; omega]
        refine .data (i := i + 1) (k := 0) (by omega) (by omega) ?_ ?_ ?_ ?_
        · simp [Uart.stepRx, hs, hc, hlast, hx7]
        · simpa [Uart.stepRx, hs, hc, hlast, hx7] using toNat_succ hx (by omega)
        · simp [Uart.stepRx, hs, hc, hlast, hx7]
        · simpa [Uart.stepRx, hs, hc, hlast, hx7, hx] using hbits
    · refine .data (k := k + 1) hi (by omega) ?_ ?_ ?_ ?_
      · simp [Uart.stepRx, hs, hc, hlast]
      · simp [Uart.stepRx, hs, hc, hlast, hx]
      · simp [Uart.stepRx, hs, hc, hlast, tick_eq hk]
      · simpa [Uart.stepRx, hs, hc, hlast] using hd
  | @stop k hk hs hc hd =>
    by_cases hlast : k + 1 = C
    · have hline : level C d (8 * C + C / 2 + k + 2) = true := level_stop (by omega) (by omega)
      refine .done (by omega) ?_ ?_ <;> simp [Uart.stepRx, hs, hc, hlast, hline]
    · refine .stop (k := k + 1) (by omega) ?_ ?_ ?_ <;>
        simp [Uart.stepRx, hs, hc, hlast, hd, tick_eq hk]
  | done hn' hs hp =>
    have hline : level C d n = true := level_stop (by omega) (by omega)
    refine .done (by omega) ?_ ?_ <;> simp [Uart.stepRx, hs, hp, hline]

end Uart

end RvPipeline
