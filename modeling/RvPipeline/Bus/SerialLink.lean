import RvPipeline.Bus.SerialFrame

/-!
# Two UARTs on one line

`tx` of one `Uart.v` drives `rx` of another.  `Phase` is what the line carries: nothing, or a
byte at some distance from the edge that accepted it.  Both machines follow it, so the bytes
the receiver latches are the bytes the transmitter accepted, in order.
-/

namespace RvPipeline

open Uart

/-- The inputs of one cycle: both bus ports and the unconnected `rx` of the first. -/
structure LinkIn where
  reqA : BusReq 32
  reqB : BusReq 32
  rxA : Bool

/-- The second `Uart` listens to the first. -/
structure SerialLink where
  a : Uart
  b : Uart

/-- The byte in flight and the edges since its acceptance. -/
abbrev Phase := Option (ℕ × BitVec 8)

/-- A byte occupies the line for ten bit times; only then is the next one accepted. -/
def Phase.next (clksPerBit : ℕ) (accepted : Option (BitVec 8)) : Phase → Phase
  | none => accepted.map (0, ·)
  | some (n, d) => if n < 10 * clksPerBit then some (n + 1, d) else accepted.map (0, ·)

/-- The cycles from the acceptance of a byte until `DR` shows it. -/
def deliveryTime (clksPerBit : ℕ) : ℕ := 9 * clksPerBit + clksPerBit / 2 + 2

/-- The byte that is on its way and not yet latched. -/
def Phase.inFlight (clksPerBit : ℕ) : Phase → List (BitVec 8)
  | none => []
  | some (n, d) => if n < deliveryTime clksPerBit then [d] else []

namespace SerialLink

def reset (a b : Uart) : SerialLink := ⟨a.reset, b.reset⟩

def step (clksPerBit : ℕ) (i : LinkIn) (s : SerialLink) : SerialLink :=
  { a := s.a.step clksPerBit i.rxA i.reqA
    b := s.b.step clksPerBit s.a.tx i.reqB }

def run (clksPerBit : ℕ) (s : SerialLink) : List LinkIn → SerialLink
  | [] => s
  | i :: w => run clksPerBit (s.step clksPerBit i) w

/-- The byte written to `THR` while `THRE` is set. -/
def accepted (i : LinkIn) (s : SerialLink) : Option (BitVec 8) :=
  if thrWrite i.reqA s.a && s.a.thre then some (i.reqA.data.setWidth 8) else none

/-- Every byte sent, in order. -/
def sent (clksPerBit : ℕ) (s : SerialLink) : List LinkIn → List (BitVec 8)
  | [] => []
  | i :: w => (s.accepted i).toList ++ sent clksPerBit (s.step clksPerBit i) w

/-- `DR` is set on this edge: it is up afterwards, and before it was down or a read of `RBR`
consumed it. -/
def drSet (clksPerBit : ℕ) (i : LinkIn) (s : SerialLink) : Bool :=
  (s.step clksPerBit i).b.dr && (!s.b.dr || rbrRead i.reqB s.b)

/-- `RBR` after every edge that sets `DR`. -/
def arrivals (clksPerBit : ℕ) (s : SerialLink) : List LinkIn → List (BitVec 8)
  | [] => []
  | i :: w =>
    (if s.drSet clksPerBit i then [(s.step clksPerBit i).b.rxDataReg] else []) ++
      arrivals clksPerBit (s.step clksPerBit i) w

/-- What the reads of `RBR` that find `DR` set return. -/
def received (clksPerBit : ℕ) (s : SerialLink) : List LinkIn → List (BitVec 8)
  | [] => []
  | i :: w =>
    (if rbrRead i.reqB s.b && s.b.dr then [(s.b.readData i.reqB.addr).setWidth 8] else []) ++
      received clksPerBit (s.step clksPerBit i) w

/-- The byte `DR` announces. -/
def unread (s : SerialLink) : List (BitVec 8) := if s.b.dr then [s.b.rxDataReg] else []

/-- Each byte is read before the next one completes. -/
def ReadInTime (clksPerBit : ℕ) (s : SerialLink) : List LinkIn → Prop
  | [] => True
  | i :: w => (s.b.completes clksPerBit → s.b.dr = true → rbrRead i.reqB s.b = true) ∧
      ReadInTime clksPerBit (s.step clksPerBit i) w

instance decidableReadInTime (clksPerBit : ℕ) (s : SerialLink) :
    (w : List LinkIn) → Decidable (ReadInTime clksPerBit s w)
  | [] => isTrue trivial
  | i :: w =>
    have := decidableReadInTime clksPerBit (s.step clksPerBit i) w
    inferInstanceAs (Decidable ((s.b.completes clksPerBit → s.b.dr = true →
      rbrRead i.reqB s.b = true) ∧ ReadInTime clksPerBit (s.step clksPerBit i) w))

/-- The bytes the receiver latches, read or not. -/
def latched (clksPerBit : ℕ) (s : SerialLink) : List LinkIn → List (BitVec 8)
  | [] => []
  | i :: w => (if s.b.completes clksPerBit then [s.b.rxShiftReg] else []) ++
      latched clksPerBit (s.step clksPerBit i) w

variable {C : ℕ} {s : SerialLink} {i : LinkIn} {p : Phase}

theorem run_append (s : SerialLink) (v w : List LinkIn) :
    s.run C (v ++ w) = (s.run C v).run C w := by
  induction v generalizing s with
  | nil => rfl
  | cons i v ih => exact ih (s.step C i)

theorem latched_append (s : SerialLink) (v w : List LinkIn) :
    s.latched C (v ++ w) = s.latched C v ++ (s.run C v).latched C w := by
  induction v generalizing s with
  | nil => rfl
  | cons i v ih => rw [List.cons_append, latched, latched, ih, List.append_assoc, run]

/-! ## Both ends follow the line -/

/-- The two machines are where the line says they are. -/
def Follows (C : ℕ) (s : SerialLink) : Phase → Prop
  | none => s.a.txState = .idle ∧ s.a.tx = true ∧ s.b.rxState = .idle ∧ s.b.rxPrev = true
  | some (n, d) => n ≤ 10 * C ∧ TxPos C s.a n ∧ s.a.txShiftReg = d ∧ s.a.tx = level C d n ∧
      RxPos C d s.b n

theorem follows_reset (a b : Uart) : Follows C (reset a b) none := ⟨rfl, rfl, rfl, rfl⟩

theorem accepted_of_idle (h : s.a.txState = .idle) :
    s.accepted i = if thrWrite i.reqA s.a then some (i.reqA.data.setWidth 8) else none := by
  rw [accepted, (thre_iff s.a).mpr h, Bool.and_true]

/-- From an idle transmitter and a receiver that is back in idle, the line is free or takes the
byte written. -/
theorem follows_accept (hC : 2 ≤ C) (hs : s.a.txState = .idle)
    (hr : (s.step C i).b.rxState = .idle) (hp : (s.step C i).b.rxPrev = true) :
    Follows C (s.step C i) ((s.accepted i).map (0, ·)) := by
  rw [accepted_of_idle hs]
  cases hw : thrWrite i.reqA s.a with
  | false =>
    obtain ⟨hidle, htx⟩ := step_tx_idle (C := C) (r := i.rxA) hs hw
    exact ⟨hidle, htx, hr, hp⟩
  | true =>
    obtain ⟨hpos, hshift, htx⟩ := step_tx_accept (r := i.rxA) (show 0 < C by omega) hs hw
    exact ⟨Nat.zero_le _, hpos, hshift, htx, .wait (by omega) hr hp⟩

theorem follows_step (hC : 2 ≤ C) (h : Follows C s p) :
    Follows C (s.step C i) (p.next C (s.accepted i)) := by
  rcases p with _ | ⟨n, d⟩
  · obtain ⟨hs, htx, hr, hp⟩ := h
    refine follows_accept hC hs ?_ ?_
    · show (stepRx C (rbrRead i.reqB s.b) s.a.tx s.b).rxState = .idle
      simp [stepRx, hr, hp, htx]
    · show (stepRx C (rbrRead i.reqB s.b) s.a.tx s.b).rxPrev = true
      simp [stepRx, hr, hp, htx]
  · obtain ⟨hn, htp, hd, htx, hrp⟩ := h
    have hrx : RxPos C d (s.step C i).b (n + 1) := by
      refine RxPos.of_stepRx ?_
      rw [htx]
      exact hrp.stepRx hC hn
    rw [Phase.next]
    split_ifs with hlt
    · obtain ⟨hpos, hshift, hline⟩ := htp.step (r := i.rxA) (q := i.reqA) hlt
      exact ⟨hlt, hpos, hshift.trans hd, hline.trans (by rw [hd]), hrx⟩
    · obtain rfl : n = 10 * C := by omega
      obtain ⟨hr, hp⟩ := hrx.idle_of_end hC (by omega)
      exact follows_accept hC (htp.idle_of_end rfl) hr hp

theorem completes_iff (hC : 2 ≤ C) (h : Follows C s p) :
    s.b.completes C ↔ ∃ d, p = some (9 * C + C / 2 + 1, d) := by
  rcases p with _ | ⟨n, d⟩
  · obtain ⟨-, -, hr, -⟩ := h
    simp [completes, hr]
  · obtain ⟨-, -, -, -, hrp⟩ := h
    rw [hrp.completes_iff hC]
    simp

theorem inFlight_accepted (o : Option (BitVec 8)) :
    Phase.inFlight C (o.map (0, ·)) = o.toList := by
  cases o <;> simp [Phase.inFlight, deliveryTime]

/-- One edge moves bytes from the line to the receiver and from the bus to the line. -/
theorem inFlight_step (hC : 2 ≤ C) (h : Follows C s p) :
    p.inFlight C ++ (s.accepted i).toList =
      (if s.b.completes C then [s.b.rxShiftReg] else []) ++
        (p.next C (s.accepted i)).inFlight C := by
  rcases p with _ | ⟨n, d⟩
  · have hnc : ¬s.b.completes C := by simp [completes_iff hC h]
    rw [if_neg hnc, Phase.next, inFlight_accepted]
    rfl
  · obtain ⟨hn, htp, hd, htx, hrp⟩ := h
    have hnone : n < 10 * C → s.accepted i = none := fun hlt ↦ by
      simp [accepted, htp.thre_eq_false hlt]
    rw [Phase.next]
    by_cases hc : s.b.completes C
    · have hlast := (hrp.completes_iff hC).mp hc
      rw [if_pos hc, hrp.rxShiftReg_eq hc, Phase.inFlight,
        if_pos (by unfold deliveryTime; omega)]
      split_ifs with hlt
      · rw [hnone hlt, Phase.inFlight, if_neg (by unfold deliveryTime; omega)]
        rfl
      · rw [inFlight_accepted]
    · have hlast := mt (hrp.completes_iff hC).mpr hc
      rw [if_neg hc, List.nil_append]
      split_ifs with hlt
      · have hiff : n < deliveryTime C ↔ n + 1 < deliveryTime C := by unfold deliveryTime; omega
        simp [hnone hlt, Phase.inFlight, hiff]
      · rw [inFlight_accepted, Phase.inFlight, if_neg (by unfold deliveryTime; omega),
          List.nil_append]

theorem follows_run (hC : 2 ≤ C) (w : List LinkIn) (h : Follows C s p) :
    ∃ p', Follows C (s.run C w) p' ∧
      p.inFlight C ++ s.sent C w = s.latched C w ++ p'.inFlight C := by
  induction w generalizing s p with
  | nil => exact ⟨p, h, by simp [sent, latched]⟩
  | cons i w ih =>
    obtain ⟨p', hp', heq⟩ := ih (follows_step (i := i) hC h)
    refine ⟨p', hp', ?_⟩
    rw [sent, latched, ← List.append_assoc, inFlight_step hC h, List.append_assoc, heq,
      List.append_assoc]

/-- What is on the line is latched before its delivery time is over. -/
theorem inFlight_latched (hC : 2 ≤ C) {n : ℕ} {d : BitVec 8} (w : List LinkIn)
    (h : Follows C s (some (n, d))) (hw : deliveryTime C ≤ n + w.length) :
    Phase.inFlight C (some (n, d)) <+: s.latched C w := by
  induction w generalizing s n with
  | nil =>
    rw [Phase.inFlight, if_neg (by simpa using hw)]
    exact List.nil_prefix
  | cons i w ih =>
    by_cases hn : n < deliveryTime C
    · have hrp : RxPos C d s.b n := h.2.2.2.2
      rw [Phase.inFlight, if_pos hn, latched]
      by_cases hc : s.b.completes C
      · rw [if_pos hc, hrp.rxShiftReg_eq hc]
        exact List.prefix_append _ _
      · have hlast := mt (hrp.completes_iff hC).mpr hc
        rw [deliveryTime] at hn
        have hnext := follows_step (i := i) hC h
        rw [Phase.next, if_pos (by omega)] at hnext
        have hrest := ih hnext (by rw [List.length_cons] at hw; omega)
        rw [Phase.inFlight, if_pos (by unfold deliveryTime; omega)] at hrest
        rwa [if_neg hc]
    · rw [Phase.inFlight, if_neg hn]
      exact List.nil_prefix

/-! ## What the receiver's software sees -/

theorem step_b_of_completes (h : s.b.completes C) :
    (s.step C i).b.dr = true ∧ (s.step C i).b.rxDataReg = s.b.rxShiftReg := by
  rw [dr_eq]
  exact stepRx_completes h

theorem step_b_of_not_completes (h : ¬s.b.completes C) :
    (s.step C i).b.dr = (s.b.dr && !rbrRead i.reqB s.b) ∧
      (s.step C i).b.rxDataReg = s.b.rxDataReg := by
  rw [dr_eq, dr_eq]
  exact stepRx_not_completes h

theorem unread_reset (a b : Uart) : (reset a b).unread = [] := by
  rw [unread, dr_eq]
  rfl

/-- Read in time, every latched byte sets `DR`, and nothing else does. -/
theorem arrivals_eq_latched (w : List LinkIn) (h : ReadInTime C s w) :
    s.arrivals C w = s.latched C w := by
  induction w generalizing s with
  | nil => rfl
  | cons i w ih =>
    obtain ⟨hread, hrest⟩ := h
    rw [arrivals, latched, ih hrest]
    congr 1
    by_cases hc : s.b.completes C
    · obtain ⟨hdr, hdata⟩ := step_b_of_completes (i := i) hc
      have hset : s.drSet C i = true := by
        rw [drSet, hdr, Bool.true_and]
        cases hold : s.b.dr with
        | false => rfl
        | true => rw [hread hc hold]; rfl
      rw [if_pos hset, if_pos hc, hdata]
    · obtain ⟨hdr, hdata⟩ := step_b_of_not_completes (i := i) hc
      have hset : s.drSet C i = false := by
        rw [drSet, hdr]
        cases s.b.dr <;> cases rbrRead i.reqB s.b <;> rfl
      rw [if_neg (by simp [hset]), if_neg hc]

theorem readData_of_rbrRead {q : BusReq 32} {u : Uart} (h : rbrRead q u = true) :
    (u.readData q.addr).setWidth 8 = u.rxDataReg := by
  simp only [rbrRead, Bool.and_eq_true, beq_iff_eq, Bool.not_eq_true'] at h
  obtain ⟨⟨-, hsel⟩, hdlab⟩ := h
  simp [readData, hsel, hdlab]

/-- The reads take the latched bytes one by one. -/
theorem received_unread (w : List LinkIn) (h : ReadInTime C s w) :
    s.received C w ++ (s.run C w).unread = s.unread ++ s.latched C w := by
  induction w generalizing s with
  | nil => simp [received, run, latched]
  | cons i w ih =>
    obtain ⟨hread, hrest⟩ := h
    rw [received, run, latched, List.append_assoc, ih hrest, ← List.append_assoc,
      ← List.append_assoc]
    congr 1
    by_cases hc : s.b.completes C
    · obtain ⟨hdr, hdata⟩ := step_b_of_completes (i := i) hc
      cases hold : s.b.dr with
      | false => simp [unread, hdr, hdata, hold, hc]
      | true =>
        have hrd := hread hc hold
        simp [unread, hdr, hdata, hold, hc, hrd, readData_of_rbrRead hrd]
    · obtain ⟨hdr, hdata⟩ := step_b_of_not_completes (i := i) hc
      cases hrd : rbrRead i.reqB s.b with
      | false => simp [unread, hdr, hdata, hrd, hc]
      | true => simp [unread, hdr, hrd, hc, readData_of_rbrRead hrd]

/-- Every byte written to `THR` while `THRE` is set reaches the other end once, in order and
unaltered, within `deliveryTime` cycles and whatever the gaps; read in time, the reads of `RBR`
return these bytes.  A read of `RBR` on a completing edge returns the byte before and leaves the
new byte's `DR` set. -/
theorem serial_roundTrip (hC : 2 ≤ C) (a b : Uart) (w : List LinkIn) :
    (ReadInTime C (reset a b) w →
      (reset a b).arrivals C w <+: (reset a b).sent C w ∧
      (∀ v t, v ++ t = w → deliveryTime C ≤ t.length →
        (reset a b).sent C v <+: (reset a b).arrivals C w) ∧
      (reset a b).received C w ++ ((reset a b).run C w).unread = (reset a b).arrivals C w) ∧
    ∀ v i t, v ++ i :: t = w → ((reset a b).run C v).b.completes C →
      rbrRead i.reqB ((reset a b).run C v).b = true →
        ((reset a b).run C (v ++ [i])).b.dr = true ∧
          ((reset a b).run C (v ++ [i])).b.rxDataReg = ((reset a b).run C v).b.rxShiftReg := by
  refine ⟨fun h ↦ ?_, ?_⟩
  · obtain ⟨p, hp, heq⟩ := follows_run hC w (follows_reset a b)
    have hunread := received_unread w h
    rw [unread_reset, List.nil_append] at hunread
    rw [arrivals_eq_latched w h]
    refine ⟨⟨p.inFlight C, heq.symm⟩, ?_, hunread⟩
    rintro v t rfl ht
    obtain ⟨p', hp', heq'⟩ := follows_run hC v (follows_reset a b)
    have hflight : p'.inFlight C <+: ((reset a b).run C v).latched C t := by
      rcases p' with _ | ⟨n, d⟩
      · exact List.nil_prefix
      · exact inFlight_latched hC t hp' (by omega)
    have hsent : (reset a b).sent C v = (reset a b).latched C v ++ p'.inFlight C := heq'
    rw [latched_append, hsent]
    exact (List.prefix_append_right_inj _).mpr hflight
  · rintro v i t rfl hc -
    rw [run_append]
    exact step_b_of_completes hc

def idleReq : BusReq 32 :=
  { cyc := false, stb := false, we := false, addr := 0, data := 0, funct3 := 0 }

def quiet : LinkIn := ⟨idleReq, idleReq, true⟩

def writeThr (d : BitVec 8) : LinkIn :=
  { quiet with
    reqA := { idleReq with cyc := true, stb := true, we := true, data := d.setWidth 32 } }

def readRbr : LinkIn := { quiet with reqB := { idleReq with cyc := true, stb := true } }

/-- Two bytes with no gap between them. -/
def backToBack : List LinkIn :=
  writeThr 0xA5#8 :: List.replicate 20 quiet ++
    writeThr 0x3C#8 :: readRbr :: List.replicate 20 quiet

theorem serial_roundTrip_backToBack :
    2 ≤ 2 ∧ ReadInTime 2 (reset default default) backToBack ∧
      (reset default default).arrivals 2 backToBack = [0xA5#8, 0x3C#8] := by
  have hread : ReadInTime 2 (reset default default) backToBack := by decide +kernel
  have hsent : (reset default default).sent 2 backToBack = [0xA5#8, 0x3C#8] := by decide +kernel
  obtain ⟨hle, hge, -⟩ := (serial_roundTrip le_rfl default default backToBack).1 hread
  have hge' := hge (backToBack.take 22) (backToBack.drop 22) (List.take_append_drop _ _) (by decide)
  have hsent' : (reset default default).sent 2 (backToBack.take 22) = [0xA5#8, 0x3C#8] := by
    decide +kernel
  rw [hsent] at hle
  rw [hsent'] at hge'
  exact ⟨le_rfl, hread, hle.eq_of_length (le_antisymm hle.length_le hge'.length_le)⟩

end SerialLink

end RvPipeline
