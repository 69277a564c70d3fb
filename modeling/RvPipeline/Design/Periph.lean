import RvPipeline.Design.Memory

/-!
# Bus decoder and peripherals

`WbDecoder.v`, `Timer.v` and `Uart.v`.
-/

namespace RvPipeline

variable {w : ℕ}

/-! ## `WbDecoder.v` -/

/-- `hit[g]`: the address is in the half-open window `[base, base + size)`.  The
sum is taken at `XLEN` bits. -/
def wbHit (base size : ℕ) (addr : BitVec w) : Bool :=
  decide (BitVec.ofNat w base ≤ addr) &&
    decide (addr < BitVec.ofNat w base + BitVec.ofNat w size)

/-- The request as slave `g` sees it. -/
def BusReq.select (q : BusReq w) (hit : Bool) : BusReq w :=
  { q with cyc := q.cyc && hit, stb := q.stb && hit }

/-- The read-back mux: the last slave whose window holds the address wins. -/
def wbSelect {α : Type} (none : α) (slaves : List (Bool × α)) : α :=
  slaves.foldl (fun acc s ↦ if s.1 then s.2 else acc) none

/-! ## `Timer.v` -/

structure Timer where
  msip : BitVec 32
  mtime : BitVec 64
  mtimecmp : BitVec 64
  deriving DecidableEq, Repr, Inhabited

namespace Timer

def reset : Timer := { msip := 0, mtime := 0, mtimecmp := 0 }

def pending (t : Timer) : Bool := decide (t.mtimecmp ≤ t.mtime)

def msipPending (t : Timer) : Bool := t.msip.getLsbD 0

def ack (q : BusReq w) : Bool := q.cyc && q.stb

/-- Replacement of one half of a 64-bit register. -/
def setLo (r : BitVec 64) (v : BitVec 32) : BitVec 64 := r.extractLsb' 32 32 ++ v
def setHi (r : BitVec 64) (v : BitVec 32) : BitVec 64 := v ++ r.extractLsb' 0 32

def step (q : BusReq w) (t : Timer) : Timer :=
  let busWrite := q.cyc && q.stb && q.we
  let off := q.addr.setWidth 16
  let v32 := q.data.setWidth 32
  let v64 := q.data.setWidth 64
  { msip := if busWrite && off == clintOffMsip then v32 else t.msip
    mtimecmp :=
      if busWrite && off == clintOffMtimecmp then
        if 64 ≤ w then v64 else setLo t.mtimecmp v32
      else if busWrite && off == clintOffMtimecmp + 4#16 && decide (w < 64) then
        setHi t.mtimecmp v32
      else t.mtimecmp
    mtime :=
      if busWrite && off == clintOffMtime then
        if 64 ≤ w then v64 else setLo t.mtime v32
      else if busWrite && off == clintOffMtime + 4#16 && decide (w < 64) then
        setHi t.mtime v32
      else t.mtime + 1 }

/-- `s_data_i`. -/
def readData (addr : BitVec w) (t : Timer) : BitVec w :=
  let off := addr.setWidth 16
  if off = clintOffMsip then t.msip.setWidth w
  else if off = clintOffMtimecmp then
    if 64 ≤ w then t.mtimecmp.setWidth w else (t.mtimecmp.extractLsb' 0 32).setWidth w
  else if off = clintOffMtimecmp + 4#16 ∧ w < 64 then (t.mtimecmp.extractLsb' 32 32).setWidth w
  else if off = clintOffMtime then
    if 64 ≤ w then t.mtime.setWidth w else (t.mtime.extractLsb' 0 32).setWidth w
  else if off = clintOffMtime + 4#16 ∧ w < 64 then (t.mtime.extractLsb' 32 32).setWidth w
  else 0

end Timer

/-! ## `Uart.v` -/

/-- The state encoding the transmitter and the receiver share. -/
inductive SerialState where
  | idle | start | data | stop
  deriving DecidableEq, Repr, Inhabited

/-- The registers of `Uart.v`. -/
structure Uart where
  ier : BitVec 8
  lcr : BitVec 8
  mcr : BitVec 8
  scr : BitVec 8
  dll : BitVec 8
  dlm : BitVec 8
  txState : SerialState
  txClkCount : ℕ
  txBitIndex : BitVec 3
  txShiftReg : BitVec 8
  tx : Bool
  rxState : SerialState
  rxClkCount : ℕ
  rxBitIndex : BitVec 3
  rxShiftReg : BitVec 8
  rxDataReg : BitVec 8
  rxReady : Bool
  rxPrev : Bool
  deriving DecidableEq, Repr, Inhabited

namespace Uart

/-- The shift registers have no reset arm. -/
def reset (u : Uart) : Uart :=
  { ier := 0, lcr := 0, mcr := 0, scr := 0, dll := 0, dlm := 0
    txState := .idle, txClkCount := 0, txBitIndex := 0, txShiftReg := u.txShiftReg, tx := true
    rxState := .idle, rxClkCount := 0, rxBitIndex := 0, rxShiftReg := u.rxShiftReg
    rxDataReg := 0, rxReady := false, rxPrev := true }

def dlab (u : Uart) : Bool := u.lcr.getLsbD 7

def txBusy (u : Uart) : Bool := u.txState != .idle

def pendingRx (u : Uart) : Bool := u.ier.getLsbD 0 && u.rxReady

def pendingThr (u : Uart) : Bool := u.ier.getLsbD 1 && !u.txBusy

def irq (u : Uart) : Bool := u.pendingRx || u.pendingThr

def regSel (addr : BitVec 32) : ℕ := (addr.extractLsb' 2 3).toNat

/-- `CNT_WIDTH`-bit increment. -/
def tick (clksPerBit n : ℕ) : ℕ := (n + 1) % 2 ^ clog2 (clksPerBit + 1)

/-- The programmable registers. -/
def stepRegs (busWrite : Bool) (sel : ℕ) (d : BitVec 8) (u : Uart) : Uart :=
  if busWrite then
    match sel with
    | 0 => if u.dlab then { u with dll := d } else u
    | 1 => if u.dlab then { u with dlm := d } else { u with ier := d }
    | 3 => { u with lcr := d }
    | 4 => { u with mcr := d }
    | 7 => { u with scr := d }
    | _ => u
  else u

/-- The transmitter. -/
def stepTx (clksPerBit : ℕ) (thrWrite : Bool) (d : BitVec 8) (u : Uart) : Uart :=
  let last := u.txClkCount + 1 == clksPerBit
  match u.txState with
  | .idle =>
    if thrWrite then { u with tx := true, txShiftReg := d, txState := .start, txClkCount := 0 }
    else { u with tx := true }
  | .start =>
    if last then { u with tx := false, txClkCount := 0, txBitIndex := 0, txState := .data }
    else { u with tx := false, txClkCount := tick clksPerBit u.txClkCount }
  | .data =>
    let bit := u.txShiftReg.getLsbD u.txBitIndex.toNat
    if last then
      if u.txBitIndex = 7 then { u with tx := bit, txClkCount := 0, txState := .stop }
      else { u with tx := bit, txClkCount := 0, txBitIndex := u.txBitIndex + 1 }
    else { u with tx := bit, txClkCount := tick clksPerBit u.txClkCount }
  | .stop =>
    if last then { u with tx := true, txClkCount := 0, txState := .idle }
    else { u with tx := true, txClkCount := tick clksPerBit u.txClkCount }

/-- The receiver; `rbrRead` clears `rx_ready` unless a byte completes on this edge. -/
def stepRx (clksPerBit : ℕ) (rbrRead rx : Bool) (u : Uart) : Uart :=
  let u' := { u with rxPrev := rx, rxReady := u.rxReady && !rbrRead }
  let last := u.rxClkCount + 1 == clksPerBit
  match u.rxState with
  | .idle =>
    if u.rxPrev && !rx then { u' with rxState := .start, rxClkCount := 0 }
    else { u' with rxClkCount := 0 }
  | .start =>
    if u.rxClkCount + 1 = clksPerBit / 2 then
      if !rx then { u' with rxClkCount := 0, rxBitIndex := 0, rxState := .data }
      else { u' with rxState := .idle }
    else { u' with rxClkCount := tick clksPerBit u.rxClkCount }
  | .data =>
    if last then
      let sh := putBit u.rxShiftReg u.rxBitIndex.toNat rx
      if u.rxBitIndex = 7 then { u' with rxClkCount := 0, rxShiftReg := sh, rxState := .stop }
      else { u' with rxClkCount := 0, rxShiftReg := sh, rxBitIndex := u.rxBitIndex + 1 }
    else { u' with rxClkCount := tick clksPerBit u.rxClkCount }
  | .stop =>
    if last then
      { u' with rxDataReg := u.rxShiftReg, rxReady := true, rxState := .idle, rxClkCount := 0 }
    else { u' with rxClkCount := tick clksPerBit u.rxClkCount }

/-- One clock edge.  The three processes write disjoint registers and all of them
read the values from before the edge. -/
def step (clksPerBit : ℕ) (rx : Bool) (q : BusReq 32) (u : Uart) : Uart :=
  let busWrite := q.cyc && q.stb && q.we
  let busRead := q.cyc && q.stb && !q.we
  let sel := regSel q.addr
  let d := q.data.setWidth 8
  let r := stepRegs busWrite sel d u
  let t := stepTx clksPerBit (busWrite && sel == 0 && !u.dlab) d u
  let x := stepRx clksPerBit (busRead && sel == 0 && !u.dlab) rx u
  { ier := r.ier, lcr := r.lcr, mcr := r.mcr, scr := r.scr, dll := r.dll, dlm := r.dlm
    txState := t.txState, txClkCount := t.txClkCount, txBitIndex := t.txBitIndex
    txShiftReg := t.txShiftReg, tx := t.tx
    rxState := x.rxState, rxClkCount := x.rxClkCount, rxBitIndex := x.rxBitIndex
    rxShiftReg := x.rxShiftReg, rxDataReg := x.rxDataReg, rxReady := x.rxReady
    rxPrev := x.rxPrev }

def lsr (u : Uart) : BitVec 8 :=
  0#1 ++ BitVec.ofBool (!u.txBusy) ++ BitVec.ofBool (!u.txBusy) ++ 0#4 ++ BitVec.ofBool u.rxReady

def iir4 (u : Uart) : BitVec 4 :=
  if u.pendingRx then 0b0100#4 else if u.pendingThr then 0b0010#4 else 0b0001#4

/-- `s_data_i`. -/
def readData (addr : BitVec 32) (u : Uart) : BitVec 32 :=
  match regSel addr with
  | 0 => (if u.dlab then u.dll else u.rxDataReg).setWidth 32
  | 1 => (if u.dlab then u.dlm else u.ier).setWidth 32
  | 2 => u.iir4.setWidth 32
  | 3 => u.lcr.setWidth 32
  | 4 => u.mcr.setWidth 32
  | 5 => u.lsr.setWidth 32
  | 6 => 0
  | _ => u.scr.setWidth 32

end Uart

end RvPipeline
