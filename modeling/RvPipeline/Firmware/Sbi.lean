import RvPipeline.Design.Defs
import Mathlib.Logic.Function.Basic

/-!
# `sbi_dispatch`

The handler of `sim/firmware/sbi.c`.  What it does to the devices and to `mip` is a list of
accesses; what the volatile reads among them return is given to it.
-/

namespace RvPipeline

namespace Sbi

/-! ## Volatile accesses -/

/-- An access to the UART, to `mtimecmp`, to `mip` or through a pointer of the caller. -/
inductive Access where
  | uartRead (off : BitVec 64)
  | uartWrite (off : BitVec 64) (v : BitVec 32)
  | mtimecmp (v : BitVec 64)
  | mipSet (mask : BitVec 64)
  | mipClear (mask : BitVec 64)
  | load (addr : BitVec 64)
  deriving DecidableEq

/-- What the reads to come return, and the accesses so far. -/
structure Volatiles where
  answers : List (BitVec 64)
  accesses : List Access

/-- A function of the firmware; `none` if it does not return with these answers. -/
abbrev Firmware := StateT Volatiles Option

def access (a : Access) : Firmware Unit := fun s ↦
  some ((), { s with accesses := s.accesses ++ [a] })

/-- A read, answered by the next answer. -/
def read (a : Access) : Firmware (BitVec 64) := fun s ↦
  match s.answers with
  | [] => none
  | v :: answers => some (v, { answers := answers, accesses := s.accesses ++ [a] })

/-! ## The UART -/

def uartThrRbr : BitVec 64 := 0x00
def uartLsr : BitVec 64 := 0x14
def uartLsrDr : ℕ := 0
def uartLsrThre : ℕ := 5

def uartReg (off : BitVec 64) : Firmware (BitVec 32) := do
  return (← read (.uartRead off)).setWidth 32

/-- The loop of `uart_putchar` up to a read that has `UART_LSR_THRE`. -/
def awaitThre : List (BitVec 64) → List Access → Option Volatiles
  | [], _ => none
  | v :: answers, accesses =>
    let accesses := accesses ++ [.uartRead uartLsr]
    if v.getLsbD uartLsrThre then some { answers := answers, accesses := accesses }
    else awaitThre answers accesses

def uartPutchar (c : BitVec 8) : Firmware Unit := do
  (fun s ↦ (awaitThre s.answers s.accesses).map fun s ↦ ((), s) : Firmware Unit)
  access (.uartWrite uartThrRbr (c.setWidth 32))

/-- `uart_getchar`, an `int`. -/
def uartGetchar : Firmware (BitVec 32) := do
  if !(← uartReg uartLsr).getLsbD uartLsrDr then
    return -1
  else
    return (← uartReg uartThrRbr) &&& 0xFF#32

/-! ## Extensions -/

def success : BitVec 64 := 0
def errNotSupp : BitVec 64 := -2

def eidSetTimer : BitVec 64 := 0x00
def eidConsolePutchar : BitVec 64 := 0x01
def eidConsoleGetchar : BitVec 64 := 0x02
def eidClearIpi : BitVec 64 := 0x03
def eidSendIpi : BitVec 64 := 0x04
def eidRemoteFenceI : BitVec 64 := 0x05
def eidRemoteSfenceVma : BitVec 64 := 0x06
def eidRemoteSfenceAsid : BitVec 64 := 0x07
def eidShutdown : BitVec 64 := 0x08
def eidBase : BitVec 64 := 0x10
def eidTime : BitVec 64 := 0x54494D45
def eidIpi : BitVec 64 := 0x00735049
def eidRfence : BitVec 64 := 0x52464E43

def mipSsipBit : ℕ := 1
def mipStipBit : ℕ := 5

def mcauseEcallFromS : BitVec 64 := 9
def mcauseIntMachineTimer : BitVec 64 := 0x80000007

def setTimer (target : BitVec 64) : Firmware Unit := do
  access (.mtimecmp target)
  access (.mipClear (BitVec.twoPow 64 mipStipBit))

/-- `PROBE_EXTENSION`. -/
def probeExtension (eid : BitVec 64) : BitVec 64 :=
  if eid ≤ eidShutdown ∨ eid = eidBase ∨ eid = eidTime ∨ eid = eidIpi ∨ eid = eidRfence then 1 else 0

/-- The functions of the base extension; the error and the value. -/
def base (specVersion fid a0 : BitVec 64) : BitVec 64 × BitVec 64 :=
  if fid = 0 then (success, specVersion)
  else if fid = 1 then (success, 0x5350355253)
  else if fid = 2 then (success, 1)
  else if fid = 3 then (success, probeExtension a0)
  else if fid = 4 ∨ fid = 5 ∨ fid = 6 then (success, 0)
  else (errNotSupp, 0)

/-- The switch of `sbi_dispatch_ecall`: `err` and `val`; `specVersion` is
`SPEC_VERSION_TO_REPORT`. -/
def call (specVersion eid fid a0 a1 : BitVec 64) : Firmware (BitVec 64 × BitVec 64) := do
  if eid = eidBase then return base specVersion fid a0
  else if eid = eidSetTimer then
    setTimer a0
    return (success, 0)
  else if eid = eidTime then
    if fid = 0 then
      setTimer a0
      return (success, 0)
    else return (errNotSupp, 0)
  else if eid = eidConsolePutchar then
    uartPutchar (a0.setWidth 8)
    return (success, 0)
  else if eid = eidConsoleGetchar then
    let c ← uartGetchar
    return (success, c.signExtend 64)
  else if eid = eidClearIpi then
    access (.mipClear (BitVec.twoPow 64 mipSsipBit))
    return (success, 0)
  else if eid = eidSendIpi then
    let mask ← read (.load a0)
    if mask.getLsbD 0 then access (.mipSet (BitVec.twoPow 64 mipSsipBit))
    return (success, 0)
  else if eid = eidIpi then
    if fid = 0 then
      if a0.getLsbD 0 ∧ a1 = 0 then access (.mipSet (BitVec.twoPow 64 mipSsipBit))
      return (success, 0)
    else return (errNotSupp, 0)
  else if eid = eidRemoteFenceI ∨ eid = eidRemoteSfenceVma ∨ eid = eidRemoteSfenceAsid then
    return (success, 0)
  else if eid = eidRfence then
    if fid = 0 ∨ fid = 1 ∨ fid = 2 then return (success, 0) else return (errNotSupp, 0)
  -- `halt_forever`
  else if eid = eidShutdown then StateT.lift none
  else return (errNotSupp, 0)

/-! ## Dispatch -/

/-- The registers saved by the trap entry. -/
abbrev Regs := BitVec 5 → BitVec 64

def regA0 : BitVec 5 := 10
def regA1 : BitVec 5 := 11
def regA6 : BitVec 5 := 16
def regA7 : BitVec 5 := 17

def dispatchEcall (specVersion : BitVec 64) (regs : Regs) : Firmware Regs := do
  let (err, val) ← call specVersion (regs regA7) (regs regA6) (regs regA0) (regs regA1)
  return Function.update (Function.update regs regA0 err) regA1 val

/-- `sbi_dispatch`. -/
def dispatch (specVersion mcause : BitVec 64) (regs : Regs) : Firmware Regs :=
  if mcause = mcauseEcallFromS then dispatchEcall specVersion regs
  else if mcause = mcauseIntMachineTimer then do
    access (.mtimecmp (-1))
    access (.mipSet (BitVec.twoPow 64 mipStipBit))
    return regs
  else StateT.lift none

/-- The registers a function leaves and its accesses, when it returns. -/
def outcome (f : Firmware Regs) (answers : List (BitVec 64)) : Option (Regs × List Access) :=
  (f { answers := answers, accesses := [] }).map fun r ↦ (r.1, r.2.accesses)

end Sbi

end RvPipeline
