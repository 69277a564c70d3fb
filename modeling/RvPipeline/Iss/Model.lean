import RvPipeline.Design.Stages
import Mathlib.Tactic

/-!
# The instruction set simulator

`ISS` of `sim/tools/iss.py`: Python integers are natural numbers and integers, masked where the
program masks them; an instruction word is 32 bits.  `raise` is `none`.  The dispatch of the
float opcodes is a parameter.
-/

namespace RvPipeline

/-! ## Integers -/

/-- `a & ~b`. -/
def andNot (a b : ℕ) : ℕ := a ^^^ (a &&& b)

/-- `uXLEN`. -/
def uXlen (v : ℤ) (xlen : ℕ) : ℕ := (v % 2 ^ xlen).toNat

/-- `sXLEN`. -/
def sXlen (v : ℤ) (xlen : ℕ) : ℤ :=
  if (uXlen v xlen).testBit (xlen - 1) then (uXlen v xlen : ℤ) - 2 ^ xlen else uXlen v xlen

def u32 (v : ℤ) : ℕ := uXlen v 32
def s32 (v : ℤ) : ℤ := sXlen v 32

/-- Bit `i` of `v`, in its place. -/
def maskBit (v i : ℕ) : ℕ := ((v >>> i) &&& 1) <<< i

/-! ## State -/

/-- What can be seen of the CSR state: the dictionary in the order of its keys, the privilege
mode, and the two float registers that are kept apart. -/
structure CsrView where
  values : List ℕ
  privMode : BitVec 2
  frm : BitVec 3
  fflags : BitVec 5
  deriving DecidableEq

/-- Integer register writes, bytes stored, and the retired addresses with the CSR state each
leaves; oldest first. -/
structure Trace where
  x : List (BitVec 5 × ℕ)
  m : List (ℕ × BitVec 8)
  c : List (ℕ × CsrView)

/-- The attributes of an `ISS` that its steps change.  No step reads `trace`, which records the
calls of `wr` and `store_mem_byte`. -/
structure Iss where
  regs : BitVec 5 → ℕ
  mem : ℕ → BitVec 8
  pc : ℕ
  csr : BitVec 12 → ℕ
  privMode : BitVec 2
  fregs : BitVec 5 → BitVec 32
  frm : BitVec 3
  fflags : BitVec 5
  trace : Trace

/-- What an `ISS` is made with; `fpStep` is the float part of `step`. -/
structure IssConfig where
  memSize : ℕ := 128
  xlen : ℕ := 32
  fpStep : BitVec 32 → Iss → Option Iss

/-- The keys of the dictionary, in the order `__init__` enters them. -/
def issCsrKeys : List (BitVec 12) :=
  [csrAddrMstatus, csrAddrMtvec, csrAddrMscratch, csrAddrMepc, csrAddrMcause, csrAddrSscratch,
    csrAddrSepc, csrAddrScause, csrAddrStval, csrAddrMtval, csrAddrStvec, csrAddrSatp,
    csrAddrMideleg, csrAddrMedeleg, csrAddrMie, csrAddrMip]

namespace Iss

/-- `__init__`. -/
def init (memSize : ℕ) : Iss :=
  { regs := fun r ↦ if r = 2 then memSize else 0
    mem := fun _ ↦ 0
    pc := 0
    csr := fun _ ↦ 0
    privMode := privM
    fregs := fun _ ↦ 0
    frm := 0
    fflags := 0
    trace := { x := [], m := [], c := [] } }

def csrView (σ : Iss) : CsrView :=
  { values := issCsrKeys.map σ.csr, privMode := σ.privMode, frm := σ.frm, fflags := σ.fflags }

section Csr

variable (C : IssConfig) (σ : Iss)

/-! ## CSRs -/

def sstatusMask : ℕ := (1 <<< mstatusSieBit) ||| (1 <<< mstatusSpieBit) ||| (1 <<< mstatusSppBit)
def sieMask : ℕ := (1 <<< mieSsieBit) ||| (1 <<< mieStieBit) ||| (1 <<< mieSeieBit)
def mstatusMask : ℕ :=
  (1 <<< 3) ||| (1 <<< 7) ||| (1 <<< mstatusSieBit) ||| (1 <<< mstatusSpieBit) |||
    (1 <<< mstatusSppBit) ||| (0b11 <<< mstatusMppLo)
def mieMask : ℕ :=
  (1 <<< mieMsieBit) ||| (1 <<< 7) ||| (1 <<< 11) ||| (1 <<< mieSsieBit) ||| (1 <<< mieStieBit) |||
    (1 <<< mieSeieBit)
def medelegMask : ℕ :=
  (1 <<< 2) ||| (1 <<< 3) ||| (1 <<< 8) ||| (1 <<< 9) ||| (1 <<< 11) ||| (1 <<< 12) |||
    (1 <<< 13) ||| (1 <<< 15)
def midelegMask : ℕ :=
  (1 <<< mieSsieBit) ||| (1 <<< mieStieBit) ||| (1 <<< mieMsieBit) ||| (1 <<< 7) |||
    (1 <<< mieSeieBit) ||| (1 <<< 11)

def csrRead (addr : BitVec 12) : ℕ :=
  if addr = csrAddrFflags then σ.fflags.toNat
  else if addr = csrAddrFrm then σ.frm.toNat
  else if addr = csrAddrFcsr then (σ.frm.toNat <<< 5) ||| σ.fflags.toNat
  else if addr = csrAddrSstatus then
    let m := σ.csr csrAddrMstatus
    maskBit m mstatusSieBit ||| maskBit m mstatusSpieBit ||| maskBit m mstatusSppBit
  else if addr = csrAddrSie then
    let e := σ.csr csrAddrMie
    maskBit e mieSsieBit ||| maskBit e mieStieBit ||| maskBit e mieSeieBit
  else if addr = csrAddrSip then
    let p := σ.csr csrAddrMip
    maskBit p mieSsieBit ||| maskBit p mieStieBit ||| maskBit p mieSeieBit
  else if addr = csrAddrMstatus ∧ C.xlen = 64 then
    σ.csr csrAddrMstatus ||| (2 <<< 32) ||| (2 <<< 34)
  else if addr ∈ issCsrKeys then σ.csr addr
  else 0

/-- Entry in the dictionary. -/
def setCsr (addr : BitVec 12) (val : ℕ) : Iss := { σ with csr := Function.update σ.csr addr val }

def csrWrite (addr : BitVec 12) (val : ℕ) : Iss :=
  if addr = csrAddrFflags then { σ with fflags := BitVec.ofNat 5 val }
  else if addr = csrAddrFrm then { σ with frm := BitVec.ofNat 3 val }
  else if addr = csrAddrFcsr then
    { σ with frm := BitVec.ofNat 3 (val >>> 5), fflags := BitVec.ofNat 5 val }
  else if addr = csrAddrSstatus then
    σ.setCsr csrAddrMstatus
      (u32 (andNot (σ.csr csrAddrMstatus) sstatusMask ||| (val &&& sstatusMask)))
  else if addr = csrAddrSie then
    σ.setCsr csrAddrMie (u32 (andNot (σ.csr csrAddrMie) sieMask ||| (val &&& sieMask)))
  else if addr = csrAddrMip ∨ addr = csrAddrSip then σ.setCsr csrAddrMip (u32 (val &&& sieMask))
  else
    let val :=
      if addr = csrAddrMstatus then val &&& mstatusMask
      else if addr = csrAddrMie then val &&& mieMask
      else if addr = csrAddrMedeleg then val &&& medelegMask
      else if addr = csrAddrMideleg then val &&& midelegMask
      else val
    if addr ∈ issCsrKeys then σ.setCsr addr (u32 val) else σ

/-! ## Traps -/

/-- The `to_s` of `trap`. -/
def trapToS (cause : ℕ) : Bool :=
  let deleg := if cause.testBit 31 then σ.csr csrAddrMideleg else σ.csr csrAddrMedeleg
  σ.privMode != privM && deleg.testBit (cause &&& 0x1F)

def trap (cause tval : ℕ) : Iss :=
  let m := σ.csr csrAddrMstatus
  if σ.trapToS cause then
    let σ := ((σ.setCsr csrAddrSepc σ.pc).setCsr csrAddrScause (u32 cause)).setCsr csrAddrStval
      (u32 tval)
    let sie := (m >>> mstatusSieBit) &&& 1
    let m := andNot m sstatusMask |||
      ((sie <<< mstatusSpieBit) ||| ((σ.privMode.toNat &&& 1) <<< mstatusSppBit))
    { σ.setCsr csrAddrMstatus (u32 m) with privMode := privS, pc := σ.csr csrAddrStvec }
  else
    let σ := ((σ.setCsr csrAddrMepc σ.pc).setCsr csrAddrMcause (u32 cause)).setCsr csrAddrMtval
      (u32 tval)
    let mie := (m >>> 3) &&& 1
    let m := andNot m ((1 <<< 3) ||| (1 <<< 7) ||| (0b11 <<< mstatusMppLo)) |||
      ((mie <<< 7) ||| (σ.privMode.toNat <<< mstatusMppLo))
    { σ.setCsr csrAddrMstatus (u32 m) with privMode := privM, pc := σ.csr csrAddrMtvec }

def mret : Iss :=
  let m := σ.csr csrAddrMstatus
  let mpie := (m >>> 7) &&& 1
  let mpp := (m >>> mstatusMppLo) &&& 0b11
  let m := andNot m ((1 <<< 3) ||| (1 <<< 7) ||| (0b11 <<< mstatusMppLo)) |||
    ((mpie <<< 3) ||| (1 <<< 7) ||| (privU.toNat <<< mstatusMppLo))
  { σ.setCsr csrAddrMstatus (u32 m) with privMode := BitVec.ofNat 2 mpp, pc := σ.csr csrAddrMepc }

def sret : Iss :=
  let m := σ.csr csrAddrMstatus
  let spie := (m >>> mstatusSpieBit) &&& 1
  let spp := (m >>> mstatusSppBit) &&& 1
  let m := andNot m sstatusMask ||| ((spie <<< mstatusSieBit) ||| (1 <<< mstatusSpieBit))
  { σ.setCsr csrAddrMstatus (u32 m) with privMode := BitVec.ofNat 2 spp, pc := σ.csr csrAddrSepc }

end Csr

section Memory

variable (C : IssConfig) (σ : Iss)

/-! ## Memory -/

def loadMemByte (addr : ℕ) : ℕ :=
  if 0x10000000 ≤ addr then 0 else (σ.mem (addr &&& (C.memSize - 1))).toNat

def storeMemByte (addr val : ℕ) : Iss :=
  if 0x10000000 ≤ addr then σ
  else
    let i := addr &&& (C.memSize - 1)
    { σ with
      mem := Function.update σ.mem i (BitVec.ofNat 8 val)
      trace := { σ.trace with m := σ.trace.m ++ [(i, BitVec.ofNat 8 val)] } }

/-- `n` bytes from `addr` on, little-endian. -/
def loadMem (addr : ℕ) : ℕ → ℕ
  | 0 => 0
  | n + 1 => loadMem addr n ||| (σ.loadMemByte C (addr + n) <<< (8 * n))

/-- The low `n` bytes of `val` to `addr` on. -/
def storeMem (σ : Iss) (addr val : ℕ) : ℕ → Iss
  | 0 => σ
  | n + 1 => (storeMem σ addr val n).storeMemByte C (addr + n) (val >>> (8 * n))

/-! ## Translation -/

inductive Access where
  | fetch | load | store
  deriving DecidableEq

def Access.faultCause : Access → ℕ
  | .fetch => mcauseInstructionPageFault
  | .load => mcauseLoadPageFault
  | .store => mcauseStorePageFault

/-- `_read_pte` and `_read_pte64`. -/
def readPte (addr size : ℕ) : ℕ := σ.loadMem C (addr &&& 0xFFFFFFFF) size

/-- `_pte_perm_ok`. -/
def ptePermOk (pte : ℕ) (access : Access) : Bool :=
  let accessBit :=
    match access with
    | .fetch => pteXBit
    | .store => pteWBit
    | .load => pteRBit
  pte.testBit accessBit &&
    (if σ.privMode = privU then pte.testBit pteUBit else !pte.testBit pteUBit)

def pteLeaf (pte : ℕ) : Bool := pte.testBit pteRBit || pte.testBit pteWBit || pte.testBit pteXBit

/-- `_translate_sv32`; a page fault has already trapped. -/
def translateSv32 (vaddr : ℕ) (access : Access) (satp : ℕ) : Except Iss ℕ :=
  let vaddr := u32 vaddr
  let vpn1 := (vaddr >>> 22) &&& 0x3FF
  let vpn0 := (vaddr >>> 12) &&& 0x3FF
  let offset := vaddr &&& 0xFFF
  let fault := Except.error (σ.trap access.faultCause vaddr)
  let pte1 := σ.readPte C (((satp &&& 0xFFFFF) <<< 12) ||| (vpn1 <<< 2)) 4
  if !pte1.testBit pteVBit then fault
  else
    let ppn1 := (pte1 >>> 10) &&& 0xFFFFF
    if pteLeaf pte1 then
      if ppn1 &&& 0x3FF ≠ 0 then fault
      else if !σ.ptePermOk pte1 access then fault
      else .ok (u32 (((((ppn1 >>> 10) <<< 10) ||| vpn0) <<< 12 ||| offset : ℕ)))
    else
      let pte0 := σ.readPte C ((ppn1 <<< 12) ||| (vpn0 <<< 2)) 4
      if !pte0.testBit pteVBit then fault
      else if !pteLeaf pte0 then fault
      else if !σ.ptePermOk pte0 access then fault
      else .ok (u32 (((((pte0 >>> 10) &&& 0xFFFFF) <<< 12) ||| offset : ℕ)))

/-- `_translate_sv39`. -/
def translateSv39 (vaddr : ℕ) (access : Access) (satp : ℕ) : Except Iss ℕ :=
  let vpn2 := (vaddr >>> 30) &&& 0x1FF
  let vpn1 := (vaddr >>> 21) &&& 0x1FF
  let vpn0 := (vaddr >>> 12) &&& 0x1FF
  let offset := vaddr &&& 0xFFF
  let fault := Except.error (σ.trap access.faultCause vaddr)
  let pte2 := σ.readPte C (((satp &&& 0xFFFFF) <<< 12) ||| (vpn2 <<< 3)) 8
  if !pte2.testBit pteVBit then fault
  else
    let ppn2 := (pte2 >>> 10) &&& 0xFFFFF
    if pteLeaf pte2 then
      if ppn2 &&& 0x3FFFF ≠ 0 then fault
      else if !σ.ptePermOk pte2 access then fault
      else .ok (uXlen (((((ppn2 >>> 18) <<< 18) ||| (vpn1 <<< 9) ||| vpn0) <<< 12 ||| offset : ℕ))
        C.xlen)
    else
      let pte1 := σ.readPte C ((ppn2 <<< 12) ||| (vpn1 <<< 3)) 8
      if !pte1.testBit pteVBit then fault
      else
        let ppn1 := (pte1 >>> 10) &&& 0xFFFFF
        if pteLeaf pte1 then
          if ppn1 &&& 0x1FF ≠ 0 then fault
          else if !σ.ptePermOk pte1 access then fault
          else .ok (uXlen (((((ppn1 >>> 9) <<< 9) ||| vpn0) <<< 12 ||| offset : ℕ)) C.xlen)
        else
          let pte0 := σ.readPte C ((ppn1 <<< 12) ||| (vpn0 <<< 3)) 8
          if !pte0.testBit pteVBit then fault
          else if !pteLeaf pte0 then fault
          else if !σ.ptePermOk pte0 access then fault
          else .ok (uXlen (((((pte0 >>> 10) &&& 0xFFFFF) <<< 12) ||| offset : ℕ)) C.xlen)

/-- `translate`; the result is the physical address, or the state after the page fault. -/
def translate (vaddr : ℕ) (access : Access) : Except Iss ℕ :=
  let satp := σ.csr csrAddrSatp
  if σ.privMode = privM then .ok (uXlen vaddr C.xlen)
  else if C.xlen = 32 then
    if !satp.testBit 31 then .ok (uXlen vaddr C.xlen) else σ.translateSv32 C vaddr access satp
  else if (satp >>> 60) &&& 0xF ≠ 8 then .ok (uXlen vaddr C.xlen)
  else σ.translateSv39 C vaddr access satp

end Memory

end Iss

end RvPipeline
