import RvPipeline.Design.Memory

/-!
# Address translation

`Tlb.v` and `Tlb39.v` differ only in the width of the page number, and `Ptw.v`
and `Ptw39.v` only in the number of levels, so each pair is one definition here:
`XLEN = 32` selects Sv32, every other width Sv39.
-/

namespace RvPipeline

variable {w : ℕ}

/-- `VPN_WIDTH`: `va[31:12]` under Sv32, `va[38:12]` under Sv39. -/
def vpnWidth (w : ℕ) : ℕ := if w = 32 then 20 else 27

/-- The virtual page number. -/
def vpnOf (va : BitVec w) : BitVec 27 := (va.extractLsb' 12 (vpnWidth w)).setWidth 27

/-- The permission bits of a leaf. -/
structure Perm where
  r : Bool
  w : Bool
  x : Bool
  u : Bool
  deriving DecidableEq, Repr, Inhabited

/-! ## `Tlb.v`, `Tlb39.v` -/

structure TlbEntry where
  valid : Bool
  tag : BitVec 27
  ppn : BitVec 20
  perm : Perm
  deriving DecidableEq, Repr, Inhabited

/-- Sixteen direct-mapped entries, indexed by the low page-number bits. -/
abbrev Tlb := BitVec 4 → TlbEntry

namespace Tlb

def indexOf (va : BitVec w) : BitVec 4 := (vpnOf va).setWidth 4

def entry (t : Tlb) (va : BitVec w) : TlbEntry := t (indexOf va)

def hit (t : Tlb) (va : BitVec w) : Bool :=
  (t.entry va).valid && (t.entry va).tag == vpnOf va

/-- Reset and `flush_all` clear the valid bits only. -/
def invalidate (t : Tlb) : Tlb := fun n ↦ { t n with valid := false }

def fill (va : BitVec w) (ppn : BitVec 20) (perm : Perm) (t : Tlb) : Tlb := fun n ↦
  if n = indexOf va then { valid := true, tag := vpnOf va, ppn := ppn, perm := perm } else t n

def step (flushAll fillValid : Bool) (va : BitVec w) (ppn : BitVec 20) (perm : Perm)
    (t : Tlb) : Tlb :=
  if flushAll then t.invalidate else if fillValid then t.fill va ppn perm else t

end Tlb

/-! ## `Ptw.v`, `Ptw39.v` -/

inductive PtwState where
  | idle
  | wait (level : ℕ)
  | decode (level : ℕ)
  deriving DecidableEq, Repr, Inhabited

/-- The registers of the walker.  `vpn` holds all the `vpnN_r` fields side by side. -/
structure Ptw (w : ℕ) where
  state : PtwState
  vpn : BitVec 27
  satpPpn : BitVec 44
  isFetch : Bool
  isStore : Bool
  privIsU : Bool
  pte : BitVec w
  busy : Bool
  done : Bool
  fault : Bool
  resultPpn : BitVec 20
  resultPerm : Perm
  deriving Inhabited

namespace Ptw

/-- Bits of page number one level consumes. -/
def vpnBits (w : ℕ) : ℕ := if w = 32 then 10 else 9

def topLevel (w : ℕ) : ℕ := if w = 32 then 1 else 2

/-- `log2` of the size of a table entry. -/
def pteShift (w : ℕ) : ℕ := if w = 32 then 2 else 3

def reset (p : Ptw w) : Ptw w :=
  { p with state := .idle, busy := false, done := false, fault := false }

def ptePpn20 (p : Ptw w) : BitVec 20 := p.pte.extractLsb' 10 20

def mCyc (p : Ptw w) : Bool :=
  match p.state with
  | .wait _ => true
  | _ => false

/-- `vpnN_r`, widened for the address of the entry. -/
def vpnField (p : Ptw w) (level : ℕ) : BitVec 32 :=
  (p.vpn.extractLsb' (vpnBits w * level) (vpnBits w)).setWidth 32

/-- `m_addr`; the root comes from `satp`, every other table from the last entry. -/
def mAddr (p : Ptw w) : BitVec w :=
  let tableBase (ppn : BitVec 20) : BitVec 32 := ppn ++ 0#12
  match p.state with
  | .wait level =>
    let base := if level = topLevel w then p.satpPpn.setWidth 20 else p.ptePpn20
    (tableBase base ||| (p.vpnField level <<< pteShift w)).setWidth w
  | _ => (tableBase p.ptePpn20 ||| (p.vpnField 0 <<< pteShift w)).setWidth w

def pteValid (p : Ptw w) : Bool := p.pte.getLsbD pteVBit

def isLeaf (p : Ptw w) : Bool :=
  p.pte.getLsbD pteRBit || p.pte.getLsbD pteWBit || p.pte.getLsbD pteXBit

def permOf (p : Ptw w) : Perm :=
  { r := p.pte.getLsbD pteRBit, w := p.pte.getLsbD pteWBit
    x := p.pte.getLsbD pteXBit, u := p.pte.getLsbD pteUBit }

/-- The access is permitted by the leaf in `pte`. -/
def permitted (p : Ptw w) : Bool :=
  (if p.isFetch then p.permOf.x else if p.isStore then p.permOf.w else p.permOf.r) &&
    (if p.privIsU then p.permOf.u else !p.permOf.u)

/-- A superpage whose low physical page bits are not zero. -/
def misaligned (p : Ptw w) (level : ℕ) : Bool :=
  p.pte.extractLsb' 10 (vpnBits w * level) != 0

/-- The physical page: the leaf's bits above the level, the address's below it. -/
def leafPpn (p : Ptw w) (level : ℕ) : BitVec 20 :=
  let low := vpnBits w * level
  (p.ptePpn20 >>> low) <<< low ||| (p.vpn.setWidth low).setWidth 20

def failWalk (p : Ptw w) : Ptw w :=
  { p with state := .idle, busy := false, done := true, fault := true }

def succeed (p : Ptw w) (level : ℕ) : Ptw w :=
  { p with
    state := .idle, busy := false, done := true, fault := false
    resultPpn := p.leafPpn level
    resultPerm := p.permOf }

/-- The decode states: a missing, misaligned, unpermitted or too-deep entry faults. -/
def decodeStep (p : Ptw w) (level : ℕ) : Ptw w :=
  if !p.pteValid then p.failWalk
  else if p.isLeaf then
    if p.misaligned level then p.failWalk
    else if p.permitted then p.succeed level
    else p.failWalk
  else if level = 0 then p.failWalk
  else { p with state := .wait (level - 1), done := false }

/-- One clock edge. -/
def step (start : Bool) (vaddr : BitVec w) (satpPpn : BitVec 44) (isFetch isStore privIsU : Bool)
    (mDataI : BitVec w) (mAck : Bool) (p : Ptw w) : Ptw w :=
  match p.state with
  | .idle =>
    if start && !p.busy && !p.done then
      { p with
        vpn := vpnOf vaddr, satpPpn := satpPpn, isFetch := isFetch, isStore := isStore
        privIsU := privIsU, busy := true, done := false, state := .wait (topLevel w) }
    else { p with done := false }
  | .wait level =>
    if mAck then { p with pte := mDataI, state := .decode level, done := false }
    else { p with done := false }
  | .decode level => p.decodeStep level

end Ptw

end RvPipeline
