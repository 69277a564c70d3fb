import RvPipeline.Design.Csr
import RvPipeline.Design.Bits
import RvPipeline.Lib.Clocked
import Mathlib.Tactic.Set

/-!
# The CSR file as a machine of its own

What the core asks of `CSR.v` in a cycle is a CSR instruction, a trap, `mret` or `sret`.  The
privileged state of the file (the mode, and the bits of the masked registers) is a machine of
its own, which reads no other register; `CSR.v` refines it.
-/

namespace RvPipeline

variable {w : ℕ}

/-! ## Operations -/

/-- The function of a CSR instruction. -/
inductive CsrFn where
  | write | set | clear
  deriving DecidableEq

/-- `csr_op`. -/
def CsrFn.code : CsrFn → BitVec 2
  | .write => 0b01#2
  | .set => 0b10#2
  | .clear => 0b11#2

/-- One bit of `new_val`. -/
def CsrFn.bit : CsrFn → Bool → Bool → Bool
  | .write, _, b => b
  | .set, a, b => a || b
  | .clear, a, b => a && !b

/-- A CSR instruction, a trap with its resume address and value, or a return. -/
inductive CsrOp (w : ℕ) where
  | access (fn : CsrFn) (addr : BitVec 12) (wdata : BitVec w)
  | trap (isInterrupt : Bool) (cause : BitVec 31) (pc tval : BitVec w)
  | mret
  | sret

def CsrIn.idle (w : ℕ) : CsrIn w :=
  { csrWriteEn := false, csrAddr := 0, csrOp := 0, csrWdata := 0, trapTaken := false
    trapPc := 0, trapCause := 0, trapIsInterrupt := false, trapValue := 0
    mretTaken := false, sretTaken := false, fpFlagsWe := false, fpFlagsIn := 0 }

/-- The port of `CSR.v` in the cycle of an operation. -/
def CsrOp.input : CsrOp w → CsrIn w
  | .access fn addr wdata =>
    { CsrIn.idle w with csrWriteEn := true, csrAddr := addr, csrOp := fn.code, csrWdata := wdata }
  | .trap isInterrupt cause pc tval =>
    { CsrIn.idle w with
      trapTaken := true, trapPc := pc, trapCause := cause.setWidth w
      trapIsInterrupt := isInterrupt, trapValue := tval }
  | .mret => { CsrIn.idle w with mretTaken := true }
  | .sret => { CsrIn.idle w with sretTaken := true }

/-- The checks of the execute stage; what fails them is a trap instead. -/
def CsrOp.permitted (priv : BitVec 2) : CsrOp w → Bool
  | .access _ addr _ => !decide (priv < addr.extractLsb' 8 2)
  | .trap .. => true
  | .mret => priv == privM
  | .sret => priv != privU

/-- An operation, with the counters and the interrupt lines of its cycle. -/
structure CsrStep (w : ℕ) where
  op : CsrOp w
  counters : Counters w
  pending : Pending

def csrMachine (w : ℕ) : Clocked (Csr w) (CsrStep w) where
  Init c := c = Csr.reset w
  step c s := c.next s.counters s.pending s.op.input

theorem getLsbD_newVal (fn : CsrFn) (old wdata : BitVec w) (j : ℕ) :
    (Csr.newVal fn.code old wdata).getLsbD j = fn.bit (old.getLsbD j) (wdata.getLsbD j) := by
  cases fn with
  | write => rfl
  | set => exact BitVec.getLsbD_or
  | clear =>
    have hor : Csr.newVal CsrFn.clear.code old wdata = old &&& ~~~wdata := rfl
    rw [hor, BitVec.getLsbD_and, BitVec.getLsbD_not]
    by_cases hj : j < w
    · simp [hj, CsrFn.bit]
    · simp [BitVec.getLsbD_of_ge old j (by omega), CsrFn.bit]

/-! ## The privileged state -/

/-- The mode and the bits of the registers that `CSR.v` masks. -/
@[ext]
structure PrivState where
  priv : BitVec 2
  mstatus : ℕ → Bool
  mie : ℕ → Bool
  mip : ℕ → Bool
  mideleg : ℕ → Bool
  medeleg : ℕ → Bool

namespace PrivState

/-- A write to a register with the bits `bits`. -/
def writeMasked (bits : List ℕ) (fn : CsrFn) (old : ℕ → Bool) (wdata : BitVec w) : ℕ → Bool :=
  fun j ↦ decide (j ∈ bits) && fn.bit (old j) (wdata.getLsbD j)

/-- A write to the bits `bits` of a register through a view. -/
def writeView (bits : List ℕ) (fn : CsrFn) (old : ℕ → Bool) (wdata : BitVec w) : ℕ → Bool :=
  fun j ↦ if j ∈ bits then fn.bit (old j) (wdata.getLsbD j) else old j

/-- The interrupt enable and the mode go to MPIE and MPP. -/
def stackM (priv : BitVec 2) (m : ℕ → Bool) : ℕ → Bool :=
  fun j ↦ if j = mstatusMppLo + 1 then priv.getLsbD 1
    else if j = mstatusMppLo then priv.getLsbD 0
    else if j = mstatusMieBit then false
    else if j = mstatusMpieBit then m mstatusMieBit else m j

/-- The interrupt enable and the mode go to SPIE and SPP. -/
def stackS (priv : BitVec 2) (m : ℕ → Bool) : ℕ → Bool :=
  fun j ↦ if j = mstatusSppBit then priv.getLsbD 0
    else if j = mstatusSieBit then false
    else if j = mstatusSpieBit then m mstatusSieBit else m j

/-- `mret`. -/
def popM (m : ℕ → Bool) : ℕ → Bool :=
  fun j ↦ if j = mstatusMppLo + 1 then false
    else if j = mstatusMppLo then false
    else if j = mstatusMpieBit then true
    else if j = mstatusMieBit then m mstatusMpieBit else m j

/-- `sret`. -/
def popS (m : ℕ → Bool) : ℕ → Bool :=
  fun j ↦ if j = mstatusSppBit then false
    else if j = mstatusSpieBit then true
    else if j = mstatusSieBit then m mstatusSpieBit else m j

/-- The delegation bit of a cause decides, except out of M-mode. -/
def toS (s : PrivState) (isInterrupt : Bool) (cause : BitVec 31) : Bool :=
  s.priv != privM &&
    (if isInterrupt then s.mideleg else s.medeleg) (cause.extractLsb' 0 5).toNat

def apply (s : PrivState) : CsrOp w → PrivState
  | .access fn addr wdata =>
    { s with
      mstatus :=
        if addr = csrAddrMstatus then writeMasked Csr.mstatusBits fn s.mstatus wdata
        else if addr = csrAddrSstatus then writeView Csr.sstatusBits fn s.mstatus wdata
        else s.mstatus
      mie :=
        if addr = csrAddrMie then writeMasked Csr.mieBits fn s.mie wdata
        else if addr = csrAddrSie then writeView Csr.sieBits fn s.mie wdata
        else s.mie
      mip :=
        if addr = csrAddrMip ∨ addr = csrAddrSip then writeMasked Csr.sieBits fn s.mip wdata
        else s.mip
      mideleg :=
        if addr = csrAddrMideleg then writeMasked Csr.mieBits fn s.mideleg wdata else s.mideleg
      medeleg :=
        if addr = csrAddrMedeleg then writeMasked Csr.medelegBits fn s.medeleg wdata
        else s.medeleg }
  | .trap isInterrupt cause _ _ =>
    if s.toS isInterrupt cause then { s with priv := privS, mstatus := stackS s.priv s.mstatus }
    else { s with priv := privM, mstatus := stackM s.priv s.mstatus }
  | .mret =>
    { s with
      priv := BitVec.ofBool (s.mstatus (mstatusMppLo + 1)) ++ BitVec.ofBool (s.mstatus mstatusMppLo)
      mstatus := popM s.mstatus }
  | .sret =>
    { s with
      priv := 0#1 ++ BitVec.ofBool (s.mstatus mstatusSppBit)
      mstatus := popS s.mstatus }

/-- Traps and returns touch no bit above MPP. -/
theorem stack_high {j : ℕ} (hj : 12 < j) (priv : BitVec 2) (m : ℕ → Bool) :
    stackM priv m j = m j ∧ stackS priv m j = m j ∧ popM m j = m j ∧ popS m j = m j := by
  have h : ∀ i, i ≤ 12 → j ≠ i := fun i hi ↦ by omega
  have hmpp1 := h (mstatusMppLo + 1) (by decide)
  have hmpp := h mstatusMppLo (by decide)
  have hmie := h mstatusMieBit (by decide)
  have hmpie := h mstatusMpieBit (by decide)
  have hspp := h mstatusSppBit (by decide)
  have hsie := h mstatusSieBit (by decide)
  have hspie := h mstatusSpieBit (by decide)
  simp only [stackM, stackS, popM, popS, hmpp1, hmpp, hmie, hmpie, hspp, hsie, hspie, if_false,
    and_self]

/-- The registers hold only the bits that they implement. -/
structure Masked (s : PrivState) : Prop where
  mstatus : ∀ j, s.mstatus j = true → j ∈ Csr.mstatusBits
  mie : ∀ j, s.mie j = true → j ∈ Csr.mieBits
  mip : ∀ j, s.mip j = true → j ∈ Csr.sieBits
  mideleg : ∀ j, s.mideleg j = true → j ∈ Csr.mieBits
  medeleg : ∀ j, s.medeleg j = true → j ∈ Csr.medelegBits

theorem mem_of_writeMasked {bits : List ℕ} {fn : CsrFn} {old : ℕ → Bool} {wdata : BitVec w} {j : ℕ}
    (h : writeMasked bits fn old wdata j = true) : j ∈ bits := by
  simp only [writeMasked, Bool.and_eq_true, decide_eq_true_eq] at h
  exact h.1

theorem mem_of_writeView {bits all : List ℕ} {fn : CsrFn} {old : ℕ → Bool} {wdata : BitVec w}
    {j : ℕ} (hsub : bits ⊆ all) (hold : old j = true → j ∈ all)
    (h : writeView bits fn old wdata j = true) : j ∈ all := by
  by_cases hj : j ∈ bits
  · exact hsub hj
  · rw [writeView, if_neg hj] at h
    exact hold h

/-- Traps and returns set no bit but those of `mstatus`. -/
theorem stack_mem {m : ℕ → Bool} (hm : ∀ j, m j = true → j ∈ Csr.mstatusBits) (priv : BitVec 2)
    (j : ℕ) :
    (stackM priv m j = true → j ∈ Csr.mstatusBits) ∧
      (stackS priv m j = true → j ∈ Csr.mstatusBits) ∧
      (popM m j = true → j ∈ Csr.mstatusBits) ∧ (popS m j = true → j ∈ Csr.mstatusBits) := by
  by_cases hj : j ∈ Csr.mstatusBits
  · simp [hj]
  · have hne : ∀ i ∈ Csr.mstatusBits, j ≠ i := fun i hi heq ↦ hj (heq ▸ hi)
    have hmpp1 := hne (mstatusMppLo + 1) (by decide)
    have hmpp := hne mstatusMppLo (by decide)
    have hmie := hne mstatusMieBit (by decide)
    have hmpie := hne mstatusMpieBit (by decide)
    have hspp := hne mstatusSppBit (by decide)
    have hsie := hne mstatusSieBit (by decide)
    have hspie := hne mstatusSpieBit (by decide)
    simp only [stackM, stackS, popM, popS, hmpp1, hmpp, hmie, hmpie, hspp, hsie, hspie, if_false]
    exact ⟨hm j, hm j, hm j, hm j⟩

theorem Masked.apply {s : PrivState} (h : s.Masked) (op : CsrOp w) : (s.apply op).Masked := by
  cases op with
  | access fn addr wdata =>
    refine ⟨fun j ↦ ?_, fun j ↦ ?_, fun j ↦ ?_, fun j ↦ ?_, fun j ↦ ?_⟩ <;>
      simp only [PrivState.apply]
    · split_ifs
      · exact mem_of_writeMasked
      · exact mem_of_writeView (by decide) (h.mstatus j)
      · exact h.mstatus j
    · split_ifs
      · exact mem_of_writeMasked
      · exact mem_of_writeView (by decide) (h.mie j)
      · exact h.mie j
    · split_ifs
      · exact mem_of_writeMasked
      · exact h.mip j
    · split_ifs
      · exact mem_of_writeMasked
      · exact h.mideleg j
    · split_ifs
      · exact mem_of_writeMasked
      · exact h.medeleg j
  | trap isInterrupt cause pc tval =>
    rw [PrivState.apply]
    split_ifs
    · exact { h with mstatus := fun j ↦ (stack_mem h.mstatus s.priv j).2.1 }
    · exact { h with mstatus := fun j ↦ (stack_mem h.mstatus s.priv j).1 }
  | mret => exact { h with mstatus := fun j ↦ (stack_mem h.mstatus s.priv j).2.2.1 }
  | sret => exact { h with mstatus := fun j ↦ (stack_mem h.mstatus s.priv j).2.2.2 }

end PrivState

/-! ## `CSR.v` refines it -/

namespace Csr

/-- The privileged state of `CSR.v`. -/
def privState (c : Csr w) : PrivState :=
  { priv := c.privMode
    mstatus := c.mstatus.getLsbD
    mie := c.mie.getLsbD
    mip := c.mipSw.getLsbD
    mideleg := c.mideleg.getLsbD
    medeleg := c.medeleg.getLsbD }

variable (c : Csr w) (k : Counters w) (p : Pending)

/-- `UXL` and `SXL` are not bits of the register. -/
theorem getLsbD_rdata_mstatus {j : ℕ} (hj : j ∈ mstatusBits) :
    (c.rdata k p csrAddrMstatus).getLsbD j = c.mstatus.getLsbD j := by
  have hle : j ≤ 12 := by
    revert j
    decide
  have hread : c.rdata k p csrAddrMstatus =
      if w = 64 then putBits2 (putBits2 c.mstatus 32 2#2) 34 2#2 else c.mstatus := rfl
  rw [hread]
  split_ifs
  · rw [getLsbD_putBits2 (by omega), getLsbD_putBits2 (by omega), if_neg (by omega),
      if_neg (by omega), if_neg (by omega), if_neg (by omega)]
  · rfl

/-- The live lines are not among the bits software sets. -/
theorem getLsbD_mip {j : ℕ} (hj : j ∈ sieBits) : (c.mip p).getLsbD j = c.mipSw.getLsbD j := by
  have hne : mieMsieBit ≠ j ∧ mieMtieBit ≠ j ∧ mieMeieBit ≠ j := by
    revert j
    decide
  have hline : ∀ (b : Bool) (i : ℕ), i ≠ j → (bitAt w b i).getLsbD j = false := by
    intro b i hij
    cases b with
    | false => simp [bitAt]
    | true => simp [bitAt, BitVec.getLsbD_twoPow, hij]
  simp only [mip, BitVec.getLsbD_or, hline _ _ hne.1, hline _ _ hne.2.1, hline _ _ hne.2.2,
    Bool.or_false]

variable {c k p}

/-- Each of the masked registers answers to its own address and to its view. -/
theorem privState_access (fn : CsrFn) (addr : BitVec 12) (wdata : BitVec w) :
    (c.next k p (CsrOp.access fn addr wdata).input).privState =
      c.privState.apply (.access fn addr wdata) := by
  set v := newVal fn.code (c.rdata k p addr) wdata with hv
  have hbit : ∀ j, v.getLsbD j = fn.bit ((c.rdata k p addr).getLsbD j) (wdata.getLsbD j) :=
    fun j ↦ getLsbD_newVal fn _ wdata j
  have hnext : c.next k p (CsrOp.access fn addr wdata).input =
      c.nextWith (CsrOp.access fn addr wdata).input v := rfl
  -- a masked write, a write through a view, and any other address
  have masked : ∀ (bits : List ℕ) (old : ℕ → Bool),
      (∀ j ∈ bits, (c.rdata k p addr).getLsbD j = old j) →
      (keepBits bits v).getLsbD = PrivState.writeMasked bits fn old wdata := by
    intro bits old hold
    funext j
    rw [getLsbD_keepBits, PrivState.writeMasked, hbit]
    by_cases hj : j ∈ bits
    · rw [hold j hj]
    · simp [hj]
  have view : ∀ (bits : List ℕ) (r : BitVec w), c.rdata k p addr = keepBits bits r →
      ((r &&& ~~~(keepBits bits (BitVec.allOnes w))) ||| keepBits bits v).getLsbD =
        PrivState.writeView bits fn r.getLsbD wdata := by
    intro bits r hread
    funext j
    rw [getLsbD_mergeBits, PrivState.writeView, hbit, hread, getLsbD_keepBits]
    by_cases hj : j ∈ bits <;> simp [hj]
  rw [hnext]
  ext1
  · rfl
  · by_cases hm : addr = csrAddrMstatus
    · subst hm
      exact masked mstatusBits c.mstatus.getLsbD (fun j hj ↦ getLsbD_rdata_mstatus c k p hj)
    · by_cases hs : addr = csrAddrSstatus
      · subst hs
        exact view sstatusBits c.mstatus rfl
      · simp [privState, PrivState.apply, nextWith, nextMstatus, CsrOp.input, CsrIn.idle, hm, hs]
  · by_cases hm : addr = csrAddrMie
    · subst hm
      exact masked mieBits c.mie.getLsbD (fun _ _ ↦ rfl)
    · by_cases hs : addr = csrAddrSie
      · subst hs
        exact view sieBits c.mie rfl
      · simp [privState, PrivState.apply, nextWith, CsrOp.input, CsrIn.idle, hm, hs]
  · by_cases hm : addr = csrAddrMip
    · subst hm
      exact masked sieBits c.mipSw.getLsbD (fun j hj ↦ getLsbD_mip c p hj)
    · by_cases hs : addr = csrAddrSip
      · subst hs
        refine masked sieBits c.mipSw.getLsbD (fun j hj ↦ ?_)
        have hread : c.rdata k p csrAddrSip = keepBits sieBits (c.mip p) := rfl
        rw [hread, getLsbD_keepBits, getLsbD_mip c p hj]
        simp [hj]
      · simp [privState, PrivState.apply, nextWith, CsrOp.input, CsrIn.idle, hm, hs]
  · by_cases hm : addr = csrAddrMideleg
    · subst hm
      exact masked mieBits c.mideleg.getLsbD (fun _ _ ↦ rfl)
    · simp [privState, PrivState.apply, nextWith, CsrOp.input, CsrIn.idle, hm]
  · by_cases hm : addr = csrAddrMedeleg
    · subst hm
      exact masked medelegBits c.medeleg.getLsbD (fun _ _ ↦ rfl)
    · simp [privState, PrivState.apply, nextWith, CsrOp.input, CsrIn.idle, hm]

theorem trapTargetIsS_input (hw : 12 < w) (isInterrupt : Bool) (cause : BitVec 31)
    (pc tval : BitVec w) :
    c.trapTargetIsS (CsrOp.trap isInterrupt cause pc tval).input =
      c.privState.toS isInterrupt cause := by
  have hcause : (cause.setWidth w).extractLsb' 0 5 = cause.extractLsb' 0 5 := by
    apply BitVec.eq_of_getLsbD_eq
    intro j hj
    simp [hj, show j < w by omega]
  simp only [trapTargetIsS, CsrOp.input, PrivState.toS, hcause, Bool.true_and]
  cases isInterrupt <;> rfl

/-- The arms of the `mstatus` chain, bit by bit. -/
theorem stackM_bits (hw : 12 < w) (m : BitVec w) (priv : BitVec 2) :
    (putBits2 (putBit (putBit m mstatusMpieBit (m.getLsbD mstatusMieBit)) mstatusMieBit false)
      mstatusMppLo priv).getLsbD = PrivState.stackM priv m.getLsbD := by
  funext j
  by_cases hj : j < w
  · simp only [getLsbD_putBits2 hj, getLsbD_putBit hj, PrivState.stackM]
  · have hhigh := (PrivState.stack_high (by omega : 12 < j) priv m.getLsbD).1
    rw [BitVec.getLsbD_of_ge _ j (by omega), hhigh, BitVec.getLsbD_of_ge m j (by omega)]

theorem stackS_bits (hw : 12 < w) (m : BitVec w) (priv : BitVec 2) :
    (putBit (putBit (putBit m mstatusSpieBit (m.getLsbD mstatusSieBit)) mstatusSieBit false)
      mstatusSppBit (priv.getLsbD 0)).getLsbD = PrivState.stackS priv m.getLsbD := by
  funext j
  by_cases hj : j < w
  · simp only [getLsbD_putBit hj, PrivState.stackS]
  · have hhigh := (PrivState.stack_high (by omega : 12 < j) priv m.getLsbD).2.1
    rw [BitVec.getLsbD_of_ge _ j (by omega), hhigh, BitVec.getLsbD_of_ge m j (by omega)]

theorem popM_bits (hw : 12 < w) (m : BitVec w) :
    (putBits2 (putBit (putBit m mstatusMieBit (m.getLsbD mstatusMpieBit)) mstatusMpieBit true)
      mstatusMppLo privU).getLsbD = PrivState.popM m.getLsbD := by
  funext j
  by_cases hj : j < w
  · simp only [getLsbD_putBits2 hj, getLsbD_putBit hj, PrivState.popM]
    rfl
  · have hhigh := (PrivState.stack_high (by omega : 12 < j) privU m.getLsbD).2.2.1
    rw [BitVec.getLsbD_of_ge _ j (by omega), hhigh, BitVec.getLsbD_of_ge m j (by omega)]

theorem popS_bits (hw : 12 < w) (m : BitVec w) :
    (putBit (putBit (putBit m mstatusSieBit (m.getLsbD mstatusSpieBit)) mstatusSpieBit true)
      mstatusSppBit false).getLsbD = PrivState.popS m.getLsbD := by
  funext j
  by_cases hj : j < w
  · simp only [getLsbD_putBit hj, PrivState.popS]
  · have hhigh := (PrivState.stack_high (by omega : 12 < j) privU m.getLsbD).2.2.2
    rw [BitVec.getLsbD_of_ge _ j (by omega), hhigh, BitVec.getLsbD_of_ge m j (by omega)]

theorem privState_trap (hw : 12 < w) (isInterrupt : Bool) (cause : BitVec 31)
    (pc tval : BitVec w) :
    (c.next k p (CsrOp.trap isInterrupt cause pc tval).input).privState =
      c.privState.apply (.trap isInterrupt cause pc tval) := by
  have htarget := trapTargetIsS_input (c := c) hw isInterrupt cause pc tval
  have hin : (CsrOp.trap isInterrupt cause pc tval).input.trapTaken = true := rfl
  cases hS : c.privState.toS isInterrupt cause with
  | true =>
    rw [hS] at htarget
    rw [PrivState.apply, if_pos hS]
    ext1
    · simp [privState, next, nextWith, nextPrivMode, hin, htarget]
    · refine Eq.trans ?_ (stackS_bits hw c.mstatus c.privMode)
      simp [privState, next, nextWith, nextMstatus, hin, htarget]
    all_goals simp [privState, next, nextWith, CsrOp.input, CsrIn.idle]
  | false =>
    rw [hS] at htarget
    rw [PrivState.apply, hS, if_neg Bool.false_ne_true]
    ext1
    · simp [privState, next, nextWith, nextPrivMode, hin, htarget]
    · refine Eq.trans ?_ (stackM_bits hw c.mstatus c.privMode)
      simp [privState, next, nextWith, nextMstatus, hin, htarget]
    all_goals simp [privState, next, nextWith, CsrOp.input, CsrIn.idle]

theorem mpp_bits (m : BitVec w) :
    m.extractLsb' mstatusMppLo 2 =
      BitVec.ofBool (m.getLsbD (mstatusMppLo + 1)) ++ BitVec.ofBool (m.getLsbD mstatusMppLo) := by
  apply BitVec.eq_of_getLsbD_eq
  intro j hj
  rcases (by omega : j = 0 ∨ j = 1) with rfl | rfl
  · rw [BitVec.getLsbD_extractLsb']
    change m.getLsbD mstatusMppLo = _
    cases m.getLsbD (mstatusMppLo + 1) <;> cases m.getLsbD mstatusMppLo <;> rfl
  · rw [BitVec.getLsbD_extractLsb']
    change m.getLsbD (mstatusMppLo + 1) = _
    cases m.getLsbD (mstatusMppLo + 1) <;> cases m.getLsbD mstatusMppLo <;> rfl

/-- `CSR.v` refines the privileged state machine. -/
theorem privState_next (hw : 12 < w) (op : CsrOp w) :
    (c.next k p op.input).privState = c.privState.apply op := by
  cases op with
  | access fn addr wdata => exact privState_access fn addr wdata
  | trap isInterrupt cause pc tval => exact privState_trap hw isInterrupt cause pc tval
  | mret =>
    ext1
    · exact mpp_bits c.mstatus
    · exact popM_bits hw c.mstatus
    all_goals rfl
  | sret =>
    ext1
    · rfl
    · exact popS_bits hw c.mstatus
    all_goals rfl

end Csr

end RvPipeline
