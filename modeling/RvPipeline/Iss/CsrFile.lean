import RvPipeline.Trap.Privilege

/-!
# The CSR file of the simulator against `CSR.v`

The same operations from reset, at `XLEN` 32 and 64.  The privileged state agrees in every run.  The
registers that hold a whole word agree as long as no value that goes into one is wider than 32
bits, since the simulator cuts each to 32 bits at either width.
-/

namespace RvPipeline

variable {w : ℕ}

/-! ## Registers of a whole word -/

/-- The registers that `CSR.v` keeps in full. -/
def wideAddrs : List (BitVec 12) :=
  [csrAddrMtvec, csrAddrMscratch, csrAddrMepc, csrAddrMcause, csrAddrSscratch, csrAddrSepc,
    csrAddrScause, csrAddrStval, csrAddrMtval, csrAddrStvec, csrAddrSatp]

/-- What the step puts into a register of a whole word fits into 32 bits. -/
def CsrStep.Narrow (c : Csr w) (s : CsrStep w) : Prop :=
  match s.op with
  | .access fn addr wdata =>
    addr ∈ wideAddrs →
      (Csr.newVal fn.code (c.rdata s.counters s.pending addr) wdata).toNat < 2 ^ 32
  | .trap _ _ _ tval => tval.toNat < 2 ^ 32
  | _ => True

theorem CsrStep.narrow_of_32 (c : Csr 32) (s : CsrStep 32) : s.Narrow c := by
  obtain ⟨op, k, p⟩ := s
  cases op with
  | access fn addr wdata => exact fun _ ↦ BitVec.isLt _
  | trap isInterrupt cause pc tval => exact tval.isLt
  | mret => trivial
  | sret => trivial

def noLines : Pending := { msip := false, timer := false, ext := false }

namespace Iss

variable {σ : Iss} {c : Csr w} {C : IssConfig}

/-- The dictionary holds the registers of `CSR.v`. -/
structure Stores (σ : Iss) (c : Csr w) : Prop where
  privState : σ.privState = c.privState
  mtvec : σ.csr csrAddrMtvec = c.mtvec.toNat
  mscratch : σ.csr csrAddrMscratch = c.mscratch.toNat
  mepc : σ.csr csrAddrMepc = c.mepc.toNat
  mcause : σ.csr csrAddrMcause = c.mcause.toNat
  sscratch : σ.csr csrAddrSscratch = c.sscratch.toNat
  sepc : σ.csr csrAddrSepc = c.sepc.toNat
  scause : σ.csr csrAddrScause = c.scause.toNat
  stval : σ.csr csrAddrStval = c.stval.toNat
  mtval : σ.csr csrAddrMtval = c.mtval.toNat
  stvec : σ.csr csrAddrStvec = c.stvec.toNat
  satp : σ.csr csrAddrSatp = c.satp.toNat
  frm : σ.frm = c.frm
  fflags : σ.fflags = c.fflags

/-- What software sees of the two files: every register but the counters, the mode, and what
`satp` does to an address.  `mip` is read with no interrupt line up; the simulator has none. -/
structure CsrAgree (C : IssConfig) (σ : Iss) (c : Csr w) : Prop where
  reads : ∀ k p addr, Csr.isCounterAddr addr = false → (addr = csrAddrMip → p = noLines) →
    σ.csrRead C addr = (c.rdata k p addr).toNat
  mode : σ.privMode = c.privMode
  translates : ∀ vaddr access, σ.translate C vaddr access =
    if c.satpModeVal && c.privMode != privM then
      if w = 32 then σ.translateSv32 C vaddr access c.satp.toNat
      else σ.translateSv39 C vaddr access c.satp.toNat
    else .ok (uXlen vaddr w)

/-! ## Reads -/

theorem toNat_of_bits {n : ℕ} {v : BitVec w} (h : n.testBit = v.getLsbD) : n = v.toNat := by
  apply Nat.eq_of_testBit_eq
  intro j
  exact congrFun h j

theorem view_toNat {n a b d : ℕ} {v : BitVec w} (h : n.testBit = v.getLsbD) :
    maskBit n a ||| maskBit n b ||| maskBit n d = (keepBits [a, b, d] v).toNat := by
  apply toNat_of_bits
  funext j
  rw [getLsbD_keepBits]
  by_cases hj : j ∈ [a, b, d]
  · rw [testBit_view hj, h]
    simp [hj]
  · simp only [List.mem_cons, List.not_mem_nil, or_false, not_or] at hj
    simp [Nat.testBit_or, testBit_maskBit, hj]

theorem mip_noLines : c.mip noLines = c.mipSw := by
  simp [Csr.mip, noLines, bitAt]

/-- `UXL` and `SXL` are put in at the read port of both. -/
theorem mstatus_read (hC : C.xlen = w) (h : σ.Stores c) (hmask : c.privState.Masked) :
    (if csrAddrMstatus = csrAddrMstatus ∧ C.xlen = 64 then
        σ.csr csrAddrMstatus ||| (2 <<< 32) ||| (2 <<< 34)
      else σ.csr csrAddrMstatus) =
      (if w = 64 then putBits2 (putBits2 c.mstatus 32 2#2) 34 2#2 else c.mstatus).toNat := by
  have hbits : (σ.csr csrAddrMstatus).testBit = c.mstatus.getLsbD :=
    congrArg PrivState.mstatus h.privState
  by_cases hw : w = 64
  · subst hw
    rw [if_pos ⟨rfl, hC⟩, if_pos rfl]
    apply toNat_of_bits
    funext j
    have h33 : 2 <<< 32 = 1 <<< 33 := rfl
    have h35 : 2 <<< 34 = 1 <<< 35 := rfl
    rw [Nat.testBit_or, Nat.testBit_or, h33, h35, testBit_one_shiftLeft, testBit_one_shiftLeft,
      hbits]
    by_cases hj : j < 64
    · have hclear : ∀ i, i ∉ Csr.mstatusBits → c.mstatus.getLsbD i = false := by
        intro i hi
        by_contra hset
        exact hi (hmask.mstatus i (Bool.not_eq_false _ ▸ hset))
      rw [getLsbD_putBits2 hj, getLsbD_putBits2 hj]
      split_ifs with hj35 hj34 hj33 hj32
      · subst hj35
        simp
      · subst hj34
        rw [hclear 34 (by decide)]
        rfl
      · subst hj33
        simp
      · subst hj32
        rw [hclear 32 (by decide)]
        rfl
      · simp [hj35, hj33]
    · simp [BitVec.getLsbD_of_ge _ j (Nat.not_lt.mp hj), show j ≠ 33 by omega, show j ≠ 35 by omega]
  · rw [if_neg (fun hand ↦ hw (hC ▸ hand.2)), if_neg hw]
    exact toNat_of_bits hbits

/-- The addresses the simulator reads something else than zero from, `mip` apart. -/
def csrAddrs : List (BitVec 12) :=
  [csrAddrFflags, csrAddrFrm, csrAddrFcsr, csrAddrSstatus, csrAddrSie, csrAddrSip, csrAddrMstatus,
    csrAddrMtvec, csrAddrMscratch, csrAddrMepc, csrAddrMcause, csrAddrSscratch, csrAddrSepc,
    csrAddrScause, csrAddrStval, csrAddrMtval, csrAddrStvec, csrAddrSatp, csrAddrMideleg,
    csrAddrMedeleg, csrAddrMie]

theorem sip_read (p : Pending) : keepBits Csr.sieBits (c.mip p) = keepBits Csr.sieBits c.mipSw := by
  apply BitVec.eq_of_getLsbD_eq
  intro j _
  rw [getLsbD_keepBits, getLsbD_keepBits]
  by_cases hj : j ∈ Csr.sieBits
  · rw [Csr.getLsbD_mip c p hj]
  · simp [hj]

theorem Stores.reads (hw : w = 32 ∨ w = 64) (hC : C.xlen = w) (h : σ.Stores c)
    (hmask : c.privState.Masked) (k : Counters w) (p : Pending) {addr : BitVec 12}
    (hcounter : Csr.isCounterAddr addr = false) (hmip : addr = csrAddrMip → p = noLines) :
    σ.csrRead C addr = (c.rdata k p addr).toNat := by
  have hle : 32 ≤ w := by omega
  have hmie : (σ.csr csrAddrMie).testBit = c.mie.getLsbD := congrArg PrivState.mie h.privState
  have hip : (σ.csr csrAddrMip).testBit = c.mipSw.getLsbD := congrArg PrivState.mip h.privState
  have hmst : (σ.csr csrAddrMstatus).testBit = c.mstatus.getLsbD :=
    congrArg PrivState.mstatus h.privState
  rw [Csr.rdata, hcounter, if_neg Bool.false_ne_true]
  by_cases hmem : addr ∈ csrAddrMip :: csrAddrs
  · simp only [csrAddrs, List.mem_cons, List.not_mem_nil, or_false] at hmem
    rcases hmem with rfl | rfl | rfl | rfl | rfl | rfl | rfl | rfl | rfl | rfl | rfl | rfl | rfl |
      rfl | rfl | rfl | rfl | rfl | rfl | rfl | rfl | rfl
    · change σ.csr csrAddrMip = (c.mip p).toNat
      rw [hmip rfl, mip_noLines]
      exact toNat_of_bits hip
    · change σ.fflags.toNat = (c.fflags.setWidth w).toNat
      rw [h.fflags, BitVec.toNat_setWidth_of_le (by omega)]
    · change σ.frm.toNat = (c.frm.setWidth w).toNat
      rw [h.frm, BitVec.toNat_setWidth_of_le (by omega)]
    · change (σ.frm.toNat <<< 5) ||| σ.fflags.toNat = ((c.frm ++ c.fflags).setWidth w).toNat
      rw [h.frm, h.fflags, BitVec.toNat_setWidth_of_le (by omega), BitVec.toNat_append]
    · exact view_toNat hmst
    · exact view_toNat hmie
    · change _ = (keepBits Csr.sieBits (c.mip p)).toNat
      rw [sip_read]
      exact view_toNat hip
    · exact mstatus_read hC h hmask
    · exact h.mtvec
    · exact h.mscratch
    · exact h.mepc
    · exact h.mcause
    · exact h.sscratch
    · exact h.sepc
    · exact h.scause
    · exact h.stval
    · exact h.mtval
    · exact h.stvec
    · exact h.satp
    · exact toNat_of_bits (congrArg PrivState.mideleg h.privState)
    · exact toNat_of_bits (congrArg PrivState.medeleg h.privState)
    · exact toNat_of_bits hmie
  · simp only [csrAddrs, List.mem_cons, List.not_mem_nil, or_false, not_or] at hmem
    simp [csrRead, Csr.archRdata, issCsrKeys, hmem]

/-- `satp` takes effect in both or in neither. -/
theorem Stores.translates (hw : w = 32 ∨ w = 64) (hC : C.xlen = w) (h : σ.Stores c) (vaddr : ℕ)
    (access : Iss.Access) : σ.translate C vaddr access =
      if c.satpModeVal && c.privMode != privM then
        if w = 32 then σ.translateSv32 C vaddr access c.satp.toNat
        else σ.translateSv39 C vaddr access c.satp.toNat
      else .ok (uXlen vaddr w) := by
  have hpriv : σ.privMode = c.privMode := congrArg PrivState.priv h.privState
  rw [translate, hpriv, hC, h.satp]
  by_cases hM : c.privMode = privM
  · simp [hM]
  · have hne : (c.privMode != privM) = true := by simp [hM]
    rw [if_neg hM, hne, Bool.and_true, Csr.satpModeVal]
    rcases hw with rfl | rfl
    · have hbit : c.satp.toNat.testBit 31 = c.satp.getLsbD 31 := rfl
      rw [if_pos rfl, if_pos rfl, hbit]
      cases c.satp.getLsbD 31 <;> rfl
    · have hfield : c.satp.toNat >>> 60 &&& 0xF = (c.satp.extractLsb' 60 4).toNat := by
        rw [BitVec.extractLsb'_toNat]
        exact Nat.and_two_pow_sub_one_eq_mod _ 4
      have h64 : ¬(64 : ℕ) = 32 := by decide
      rw [if_neg h64, if_neg h64, if_neg h64, hfield]
      by_cases hm : c.satp.extractLsb' 60 4 = 0x8#4
      · rw [hm]
        rfl
      · have hnat : (c.satp.extractLsb' 60 4).toNat ≠ 8 := fun heq ↦ hm (BitVec.eq_of_toNat_eq heq)
        rw [if_pos hnat, beq_false_of_ne hm]
        rfl

theorem Stores.agree (hw : w = 32 ∨ w = 64) (hC : C.xlen = w) (h : σ.Stores c)
    (hmask : c.privState.Masked) : CsrAgree C σ c :=
  ⟨fun k p _ hcounter hmip ↦ h.reads hw hC hmask k p hcounter hmip,
    congrArg PrivState.priv h.privState, h.translates hw hC⟩

/-! ## Steps -/

theorem csrNewVal_toNat (fn : CsrFn) (old wdata : BitVec w) :
    csrNewVal (0#1 ++ fn.code) old.toNat wdata.toNat = (Csr.newVal fn.code old wdata).toNat := by
  apply toNat_of_bits
  funext j
  rw [testBit_csrNewVal, getLsbD_newVal]
  rfl

theorem u32_of_lt {n : ℕ} (h : n < 2 ^ 32) : u32 n = n := by
  apply Nat.eq_of_testBit_eq
  intro j
  rw [testBit_u32]
  by_cases hj : j < 32
  · simp [hj]
  · have hpow : 2 ^ 32 ≤ 2 ^ j := Nat.pow_le_pow_right (by decide) (by omega)
    simp [hj, Nat.testBit_lt_two_pow (lt_of_lt_of_le h hpow)]

theorem u32_lt (n : ℕ) : u32 n < 2 ^ 32 := by
  have hu : u32 n = n % 2 ^ 32 := by
    rw [u32, uXlen]
    norm_cast
  rw [hu]
  exact Nat.mod_lt _ (by decide)

theorem causeWord_toNat (hw : w = 32 ∨ w = 64) (isInterrupt : Bool) (cause : BitVec 31) :
    u32 (issCause isInterrupt cause) = (Csr.causeWord isInterrupt (cause.setWidth w)).toNat := by
  have hcause : (cause.setWidth w).extractLsb' 0 31 = cause := by
    apply BitVec.eq_of_getLsbD_eq
    intro j hj
    simp [hj, show j < w by omega]
  have hlt : issCause isInterrupt cause < 2 ^ 32 := BitVec.isLt _
  rw [u32_of_lt hlt, Csr.causeWord, hcause, BitVec.toNat_setWidth_of_le (by omega)]
  rfl

/-- The privileged states stay together. -/
theorem privState_step (hw : w = 32 ∨ w = 64) (h : σ.privState = c.privState)
    (hmask : c.privState.Masked) (k : Counters w) (p : Pending) (op : CsrOp w) :
    (σ.csrApply C op).privState = (c.next k p op.input).privState := by
  rw [privState_csrApply (h ▸ hmask), Csr.privState_next (by omega), h]

theorem Stores.access (hw : w = 32 ∨ w = 64) (hC : C.xlen = w) (h : σ.Stores c)
    (hmask : c.privState.Masked) (k : Counters w) (p : Pending) (fn : CsrFn) (addr : BitVec 12)
    (wdata : BitVec w) (hn : addr ∈ wideAddrs → (Csr.newVal fn.code (c.rdata k p addr) wdata).toNat <
      2 ^ 32) :
    (σ.csrApply C (.access fn addr wdata)).Stores
      (c.next k p (CsrOp.access fn addr wdata).input) := by
  have hpriv := privState_step (C := C) hw h.privState hmask k p (.access fn addr wdata)
  have hval : ∀ (hcounter : Csr.isCounterAddr addr = false), addr ≠ csrAddrMip →
      csrNewVal (0#1 ++ fn.code) (σ.csrRead C addr) wdata.toNat =
        (Csr.newVal fn.code (c.rdata k p addr) wdata).toNat := by
    intro hcounter hne
    rw [h.reads hw hC hmask k p hcounter (fun heq ↦ absurd heq hne), csrNewVal_toNat]
  have hwide : addr ∈ wideAddrs → Csr.isCounterAddr addr = false → addr ≠ csrAddrMip →
      u32 (csrNewVal (0#1 ++ fn.code) (σ.csrRead C addr) wdata.toNat) =
        (Csr.newVal fn.code (c.rdata k p addr) wdata).toNat := by
    intro hmem hcounter hne
    rw [hval hcounter hne, u32_of_lt (hn hmem)]
  by_cases hmem : addr ∈ csrAddrMip :: csrAddrs
  · simp only [csrAddrs, List.mem_cons, List.not_mem_nil, or_false] at hmem
    rcases hmem with rfl | rfl | rfl | rfl | rfl | rfl | rfl | rfl | rfl | rfl | rfl | rfl | rfl |
      rfl | rfl | rfl | rfl | rfl | rfl | rfl | rfl | rfl
    · exact { h with privState := hpriv }
    · exact { h with privState := hpriv, fflags := congrArg (BitVec.ofNat 5) (hval rfl (by decide)) }
    · exact { h with privState := hpriv, frm := congrArg (BitVec.ofNat 3) (hval rfl (by decide)) }
    · have hfrm := congrArg (fun n : ℕ ↦ BitVec.ofNat 3 (n >>> 5)) (hval rfl (by decide))
      exact { h with
        privState := hpriv, frm := hfrm
        fflags := congrArg (BitVec.ofNat 5) (hval rfl (by decide)) }
    · exact { h with privState := hpriv }
    · exact { h with privState := hpriv }
    · exact { h with privState := hpriv }
    · exact { h with privState := hpriv }
    · exact { h with privState := hpriv, mtvec := hwide (by decide) rfl (by decide) }
    · exact { h with privState := hpriv, mscratch := hwide (by decide) rfl (by decide) }
    · exact { h with privState := hpriv, mepc := hwide (by decide) rfl (by decide) }
    · exact { h with privState := hpriv, mcause := hwide (by decide) rfl (by decide) }
    · exact { h with privState := hpriv, sscratch := hwide (by decide) rfl (by decide) }
    · exact { h with privState := hpriv, sepc := hwide (by decide) rfl (by decide) }
    · exact { h with privState := hpriv, scause := hwide (by decide) rfl (by decide) }
    · exact { h with privState := hpriv, stval := hwide (by decide) rfl (by decide) }
    · exact { h with privState := hpriv, mtval := hwide (by decide) rfl (by decide) }
    · exact { h with privState := hpriv, stvec := hwide (by decide) rfl (by decide) }
    · exact { h with privState := hpriv, satp := hwide (by decide) rfl (by decide) }
    · exact { h with privState := hpriv }
    · exact { h with privState := hpriv }
    · exact { h with privState := hpriv }
  · simp only [csrAddrs, List.mem_cons, List.not_mem_nil, or_false, not_or] at hmem
    have hkeep : σ.csrApply C (.access fn addr wdata) = σ := by
      simp [csrApply, csrWrite, issCsrKeys, hmem]
    have hkeep' : c.next k p (CsrOp.access fn addr wdata).input = c := by
      simp [Csr.next, Csr.nextWith, Csr.nextMstatus, Csr.nextPrivMode, CsrOp.input, CsrIn.idle, hmem]
    rw [hkeep, hkeep']
    exact h

theorem Stores.trap (hw : w = 32 ∨ w = 64) (h : σ.Stores c) (hmask : c.privState.Masked)
    (k : Counters w) (p : Pending) (isInterrupt : Bool) (cause : BitVec 31) (pc tval : BitVec w)
    (hn : tval.toNat < 2 ^ 32) :
    (σ.csrApply C (.trap isInterrupt cause pc tval)).Stores
      (c.next k p (CsrOp.trap isInterrupt cause pc tval).input) := by
  have hpriv := privState_step (C := C) hw h.privState hmask k p (.trap isInterrupt cause pc tval)
  have htarget := Csr.trapTargetIsS_input (c := c) (by omega) isInterrupt cause pc tval
  have hto : ({ σ with pc := pc.toNat } : Iss).trapToS (issCause isInterrupt cause) =
      c.privState.toS isInterrupt cause := by
    rw [← h.privState]
    exact trapToS_eq isInterrupt cause
  have hcause := causeWord_toNat hw isInterrupt cause
  have hval := u32_of_lt hn
  rw [csrApply, Iss.trap, hto] at hpriv ⊢
  cases hS : c.privState.toS isInterrupt cause with
  | true =>
    rw [hS] at htarget
    rw [hS, if_pos rfl] at hpriv
    rw [if_pos rfl]
    constructor
    · exact hpriv
    all_goals simp only [Csr.next, Csr.nextWith, htarget]
    · exact h.mtvec
    · exact h.mscratch
    · exact h.mepc
    · exact h.mcause
    · exact h.sscratch
    · rfl
    · exact hcause
    · exact hval
    · exact h.mtval
    · exact h.stvec
    · exact h.satp
    · exact h.frm
    · exact h.fflags
  | false =>
    rw [hS] at htarget
    rw [hS, if_neg Bool.false_ne_true] at hpriv
    rw [if_neg Bool.false_ne_true]
    constructor
    · exact hpriv
    all_goals simp only [Csr.next, Csr.nextWith, htarget]
    · exact h.mtvec
    · exact h.mscratch
    · rfl
    · exact hcause
    · exact h.sscratch
    · exact h.sepc
    · exact h.scause
    · exact h.stval
    · exact hval
    · exact h.stvec
    · exact h.satp
    · exact h.frm
    · exact h.fflags

theorem Stores.step (hw : w = 32 ∨ w = 64) (hC : C.xlen = w) (h : σ.Stores c)
    (hmask : c.privState.Masked) (s : CsrStep w) (hn : s.Narrow c) :
    (σ.csrApply C s.op).Stores ((csrMachine w).step c s) := by
  obtain ⟨op, k, p⟩ := s
  have hpriv := privState_step (C := C) hw h.privState hmask k p op
  cases op with
  | access fn addr wdata => exact h.access hw hC hmask k p fn addr wdata hn
  | trap isInterrupt cause pc tval => exact h.trap hw hmask k p isInterrupt cause pc tval hn
  | mret => exact { h with privState := hpriv }
  | sret => exact { h with privState := hpriv }

/-- A whole word is read back from `CSR.v`, and at most 32 bits of it from the simulator. -/
theorem wide_readBack (fn : CsrFn) {addr : BitVec 12} (haddr : addr ∈ wideAddrs) (wdata : BitVec w)
    (k : Counters w) (p q : Pending) :
    (σ.csrApply C (.access fn addr wdata)).csrRead C addr < 2 ^ 32 ∧
      (c.next k p (CsrOp.access fn addr wdata).input).rdata k q addr =
        Csr.newVal fn.code (c.rdata k p addr) wdata ∧
      Csr.isCounterAddr addr = false ∧ addr ≠ csrAddrMip := by
  simp only [wideAddrs, List.mem_cons, List.not_mem_nil, or_false] at haddr
  rcases haddr with rfl | rfl | rfl | rfl | rfl | rfl | rfl | rfl | rfl | rfl | rfl <;>
    exact ⟨u32_lt _, rfl, rfl, by decide⟩

theorem trap_readBack (hw : w = 32 ∨ w = 64) (hpriv : σ.privState = c.privState)
    (isInterrupt : Bool) (cause : BitVec 31) (pc tval : BitVec w) (k : Counters w) (p q : Pending) :
    ∃ addr, (σ.csrApply C (.trap isInterrupt cause pc tval)).csrRead C addr < 2 ^ 32 ∧
      (c.next k p (CsrOp.trap isInterrupt cause pc tval).input).rdata k q addr = tval ∧
      Csr.isCounterAddr addr = false ∧ addr ≠ csrAddrMip := by
  have htarget := Csr.trapTargetIsS_input (c := c) (by omega) isInterrupt cause pc tval
  have hto : ({ σ with pc := pc.toNat } : Iss).trapToS (issCause isInterrupt cause) =
      c.privState.toS isInterrupt cause := by
    rw [← hpriv]
    exact trapToS_eq isInterrupt cause
  rw [csrApply, Iss.trap, hto]
  cases hS : c.privState.toS isInterrupt cause with
  | true =>
    rw [hS] at htarget
    refine ⟨csrAddrStval, u32_lt _, ?_, rfl, by decide⟩
    change (c.next k p (CsrOp.trap isInterrupt cause pc tval).input).stval = tval
    simp only [Csr.next, Csr.nextWith, htarget]
    rfl
  | false =>
    rw [hS] at htarget
    refine ⟨csrAddrMtval, u32_lt _, ?_, rfl, by decide⟩
    change (c.next k p (CsrOp.trap isInterrupt cause pc tval).input).mtval = tval
    simp only [Csr.next, Csr.nextWith, htarget]
    rfl

/-- What is too wide for the simulator reads differently at once. -/
theorem narrow_of_agree (hw : w = 32 ∨ w = 64) (s : CsrStep w) (hpriv : σ.privState = c.privState)
    (h : CsrAgree C (σ.csrApply C s.op) ((csrMachine w).step c s)) : s.Narrow c := by
  obtain ⟨op, k, p⟩ := s
  cases op with
  | access fn addr wdata =>
    intro hmem
    obtain ⟨hlt, hread, hcounter, hne⟩ :=
      wide_readBack (σ := σ) (C := C) (c := c) fn hmem wdata k p p
    have hagree := h.reads k p addr hcounter (fun heq ↦ absurd heq hne)
    rw [show ((csrMachine w).step c ⟨.access fn addr wdata, k, p⟩).rdata k p addr = _ from hread]
      at hagree
    exact hagree ▸ hlt
  | trap isInterrupt cause pc tval =>
    obtain ⟨addr, hlt, hread, hcounter, hne⟩ :=
      trap_readBack (C := C) hw hpriv isInterrupt cause pc tval k p p
    have hagree := h.reads k p addr hcounter (fun heq ↦ absurd heq hne)
    rw [show ((csrMachine w).step c ⟨.trap isInterrupt cause pc tval, k, p⟩).rdata k p addr = tval
      from hread] at hagree
    exact show tval.toNat < 2 ^ 32 from hagree ▸ hlt
  | mret => trivial
  | sret => trivial

end Iss

/-! ## Runs -/

section Runs

variable {C : IssConfig} {ins : ℕ → CsrStep w}

theorem masked_after (hw : w = 32 ∨ w = 64) (ins : ℕ → CsrStep w) (n : ℕ) :
    (Csr.after ins n).privState.Masked := (follows_csr (show 12 < w by omega) ins).masked n

theorem stores_init (w memSize : ℕ) : (Iss.init memSize).Stores (Csr.reset w) := by
  have hzero : (0 : BitVec w).getLsbD = (0 : ℕ).testBit := by
    funext j
    rw [Nat.zero_testBit]
    exact BitVec.getLsbD_zero
  have hword : 0 = (0 : BitVec w).toNat := (BitVec.toNat_ofNat 0 w ▸ (Nat.zero_mod _).symm)
  exact ⟨PrivState.ext rfl hzero.symm hzero.symm hzero.symm hzero.symm hzero.symm, hword, hword,
    hword, hword, hword, hword, hword, hword, hword, hword, hword, rfl, rfl⟩

/-- The privileged states agree in every run, whatever is written. -/
theorem privState_after (hw : w = 32 ∨ w = 64) (n : ℕ) :
    (Iss.after C (fun n ↦ (ins n).op) n).privState = (Csr.after ins n).privState := by
  induction n with
  | zero => exact (stores_init w C.memSize).privState
  | succ n ih =>
    exact Iss.privState_step hw ih (masked_after hw ins n) (ins n).counters (ins n).pending (ins n).op

theorem stores_after (hw : w = 32 ∨ w = 64) (hC : C.xlen = w) {N : ℕ}
    (hn : ∀ n < N, (ins n).Narrow (Csr.after ins n)) :
    ∀ n ≤ N, (Iss.after C (fun n ↦ (ins n).op) n).Stores (Csr.after ins n) := by
  intro n hle
  induction n with
  | zero => exact stores_init w C.memSize
  | succ n ih => exact (ih (by omega)).step hw hC (masked_after hw ins n) (ins n) (hn n (by omega))

/-- The two files agree in every state of a run exactly if no step of it puts more than 32 bits into
a register of a whole word. -/
theorem csr_files_agree_iff (hw : w = 32 ∨ w = 64) (hC : C.xlen = w) (ins : ℕ → CsrStep w) (N : ℕ) :
    (∀ n ≤ N, Iss.CsrAgree C (Iss.after C (fun n ↦ (ins n).op) n) (Csr.after ins n)) ↔
      ∀ n < N, (ins n).Narrow (Csr.after ins n) := by
  constructor
  · intro h n hn
    exact Iss.narrow_of_agree hw (ins n) (privState_after hw n) (h (n + 1) hn)
  · intro h n hn
    exact (stores_after hw hC h n hn).agree hw hC (masked_after hw ins n)

end Runs

/-- The same value written again and again. -/
def writeSteps (addr : BitVec 12) (v : BitVec 64) (_ : ℕ) : CsrStep 64 :=
  { op := .access .write addr v, counters := Counters.reset 64, pending := noLines }

def plainIss64 : IssConfig := { xlen := 64, fpStep := fun _ _ ↦ none }

theorem csr_files_agree_narrow :
    Iss.CsrAgree plainIss64
      (Iss.after plainIss64 (fun n ↦ (writeSteps csrAddrMscratch 0x80001000 n).op) 2)
      (Csr.after (writeSteps csrAddrMscratch 0x80001000) 2) :=
  (csr_files_agree_iff (.inr rfl) rfl (writeSteps csrAddrMscratch 0x80001000) 2).mpr
    (fun _ _ _ ↦ show (0x80001000#64).toNat < 2 ^ 32 by decide) 2 le_rfl

/-- `satp` set to Sv39: it reads back as zero from the simulator. -/
theorem not_csr_files_agree :
    ¬ ∀ (ins : ℕ → CsrStep 64) (N : ℕ), ∀ n ≤ N,
      Iss.CsrAgree plainIss64 (Iss.after plainIss64 (fun n ↦ (ins n).op) n) (Csr.after ins n) := by
  intro h
  have hread := (h (writeSteps csrAddrSatp 0x8000000000000000) 1 1 le_rfl).reads (Counters.reset 64)
    noLines csrAddrSatp rfl (fun _ ↦ rfl)
  exact absurd hread (by decide)

end RvPipeline
