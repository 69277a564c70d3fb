import RvPipeline.Iss.Step
import RvPipeline.Trap.CsrOps

/-!
# The CSR file of the simulator

The operations of `CSR.v` as the simulator performs them.  Its dictionary holds numbers, each cut
to 32 bits; of the privileged state that cuts nothing, so that the simulator too refines the
privileged state machine.
-/

namespace RvPipeline

variable {w : ℕ}

/-! ## Bits of numbers -/

theorem testBit_andNot (a b j : ℕ) : (andNot a b).testBit j = (a.testBit j && !b.testBit j) := by
  rw [andNot, Nat.testBit_xor, Nat.testBit_and]
  cases a.testBit j <;> cases b.testBit j <;> rfl

theorem testBit_u32 (n j : ℕ) : (u32 n).testBit j = (decide (j < 32) && n.testBit j) := by
  have hu : u32 n = n % 2 ^ 32 := by
    rw [u32, uXlen]
    norm_cast
  rw [hu, Nat.testBit_mod_two_pow]

/-- A bit of `v` moved to place `k`. -/
theorem testBit_moveBit (v i k j : ℕ) :
    ((v >>> i &&& 1) <<< k).testBit j = (decide (j = k) && v.testBit i) := by
  rw [Nat.testBit_shiftLeft, Nat.testBit_and, Nat.testBit_shiftRight]
  rcases Nat.lt_trichotomy j k with hlt | rfl | hgt
  · simp [hlt.not_ge, hlt.ne]
  · simp
  · have hone : Nat.testBit 1 (j - k) = false := by
      rw [Nat.testBit_eq_decide_div_mod_eq, Nat.div_eq_of_lt (Nat.one_lt_two_pow (by omega))]
      rfl
    simp [hone, hgt.ne']

theorem testBit_one_shiftLeft (i j : ℕ) : (1 <<< i).testBit j = decide (j = i) := by
  rw [Nat.one_shiftLeft, Nat.testBit_two_pow]
  exact decide_eq_decide.mpr eq_comm

def bitsMask (bits : List ℕ) : ℕ := bits.foldr (fun i acc ↦ 1 <<< i ||| acc) 0

theorem testBit_bitsMask (bits : List ℕ) (j : ℕ) :
    (bitsMask bits).testBit j = decide (j ∈ bits) := by
  induction bits with
  | nil => simp [bitsMask]
  | cons i bits ih =>
    rw [bitsMask, List.foldr_cons, Nat.testBit_or, testBit_one_shiftLeft, ← bitsMask, ih]
    simp

theorem testBit_toNat_shiftLeft (v : BitVec w) (i j : ℕ) :
    (v.toNat <<< i).testBit j = (decide (i ≤ j) && v.getLsbD (j - i)) := by
  rw [Nat.testBit_shiftLeft]
  rfl

/-! ## Operations -/

/-- The cause as `trap` takes it, the interrupt flag on top. -/
def issCause (isInterrupt : Bool) (cause : BitVec 31) : ℕ :=
  (BitVec.ofBool isInterrupt ++ cause).toNat

namespace Iss

def csrApply (C : IssConfig) (σ : Iss) : CsrOp w → Iss
  | .access fn addr wdata =>
    σ.csrWrite addr (csrNewVal (0#1 ++ fn.code) (σ.csrRead C addr) wdata.toNat)
  | .trap isInterrupt cause pc tval =>
    { σ with pc := pc.toNat }.trap (issCause isInterrupt cause) tval.toNat
  | .mret => σ.mret
  | .sret => σ.sret

def privState (σ : Iss) : PrivState :=
  { priv := σ.privMode
    mstatus := (σ.csr csrAddrMstatus).testBit
    mie := (σ.csr csrAddrMie).testBit
    mip := (σ.csr csrAddrMip).testBit
    mideleg := (σ.csr csrAddrMideleg).testBit
    medeleg := (σ.csr csrAddrMedeleg).testBit }

end Iss

/-! ## The simulator refines the privileged state machine -/

namespace Iss

variable {σ : Iss} {C : IssConfig}

theorem testBit_csrNewVal (fn : CsrFn) (old : ℕ) (wdata : BitVec w) (j : ℕ) :
    (csrNewVal (0#1 ++ fn.code) old wdata.toNat).testBit j =
      fn.bit (old.testBit j) (wdata.getLsbD j) := by
  cases fn with
  | write => rfl
  | set => exact Nat.testBit_or ..
  | clear => exact testBit_andNot old wdata.toNat j

/-- A number cut to the bits of a register, then to 32 bits. -/
theorem testBit_writeMasked {bits : List ℕ} {mask old : ℕ} (hmask : mask = bitsMask bits)
    (hbits : ∀ j ∈ bits, j < 32) (fn : CsrFn) (b : ℕ → Bool) (wdata : BitVec w)
    (hold : ∀ j ∈ bits, old.testBit j = b j) :
    (u32 (csrNewVal (0#1 ++ fn.code) old wdata.toNat &&& mask : ℕ)).testBit =
      PrivState.writeMasked bits fn b wdata := by
  funext j
  rw [testBit_u32, Nat.testBit_and, testBit_csrNewVal, hmask, testBit_bitsMask,
    PrivState.writeMasked]
  by_cases hj : j ∈ bits
  · simp [hj, hbits j hj, hold j hj]
  · simp [hj]

/-- The same through a view, the other bits of the register kept. -/
theorem testBit_writeView {bits : List ℕ} {mask reg old : ℕ} (hmask : mask = bitsMask bits)
    (hbits : ∀ j ∈ bits, j < 32) (hreg : ∀ j, reg.testBit j = true → j < 32) (fn : CsrFn)
    (wdata : BitVec w) (hold : ∀ j ∈ bits, old.testBit j = reg.testBit j) :
    (u32 (andNot reg mask ||| (csrNewVal (0#1 ++ fn.code) old wdata.toNat &&& mask) : ℕ)).testBit =
      PrivState.writeView bits fn reg.testBit wdata := by
  funext j
  rw [testBit_u32, Nat.testBit_or, testBit_andNot, Nat.testBit_and, testBit_csrNewVal, hmask,
    testBit_bitsMask, PrivState.writeView]
  by_cases hj : j ∈ bits
  · simp [hj, hbits j hj, hold j hj]
  · cases hr : reg.testBit j with
    | false => simp [hj]
    | true => simp [hj, hreg j hr]

theorem testBit_maskBit (v i j : ℕ) : (maskBit v i).testBit j = (decide (j = i) && v.testBit j) := by
  rw [maskBit, testBit_moveBit]
  by_cases hj : j = i
  · rw [hj]
  · simp [hj]

/-- The reads a write starts from. -/
theorem testBit_csrRead_mstatus {j : ℕ} (hj : j ∈ Csr.mstatusBits) :
    (σ.csrRead C csrAddrMstatus).testBit j = (σ.csr csrAddrMstatus).testBit j := by
  have hread : σ.csrRead C csrAddrMstatus =
      if csrAddrMstatus = csrAddrMstatus ∧ C.xlen = 64 then
        σ.csr csrAddrMstatus ||| (2 <<< 32) ||| (2 <<< 34)
      else σ.csr csrAddrMstatus := rfl
  have hhigh : (2 <<< 32).testBit j = false ∧ (2 <<< 34).testBit j = false := by
    revert j
    decide
  rw [hread]
  split_ifs
  · rw [Nat.testBit_or, Nat.testBit_or, hhigh.1, hhigh.2, Bool.or_false, Bool.or_false]
  · rfl

theorem testBit_view {v a b c j : ℕ} (hj : j ∈ [a, b, c]) :
    (maskBit v a ||| maskBit v b ||| maskBit v c).testBit j = v.testBit j := by
  simp only [List.mem_cons, List.not_mem_nil, or_false] at hj
  simp only [Nat.testBit_or, testBit_maskBit]
  cases v.testBit j with
  | false => simp
  | true => simpa [or_assoc] using hj

/-- An address that names none of the masked registers. -/
theorem privState_csrWrite_of_ne {addr : BitVec 12} {v : ℕ}
    (h : addr ∉ [csrAddrMstatus, csrAddrSstatus, csrAddrMie, csrAddrSie, csrAddrMip, csrAddrSip,
      csrAddrMideleg, csrAddrMedeleg]) : (σ.csrWrite addr v).privState = σ.privState := by
  simp only [List.mem_cons, List.not_mem_nil, or_false, not_or] at h
  obtain ⟨h1, h2, h3, h4, h5, h6, h7, h8⟩ := h
  simp only [csrWrite, h1, h2, h3, h4, h5, h6, h7, h8, if_false, or_self]
  split_ifs
  · rfl
  · rfl
  · rfl
  · simp [privState, setCsr, Function.update_of_ne, Ne.symm h1, Ne.symm h3, Ne.symm h5, Ne.symm h7,
      Ne.symm h8]
  · rfl

theorem privState_access (h : σ.privState.Masked) (fn : CsrFn) (addr : BitVec 12)
    (wdata : BitVec w) :
    (σ.csrApply C (.access fn addr wdata)).privState =
      σ.privState.apply (.access fn addr wdata) := by
  have hlow : ∀ j ∈ Csr.mstatusBits ++ Csr.mieBits, j < 32 := by decide
  by_cases haddr : addr ∈ [csrAddrMstatus, csrAddrSstatus, csrAddrMie, csrAddrSie, csrAddrMip,
      csrAddrSip, csrAddrMideleg, csrAddrMedeleg]
  · simp only [List.mem_cons, List.not_mem_nil, or_false] at haddr
    rcases haddr with rfl | rfl | rfl | rfl | rfl | rfl | rfl | rfl
    · refine PrivState.ext rfl ?_ rfl rfl rfl rfl
      exact testBit_writeMasked (by decide) (by decide) fn _ wdata
        (fun j hj ↦ testBit_csrRead_mstatus hj)
    · refine PrivState.ext rfl ?_ rfl rfl rfl rfl
      exact testBit_writeView (by decide) (by decide)
        (fun j hj ↦ hlow j (List.mem_append_left _ (h.mstatus j hj))) fn wdata
        (fun j hj ↦ testBit_view hj)
    · refine PrivState.ext rfl rfl ?_ rfl rfl rfl
      exact testBit_writeMasked (by decide) (by decide) fn _ wdata (fun _ _ ↦ rfl)
    · refine PrivState.ext rfl rfl ?_ rfl rfl rfl
      exact testBit_writeView (by decide) (by decide)
        (fun j hj ↦ hlow j (List.mem_append_right _ (h.mie j hj))) fn wdata
        (fun j hj ↦ testBit_view hj)
    · refine PrivState.ext rfl rfl rfl ?_ rfl rfl
      exact testBit_writeMasked (by decide) (by decide) fn _ wdata (fun _ _ ↦ rfl)
    · refine PrivState.ext rfl rfl rfl ?_ rfl rfl
      exact testBit_writeMasked (by decide) (by decide) fn _ wdata (fun j hj ↦ testBit_view hj)
    · refine PrivState.ext rfl rfl rfl rfl ?_ rfl
      exact testBit_writeMasked (by decide) (by decide) fn _ wdata (fun _ _ ↦ rfl)
    · refine PrivState.ext rfl rfl rfl rfl rfl ?_
      exact testBit_writeMasked (by decide) (by decide) fn _ wdata (fun _ _ ↦ rfl)
  · rw [csrApply, privState_csrWrite_of_ne haddr]
    simp only [List.mem_cons, List.not_mem_nil, or_false, not_or] at haddr
    simp [PrivState.apply, haddr]

theorem trapToS_eq (isInterrupt : Bool) (cause : BitVec 31) :
    σ.trapToS (issCause isInterrupt cause) = σ.privState.toS isInterrupt cause := by
  have hint : (issCause isInterrupt cause).testBit 31 = isInterrupt := by
    change (BitVec.ofBool isInterrupt ++ cause).getLsbD 31 = isInterrupt
    rw [BitVec.getLsbD_append]
    cases isInterrupt <;> rfl
  have hcause : issCause isInterrupt cause &&& 0x1F = (cause.extractLsb' 0 5).toNat := by
    apply Nat.eq_of_testBit_eq
    intro j
    have hlow : Nat.testBit 0x1F j = decide (j < 5) := Nat.testBit_two_pow_sub_one 5 j
    have hbit : (issCause isInterrupt cause).testBit j =
        (BitVec.ofBool isInterrupt ++ cause).getLsbD j := rfl
    rw [Nat.testBit_and, hlow, hbit, BitVec.getLsbD_append, ← BitVec.getLsbD,
      BitVec.getLsbD_extractLsb']
    by_cases hj : j < 5
    · simp [hj, show j < 31 by omega]
    · simp [hj]
  rw [trapToS, PrivState.toS, hint, hcause]
  cases isInterrupt <;> rfl

/-- The mode in the MPP field. -/
theorem testBit_mpp (priv : BitVec 2) (j : ℕ) :
    (priv.toNat <<< mstatusMppLo).testBit j =
      if j = 12 then priv.getLsbD 1 else if j = 11 then priv.getLsbD 0 else false := by
  rw [testBit_toNat_shiftLeft]
  split_ifs with h12 h11
  · rw [h12]
    rfl
  · rw [h11]
    rfl
  · rcases Nat.lt_or_ge j 11 with hlt | hge
    · rw [decide_eq_false (by exact hlt.not_ge), Bool.false_and]
    · rw [BitVec.getLsbD_of_ge priv (j - 11) (by omega), Bool.and_false]

/-- The shape of every update of `mstatus`: some bits are cleared, others put in. -/
theorem testBit_update (bits : List ℕ) {m mask put : ℕ} {f : ℕ → Bool} (hmask : mask = bitsMask bits)
    (hbits : ∀ j ∈ bits, j < 32) (hm : ∀ j, m.testBit j = true → j < 32)
    (hin : ∀ j ∈ bits, put.testBit j = f j)
    (hout : ∀ j, j ∉ bits → put.testBit j = false ∧ f j = m.testBit j) :
    (u32 (andNot m mask ||| put : ℕ)).testBit = f := by
  funext j
  rw [testBit_u32, Nat.testBit_or, testBit_andNot, hmask, testBit_bitsMask]
  by_cases hj : j ∈ bits
  · simp [hj, hbits j hj, hin j hj]
  · obtain ⟨hput, hf⟩ := hout j hj
    rw [hput, hf]
    cases hmj : m.testBit j with
    | false => simp
    | true => simp [hj, hm j hmj]

theorem testBit_stackM {m : ℕ} (hm : ∀ j, m.testBit j = true → j < 32) (priv : BitVec 2) :
    (u32 (andNot m ((1 <<< 3) ||| (1 <<< 7) ||| (0b11 <<< mstatusMppLo)) |||
      (((m >>> 3 &&& 1) <<< 7) ||| (priv.toNat <<< mstatusMppLo)) : ℕ)).testBit =
      PrivState.stackM priv m.testBit := by
  have hput : ∀ j, (((m >>> 3 &&& 1) <<< 7) ||| (priv.toNat <<< mstatusMppLo)).testBit j =
      ((decide (j = 7) && m.testBit 3) ||
        if j = 12 then priv.getLsbD 1 else if j = 11 then priv.getLsbD 0 else false) := by
    intro j
    rw [Nat.testBit_or, testBit_moveBit, testBit_mpp]
  refine testBit_update [3, 7, 11, 12] rfl (by decide) hm ?_ ?_
  · intro j hj
    rw [hput]
    simp only [List.mem_cons, List.not_mem_nil, or_false] at hj
    rcases hj with rfl | rfl | rfl | rfl
    · rfl
    · exact Bool.or_false _
    · rfl
    · rfl
  · intro j hj
    rw [hput]
    simp only [List.mem_cons, List.not_mem_nil, or_false, not_or] at hj
    simp [PrivState.stackM, hj]

theorem testBit_stackS {m : ℕ} (hm : ∀ j, m.testBit j = true → j < 32) (priv : BitVec 2) :
    (u32 (andNot m sstatusMask |||
      (((m >>> mstatusSieBit &&& 1) <<< mstatusSpieBit) |||
        ((priv.toNat &&& 1) <<< mstatusSppBit)) : ℕ)).testBit =
      PrivState.stackS priv m.testBit := by
  have hput : ∀ j, (((m >>> mstatusSieBit &&& 1) <<< mstatusSpieBit) |||
      ((priv.toNat &&& 1) <<< mstatusSppBit)).testBit j =
        ((decide (j = 5) && m.testBit 1) || (decide (j = 8) && priv.getLsbD 0)) := by
    intro j
    rw [Nat.testBit_or, testBit_moveBit]
    congr 1
    exact testBit_moveBit priv.toNat 0 8 j
  refine testBit_update Csr.sstatusBits (by decide) (by decide) hm ?_ ?_
  · intro j hj
    rw [hput]
    simp only [Csr.sstatusBits, List.mem_cons, List.not_mem_nil, or_false] at hj
    rcases hj with rfl | rfl | rfl
    · rfl
    · exact Bool.or_false _
    · rfl
  · intro j hj
    rw [hput]
    simp only [Csr.sstatusBits, List.mem_cons, List.not_mem_nil, or_false, not_or] at hj
    simp [PrivState.stackS, hj]

theorem testBit_popM {m : ℕ} (hm : ∀ j, m.testBit j = true → j < 32) :
    (u32 (andNot m ((1 <<< 3) ||| (1 <<< 7) ||| (0b11 <<< mstatusMppLo)) |||
      (((m >>> 7 &&& 1) <<< 3) ||| (1 <<< 7) ||| (privU.toNat <<< mstatusMppLo)) : ℕ)).testBit =
      PrivState.popM m.testBit := by
  have hput : ∀ j, (((m >>> 7 &&& 1) <<< 3) ||| (1 <<< 7) |||
      (privU.toNat <<< mstatusMppLo)).testBit j =
        ((decide (j = 3) && m.testBit 7) || decide (j = 7)) := by
    intro j
    have hzero : privU.toNat <<< mstatusMppLo = 0 := rfl
    rw [hzero, Nat.or_zero, Nat.testBit_or, testBit_moveBit, testBit_one_shiftLeft]
  refine testBit_update [3, 7, 11, 12] rfl (by decide) hm ?_ ?_
  · intro j hj
    rw [hput]
    simp only [List.mem_cons, List.not_mem_nil, or_false] at hj
    rcases hj with rfl | rfl | rfl | rfl
    · exact Bool.or_false _
    · rfl
    · rfl
    · rfl
  · intro j hj
    rw [hput]
    simp only [List.mem_cons, List.not_mem_nil, or_false, not_or] at hj
    simp [PrivState.popM, hj]

theorem testBit_popS {m : ℕ} (hm : ∀ j, m.testBit j = true → j < 32) :
    (u32 (andNot m sstatusMask |||
      (((m >>> mstatusSpieBit &&& 1) <<< mstatusSieBit) ||| (1 <<< mstatusSpieBit)) : ℕ)).testBit =
      PrivState.popS m.testBit := by
  have hput : ∀ j, (((m >>> mstatusSpieBit &&& 1) <<< mstatusSieBit) |||
      (1 <<< mstatusSpieBit)).testBit j = ((decide (j = 1) && m.testBit 5) || decide (j = 5)) := by
    intro j
    rw [Nat.testBit_or, testBit_moveBit, testBit_one_shiftLeft]
  refine testBit_update Csr.sstatusBits (by decide) (by decide) hm ?_ ?_
  · intro j hj
    rw [hput]
    simp only [Csr.sstatusBits, List.mem_cons, List.not_mem_nil, or_false] at hj
    rcases hj with rfl | rfl | rfl
    · exact Bool.or_false _
    · rfl
    · rfl
  · intro j hj
    rw [hput]
    simp only [Csr.sstatusBits, List.mem_cons, List.not_mem_nil, or_false, not_or] at hj
    simp [PrivState.popS, hj]

theorem ofNat_mpp (m : ℕ) :
    BitVec.ofNat 2 (m >>> mstatusMppLo &&& 0b11) =
      BitVec.ofBool (m.testBit (mstatusMppLo + 1)) ++ BitVec.ofBool (m.testBit mstatusMppLo) := by
  apply BitVec.eq_of_getLsbD_eq
  intro j hj
  rw [BitVec.getLsbD_ofNat, Nat.testBit_and, Nat.testBit_shiftRight]
  rcases (by omega : j = 0 ∨ j = 1) with rfl | rfl
  · rw [Nat.add_zero]
    cases m.testBit mstatusMppLo <;> cases m.testBit (mstatusMppLo + 1) <;> rfl
  · cases m.testBit mstatusMppLo <;> cases m.testBit (mstatusMppLo + 1) <;> rfl

theorem ofNat_spp (m : ℕ) :
    BitVec.ofNat 2 (m >>> mstatusSppBit &&& 1) = 0#1 ++ BitVec.ofBool (m.testBit mstatusSppBit) := by
  apply BitVec.eq_of_getLsbD_eq
  intro j hj
  rw [BitVec.getLsbD_ofNat, Nat.testBit_and, Nat.testBit_shiftRight]
  rcases (by omega : j = 0 ∨ j = 1) with rfl | rfl
  · rw [Nat.add_zero]
    cases m.testBit mstatusSppBit <;> rfl
  · have hone : Nat.testBit 1 1 = false := rfl
    rw [hone, Bool.and_false]
    cases m.testBit mstatusSppBit <;> rfl

/-- The simulator refines the privileged state machine. -/
theorem privState_csrApply (h : σ.privState.Masked) (op : CsrOp w) :
    (σ.csrApply C op).privState = σ.privState.apply op := by
  have hm : ∀ j, (σ.csr csrAddrMstatus).testBit j = true → j < 32 := by
    have hlow : ∀ j ∈ Csr.mstatusBits, j < 32 := by decide
    exact fun j hj ↦ hlow j (h.mstatus j hj)
  cases op with
  | access fn addr wdata => exact privState_access h fn addr wdata
  | trap isInterrupt cause pc tval =>
    have hto : ({ σ with pc := pc.toNat } : Iss).trapToS (issCause isInterrupt cause) =
        σ.privState.toS isInterrupt cause := trapToS_eq isInterrupt cause
    rw [csrApply, trap, hto, PrivState.apply]
    split_ifs
    · exact PrivState.ext rfl (testBit_stackS hm σ.privMode) rfl rfl rfl rfl
    · exact PrivState.ext rfl (testBit_stackM hm σ.privMode) rfl rfl rfl rfl
  | mret =>
    exact PrivState.ext (ofNat_mpp _) (testBit_popM hm) rfl rfl rfl rfl
  | sret =>
    exact PrivState.ext (ofNat_spp _) (testBit_popS hm) rfl rfl rfl rfl

end Iss

end RvPipeline
