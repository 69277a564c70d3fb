import Mathlib.Data.Nat.Bitwise
import RvPipeline.Iss.Arith
import RvPipeline.Mem.Lsu

/-!
# Byte-array semantics of the data memory

The data memory against an array of bytes and the load case of the simulator.
-/

namespace RvPipeline

/-! ## The array -/

/-- The load case of `ISS.step`; `v n` is the value of the `n` bytes at the address. -/
def loadCase (f3 : BitVec 3) (v : ℕ → ℕ) : Option ℤ :=
  if f3 = 0b000#3 then
    some (s32 (v 1 ||| if v 1 &&& 0x80 ≠ 0 then 0xFFFFFF00 else 0 : ℕ))
  else if f3 = 0b001#3 then
    some (s32 (v 2 ||| if v 2 &&& 0x8000 ≠ 0 then 0xFFFF0000 else 0 : ℕ))
  else if f3 = 0b010#3 then some (s32 (v 4))
  else if f3 = 0b100#3 then some (v 1)
  else if f3 = 0b101#3 then some (v 2)
  else if f3 = 0b011#3 then some (v 8)
  else if f3 = 0b110#3 then some (v 4)
  else none

theorem Iss.loadResult_eq_loadCase (C : IssConfig) (σ : Iss) (f3 : BitVec 3) (addr : ℕ) :
    σ.loadResult C f3 addr = loadCase f3 (σ.loadMem C addr) := rfl

/-- `n` bytes from `addr` on, lowest first. -/
def littleEndian (m : ℕ → BitVec 8) (addr : ℕ) : ℕ → ℕ
  | 0 => 0
  | n + 1 => littleEndian m addr n ||| (m (addr + n)).toNat <<< (8 * n)

/-- What a load of the simulator writes back at this width. -/
def issLoad (w : ℕ) (m : ℕ → BitVec 8) (f3 : BitVec 3) (addr : ℕ) : Option ℕ :=
  (loadCase f3 (littleEndian m addr)).map fun v ↦ uXlen v w

/-- How many bytes an access of this `funct3` touches. -/
def accessBytes (f3 : BitVec 3) : ℕ := 2 ^ (f3.extractLsb' 0 2).toNat

/-- The array after a store. -/
def storeBytesTo (m : ℕ → BitVec 8) {w : ℕ} (addr data : BitVec w) (f3 : BitVec 3) :
    ℕ → BitVec 8 := fun i ↦
  if addr.toNat ≤ i ∧ i < addr.toNat + accessBytes f3 then
    data.extractLsb' (8 * (i - addr.toNat)) 8
  else m i

/-- The array after the first `j` accesses. -/
def bytesAfter {w : ℕ} (m : ℕ → BitVec 8) (ops : ℕ → MemOp w) : ℕ → ℕ → BitVec 8
  | 0 => m
  | j + 1 =>
    match ops j with
    | .store addr data f3 => storeBytesTo (bytesAfter m ops j) addr data f3
    | _ => bytesAfter m ops j

/-- `ld`, `lwu` and `sd` exist at 64 bits only. -/
def loadLegal (w : ℕ) (f3 : BitVec 3) : Bool :=
  f3 == 0b000#3 || f3 == 0b001#3 || f3 == 0b010#3 || f3 == 0b100#3 || f3 == 0b101#3 ||
    (w == 64 && (f3 == 0b011#3 || f3 == 0b110#3))

def storeLegal (w : ℕ) (f3 : BitVec 3) : Bool :=
  f3 == 0b000#3 || f3 == 0b001#3 || f3 == 0b010#3 || (w == 64 && f3 == 0b011#3)

/-- The access exists at this width and its bytes are in the memory. -/
def MemOp.InRange {w : ℕ} (sizeBytes : ℕ) : MemOp w → Prop
  | .load addr f3 => loadLegal w f3 = true ∧ addr.toNat + accessBytes f3 ≤ sizeBytes
  | .store addr _ f3 => storeLegal w f3 = true ∧ addr.toNat + accessBytes f3 ≤ sizeBytes
  | _ => True

/-- A byte or halfword load whose sign bit is set. -/
def MemOp.negative {w : ℕ} (m : ℕ → BitVec 8) : MemOp w → Bool
  | .load addr f3 =>
    (f3 == 0b000#3 && (m addr.toNat).msb) || (f3 == 0b001#3 && (m (addr.toNat + 1)).msb)
  | _ => false

/-! ## Words and bytes -/

section Words

variable {w : ℕ}

theorem byte_of_rawWord (hw : w = 32 ∨ w = 64) (m : Ram w) (addr : BitVec w) {n : ℕ}
    (hn : 8 * n < w) : (m.rawWord addr).extractLsb' (8 * n) 8 = m (addr + BitVec.ofNat w n) := by
  rcases hw with rfl | rfl
  · have hraw : m.rawWord addr = m (addr + 3) ++ m (addr + 2) ++ m (addr + 1) ++ m addr := by
      rw [Ram.rawWord, if_neg (by decide), BitVec.setWidth_eq]
    have hlt : n < 4 := by omega
    rw [hraw]
    interval_cases n <;> simp (disch := omega) only [BitVec.extractLsb'_append_eq_of_le,
      BitVec.extractLsb'_append_eq_of_add_le, BitVec.extractLsb'_eq_self, Nat.reduceMul,
      Nat.reduceSub, BitVec.ofNat_eq_ofNat, BitVec.add_zero]
  · have hraw : m.rawWord addr = m (addr + 7) ++ m (addr + 6) ++ m (addr + 5) ++ m (addr + 4) ++
        (m (addr + 3) ++ m (addr + 2) ++ m (addr + 1) ++ m addr) := by
      rw [Ram.rawWord, if_pos (by decide), BitVec.setWidth_eq]
    have hlt : n < 8 := by omega
    rw [hraw]
    interval_cases n <;> simp (disch := omega) only [BitVec.extractLsb'_append_eq_of_le,
      BitVec.extractLsb'_append_eq_of_add_le, BitVec.extractLsb'_eq_self, Nat.reduceMul,
      Nat.reduceSub, BitVec.ofNat_eq_ofNat, BitVec.add_zero]
    all_goals exact BitVec.extractLsb'_eq_self

theorem littleEndian_eq (hw : w = 32 ∨ w = 64) {b : ℕ → BitVec 8} {m : Ram w} {addr : BitVec w}
    {n : ℕ} (hn : 8 * n ≤ w) (h : ∀ i < n, b (addr.toNat + i) = m (addr + BitVec.ofNat w i)) :
    littleEndian b addr.toNat n = ((m.rawWord addr).setWidth (8 * n)).toNat := by
  rw [BitVec.toNat_setWidth]
  induction n with
  | zero => simp [littleEndian, Nat.mod_one]
  | succ n ih =>
    have hbyte : (m (addr + BitVec.ofNat w n)).toNat =
        (m.rawWord addr).toNat / 2 ^ (8 * n) % 2 ^ 8 := by
      rw [← byte_of_rawWord hw m addr (by omega), BitVec.extractLsb'_toNat,
        Nat.shiftRight_eq_div_pow]
    rw [littleEndian, ih (by omega) fun i hi ↦ h i (by omega), h n (by omega), hbyte,
      mod_two_pow_succ]

/-! ## Sign extension -/

/-- The sign bits the simulator ORs in. -/
theorem or_signBits {k : ℕ} (hk : k ≤ 32) (x : BitVec k) :
    (x.toNat ||| if x.toNat &&& 2 ^ (k - 1) ≠ 0 then 2 ^ 32 - 2 ^ k else 0) =
      (x.signExtend 32).toNat := by
  have hle : 2 ^ k ≤ 2 ^ 32 := Nat.pow_le_pow_right (by decide) hk
  have hmsb : x.msb = true ↔ x.toNat &&& 2 ^ (k - 1) ≠ 0 := by
    rw [BitVec.msb_eq_getLsbD_last, BitVec.getLsbD, Nat.and_two_pow]
    cases x.toNat.testBit (k - 1) <;> simp
  rw [BitVec.toNat_signExtend, BitVec.toNat_setWidth_of_le hk]
  by_cases hneg : x.toNat &&& 2 ^ (k - 1) ≠ 0
  · have hhigh : 2 ^ 32 - 2 ^ k = 2 ^ k * (2 ^ (32 - k) - 1) := by
      rw [Nat.mul_sub, ← pow_add, mul_one, Nat.add_sub_cancel' hk]
    rw [if_pos hneg, if_pos (hmsb.2 hneg), Nat.or_comm, hhigh, ← Nat.two_pow_add_eq_or_of_lt x.isLt,
      add_comm]
  · rw [if_neg hneg, if_neg (mt hmsb.1 hneg), Nat.or_zero, add_zero]

theorem uXlen_s32 (x : BitVec 32) : uXlen (s32 x.toNat) w = (x.signExtend w).toNat := by
  rw [s32, sXlen_toNat, uXlen_eq, BitVec.signExtend]

theorem msb_signExtend_32 {k : ℕ} (hk : k ≤ 32) (x : BitVec k) :
    (x.signExtend 32).msb = x.msb := by
  rw [BitVec.msb_signExtend, decide_eq_true (by decide), Bool.true_and]
  split_ifs with h
  · rw [show k - 32 = 0 by omega, BitVec.msb]
  · rfl

/-- The simulator extends to the full width, the core to 32 bits only. -/
theorem signed_eq_iff (hw : w = 32 ∨ w = 64) {k : ℕ} (hk : k ≤ 32) (x : BitVec k) :
    uXlen (s32 (x.toNat ||| if x.toNat &&& 2 ^ (k - 1) ≠ 0 then 2 ^ 32 - 2 ^ k else 0 : ℕ)) w =
      ((x.signExtend 32).setWidth w).toNat ↔ w = 32 ∨ x.msb = false := by
  rw [or_signBits hk, uXlen_s32]
  rcases hw with rfl | rfl
  · simp [BitVec.signExtend_eq]
  · rw [BitVec.toNat_signExtend, msb_signExtend_32 hk]
    cases x.msb <;> simp

theorem msb_byte (hw : w = 32 ∨ w = 64) (m : Ram w) (addr : BitVec w) :
    ((m.rawWord addr).setWidth 8).msb = (m addr).msb := by
  have hbyte := byte_of_rawWord hw m addr (n := 0) (by omega)
  rw [BitVec.add_zero] at hbyte
  rw [← hbyte, Nat.mul_zero, BitVec.setWidth_eq_extractLsb' (by omega)]

theorem msb_half (hw : w = 32 ∨ w = 64) (m : Ram w) (addr : BitVec w) :
    ((m.rawWord addr).setWidth 16).msb = (m (addr + BitVec.ofNat w 1)).msb := by
  rw [← byte_of_rawWord hw m addr (by omega), BitVec.msb_eq_getLsbD_last,
    BitVec.msb_eq_getLsbD_last, BitVec.getLsbD_setWidth, BitVec.getLsbD_extractLsb']
  simp

/-- A load of the core and of the simulator on the same bytes: they differ on the negative byte
or halfword that the core does not extend beyond 32 bits. -/
theorem issLoad_eq_iff (hw : w = 32 ∨ w = 64) {b : ℕ → BitVec 8} {m : Ram w} {addr : BitVec w}
    {f3 : BitVec 3} (hf : loadLegal w f3 = true)
    (h : ∀ i < accessBytes f3, b (addr.toNat + i) = m (addr + BitVec.ofNat w i)) :
    issLoad w b f3 addr.toNat = some (loadExtend f3 (m.rawWord addr)).toNat ↔
      (w = 32 ∨ MemOp.negative b (.load addr f3) = false) := by
  have hsmall : ∀ {k : ℕ} (x : BitVec k), uXlen x.toNat w = (x.setWidth w).toNat := by
    intro k x
    rw [uXlen_eq, BitVec.ofInt_natCast, BitVec.toNat_ofNat, BitVec.toNat_setWidth]
  have hle : ∀ {n : ℕ}, n = accessBytes f3 → 8 * n ≤ w →
      littleEndian b addr.toNat n = ((m.rawWord addr).setWidth (8 * n)).toNat :=
    fun hn hnw ↦ littleEndian_eq hw hnw fun i hi ↦ h i (hn ▸ hi)
  have hwide : ∀ {k : ℕ} (x : BitVec k), k ≤ 32 → (x.setWidth 32).setWidth w = x.setWidth w := by
    intro k x hk
    apply BitVec.eq_of_toNat_eq
    rw [BitVec.toNat_setWidth, BitVec.toNat_setWidth_of_le hk, BitVec.toNat_setWidth]
  simp only [loadLegal, Bool.or_eq_true, Bool.and_eq_true, beq_iff_eq] at hf
  rcases hf with ((((rfl | rfl) | rfl) | rfl) | rfl) | ⟨rfl, rfl | rfl⟩
  · -- lb
    have hb : b addr.toNat = m addr := by
      simpa using h 0 (by decide)
    have hval := hle (n := 1) rfl (by omega)
    have hiff := signed_eq_iff hw (by decide) ((m.rawWord addr).setWidth 8)
    rw [msb_byte hw] at hiff
    simpa [issLoad, loadCase, hval, loadExtend, MemOp.negative, hb] using hiff
  · -- lh
    have hb : b (addr.toNat + 1) = m (addr + 1#w) := h 1 (by decide)
    have hval := hle (n := 2) rfl (by omega)
    have hiff := signed_eq_iff hw (by decide) ((m.rawWord addr).setWidth 16)
    rw [msb_half hw] at hiff
    simpa [issLoad, loadCase, hval, loadExtend, MemOp.negative, hb] using hiff
  · -- lw
    have hval := hle (n := 4) rfl (by omega)
    have hword := uXlen_s32 (w := w) ((m.rawWord addr).setWidth 32)
    refine iff_of_true ?_ (by simp [MemOp.negative])
    simpa [issLoad, loadCase, hval, loadExtend] using hword
  · -- lbu
    have hval := hle (n := 1) rfl (by omega)
    have hbyte := hsmall ((m.rawWord addr).setWidth 8)
    refine iff_of_true ?_ (by simp [MemOp.negative])
    rw [← hwide _ (by decide)] at hbyte
    rw [issLoad, show loadCase 0b100#3 (littleEndian b addr.toNat) =
      some (littleEndian b addr.toNat 1 : ℤ) from rfl, hval]
    exact congrArg some hbyte
  · -- lhu
    have hval := hle (n := 2) rfl (by omega)
    have hhalf := hsmall ((m.rawWord addr).setWidth 16)
    refine iff_of_true ?_ (by simp [MemOp.negative])
    rw [← hwide _ (by decide)] at hhalf
    rw [issLoad, show loadCase 0b101#3 (littleEndian b addr.toNat) =
      some (littleEndian b addr.toNat 2 : ℤ) from rfl, hval]
    exact congrArg some hhalf
  · -- ld
    have hval := hle (n := 8) rfl (by omega)
    have hword := uXlen_toNat (m.rawWord addr)
    refine iff_of_true ?_ (by simp [MemOp.negative])
    simpa [issLoad, loadCase, hval, loadExtend] using hword
  · -- lwu
    have hval := hle (n := 4) rfl (by omega)
    have hword := hsmall ((m.rawWord addr).setWidth 32)
    refine iff_of_true ?_ (by simp [MemOp.negative])
    simpa [issLoad, loadCase, hval, loadExtend] using hword

theorem storeWidth_eq (hw : w = 32 ∨ w = 64) {f3 : BitVec 3} (hf : storeLegal w f3 = true) :
    storeWidth w f3 = accessBytes f3 := by
  simp only [storeLegal, Bool.or_eq_true, Bool.and_eq_true, beq_iff_eq] at hf
  rcases hf with ((rfl | rfl) | rfl) | ⟨rfl, rfl⟩
  · rcases hw with rfl | rfl <;> rfl
  · rcases hw with rfl | rfl <;> rfl
  · rcases hw with rfl | rfl <;> rfl
  · rfl

/-- A store writes its bytes to the array and nothing else. -/
theorem write_eq (hw : w = 32 ∨ w = 64) {sizeBytes : ℕ} (hsize : sizeBytes ≤ 2 ^ w)
    {b : ℕ → BitVec 8} {m : Ram w} (h : ∀ i < sizeBytes, m (BitVec.ofNat w i) = b i)
    {addr data : BitVec w} {f3 : BitVec 3} (hf : storeLegal w f3 = true)
    (hin : addr.toNat + accessBytes f3 ≤ sizeBytes) {i : ℕ} (hi : i < sizeBytes) :
    m.write sizeBytes addr data f3 (BitVec.ofNat w i) = storeBytesTo b addr data f3 i := by
  have hn : (BitVec.ofNat w i).toNat = i := by
    rw [BitVec.toNat_ofNat, Nat.mod_eq_of_lt (by omega)]
  have hsub : (BitVec.ofNat w i - addr).toNat = (2 ^ w - addr.toNat + i) % 2 ^ w := by
    rw [BitVec.toNat_sub, hn]
  rw [Ram.write, storeBytesTo, hn, hsub, storeWidth_eq hw hf, h i hi]
  by_cases hlow : addr.toNat ≤ i
  · have hdiff : (2 ^ w - addr.toNat + i) % 2 ^ w = i - addr.toNat := by
      rw [show 2 ^ w - addr.toNat + i = 2 ^ w + (i - addr.toNat) by omega, Nat.add_mod_left,
        Nat.mod_eq_of_lt (by omega)]
    simp only [hdiff, hlow, hi, and_true, true_and]
    by_cases hb : i < addr.toNat + accessBytes f3
    · rw [if_pos (by omega), if_pos hb]
    · rw [if_neg (by omega), if_neg hb]
  · have hdiff : (2 ^ w - addr.toNat + i) % 2 ^ w = 2 ^ w - addr.toNat + i :=
      Nat.mod_eq_of_lt (by omega)
    rw [if_neg (by rw [hdiff]; omega), if_neg (by omega)]

end Words

/-! ## Runs -/

namespace Lsu

variable {w : ℕ} (sizeBytes : ℕ) (ops : ℕ → MemOp w) (ram : RamPort w)

/-- The array the memory starts as. -/
def initBytes : ℕ → BitVec 8 := fun i ↦ ram.dataMemory (BitVec.ofNat w i)

/-- Every access completes, every load returns what the simulator reads from the array, and the
memory is the array throughout. -/
structure ByteArray : Prop where
  leaves : ∀ j, ∃ n, Leaves sizeBytes ops (start ram) n j
  load : ∀ n j addr f3, Leaves sizeBytes ops (start ram) n j → ops j = .load addr f3 →
    issLoad w (bytesAfter (initBytes ram) ops j) f3 addr.toNat =
      some (run sizeBytes ops (start ram) n).ram.readData.toNat
  bytes : ∀ n i, i < sizeBytes →
    (run sizeBytes ops (start ram) n).ram.dataMemory (BitVec.ofNat w i) =
      bytesAfter (initBytes ram) ops (run sizeBytes ops (start ram) n).idx i

/-- What a run keeps: the array, and for a load about to leave its word in the read register. -/
structure Inv (l : Lsu w) : Prop where
  bytes : ∀ i < sizeBytes, l.ram.dataMemory (BitVec.ofNat w i) =
    bytesAfter (initBytes ram) ops l.idx i
  done : l.memStallDone = true → ∃ addr f3, l.op ops = .load addr f3 ∧
    l.ram.readData = loadExtend f3 (l.ram.dataMemory.rawWord addr)

section Steps

variable {sizeBytes ops ram} (hw : w = 32 ∨ w = 64) (hsize : sizeBytes ≤ 2 ^ w)
  (hin : ∀ j, (ops j).InRange sizeBytes)

theorem stall_load {l : Lsu w} {addr : BitVec w} {f3 : BitVec 3} (hop : l.op ops = .load addr f3) :
    l.stall ops = !l.memStallDone := by
  simp [stall, trigger, hop]

theorem stall_of_not_load {l : Lsu w} (hop : (l.op ops).isLoad = false) :
    l.stall ops = false := by
  cases h : l.op ops with
  | load addr f3 => simp [h, MemOp.isLoad] at hop
  | store addr data f3 => simp [stall, trigger, h, RamPort.ack_store]
  | fence => simp [stall, trigger, h]
  | none => simp [stall, trigger, h]

theorem step_load (sizeBytes : ℕ) {l : Lsu w} {addr : BitVec w} {f3 : BitVec 3}
    (hop : l.op ops = .load addr f3) :
    (l.step sizeBytes ops).ram.dataMemory = l.ram.dataMemory ∧
      (l.step sizeBytes ops).ram.readData = loadExtend f3 (l.ram.dataMemory.rawWord addr) := by
  simp [step, RamPort.step, hop, MemOp.req, RamPort.memWrite, RamPort.memReadReq,
    RamPort.readData]

theorem bytesAfter_of_not_store {m : ℕ → BitVec 8} {j : ℕ}
    (h : ∀ addr data f3, ops j ≠ .store addr data f3) :
    bytesAfter m ops (j + 1) = bytesAfter m ops j := by
  rw [bytesAfter]
  split
  · rename_i hop
    exact absurd hop (h _ _ _)
  · rfl

theorem Inv.step_idle {l : Lsu w} (h : l.Inv sizeBytes ops ram) (hreq : (l.op ops).req = idleReq)
    (hop : ∀ addr data f3, l.op ops ≠ .store addr data f3) :
    (l.step sizeBytes ops).Inv sizeBytes ops ram := by
  have hload : (l.op ops).isLoad = false := by
    cases hl : l.op ops with
    | load addr f3 => simp [hl, MemOp.req, idleReq] at hreq
    | _ => rfl
  have hstall := stall_of_not_load hload
  constructor
  · intro i hi
    simp only [Lsu.step, RamPort.step, hreq, hstall]
    rw [if_neg (by simp [idleReq, RamPort.memWrite]), if_neg Bool.false_ne_true,
      bytesAfter_of_not_store hop, h.bytes i hi]
  · intro hdone
    simp [Lsu.step, hstall] at hdone

include hw hsize hin

theorem Inv.step {l : Lsu w} (h : l.Inv sizeBytes ops ram) :
    (l.step sizeBytes ops).Inv sizeBytes ops ram := by
  cases hop : l.op ops with
  | load addr f3 =>
    obtain ⟨hmem, hread⟩ := step_load sizeBytes hop
    have hbytes : bytesAfter (initBytes ram) ops (l.idx + 1) =
        bytesAfter (initBytes ram) ops l.idx := by
      apply bytesAfter_of_not_store
      intro addr' data' f3' hst
      rw [show ops l.idx = l.op ops from rfl, hop] at hst
      cases hst
    constructor
    · intro i hi
      rw [hmem, h.bytes i hi]
      simp only [Lsu.step]
      split_ifs
      · rfl
      · rw [hbytes]
    · intro hdone
      have hstall : l.stall ops = true := by
        simp only [Lsu.step, Bool.and_eq_true] at hdone
        exact hdone.1
      refine ⟨addr, f3, ?_, by rw [hread, hmem]⟩
      simp only [Lsu.step, op, hstall, if_true]
      exact hop
  | store addr data f3 =>
    have hstall : l.stall ops = false := stall_of_not_load (by rw [hop]; rfl)
    have hrange : storeLegal w f3 = true ∧ addr.toNat + accessBytes f3 ≤ sizeBytes := by
      have hj := hin l.idx
      rwa [show ops l.idx = l.op ops from rfl, hop] at hj
    constructor
    · intro i hi
      simp only [Lsu.step, RamPort.step, hop, hstall]
      rw [if_pos (by simp [MemOp.req, RamPort.memWrite]), if_neg Bool.false_ne_true, bytesAfter,
        show ops l.idx = _ from hop]
      exact write_eq hw hsize h.bytes hrange.1 hrange.2 hi
    · intro hdone
      simp [Lsu.step, hstall] at hdone
  | fence => exact h.step_idle (by rw [hop]; rfl) (by rw [hop]; intros; simp)
  | none => exact h.step_idle (by rw [hop]; rfl) (by rw [hop]; intros; simp)

theorem inv_run (n : ℕ) : (run sizeBytes ops (start ram) n).Inv sizeBytes ops ram := by
  induction n with
  | zero => exact ⟨fun i _ ↦ rfl, fun h ↦ absurd h Bool.false_ne_true⟩
  | succ n ih => exact ih.step hw hsize hin

omit hw hsize hin

/-- An access stays at most two cycles longer than its first. -/
theorem exists_leaves (sizeBytes : ℕ) (ops : ℕ → MemOp w) (l₀ : Lsu w) (n : ℕ) :
    ∃ m, (run sizeBytes ops l₀ m).idx = (run sizeBytes ops l₀ n).idx ∧
      (run sizeBytes ops l₀ m).stall ops = false := by
  cases hstall : (run sizeBytes ops l₀ n).stall ops with
  | false => exact ⟨n, rfl, hstall⟩
  | true =>
    have hidx : (run sizeBytes ops l₀ (n + 1)).idx = (run sizeBytes ops l₀ n).idx := by
      simp [run, step, hstall]
    cases hstall' : (run sizeBytes ops l₀ (n + 1)).stall ops with
    | false => exact ⟨n + 1, hidx, hstall'⟩
    | true =>
      have hidx' : (run sizeBytes ops l₀ (n + 2)).idx = (run sizeBytes ops l₀ (n + 1)).idx := by
        rw [run]
        simp [step, hstall']
      obtain ⟨addr, f3, hop⟩ : ∃ addr f3, (run sizeBytes ops l₀ n).op ops = .load addr f3 := by
        cases hop : (run sizeBytes ops l₀ n).op ops with
        | load addr f3 => exact ⟨addr, f3, rfl⟩
        | _ => simp [stall_of_not_load (l := run sizeBytes ops l₀ n) (by rw [hop]; rfl)] at hstall
      have hop' : (run sizeBytes ops l₀ (n + 1)).op ops = .load addr f3 := by
        rw [op, hidx]
        exact hop
      have hop'' : (run sizeBytes ops l₀ (n + 2)).op ops = .load addr f3 := by
        rw [op, hidx']
        exact hop'
      have hpend : (run sizeBytes ops l₀ (n + 1)).ram.memReadPending = true := by
        simp [run, step, RamPort.step, hop, MemOp.req, RamPort.memReadReq]
      refine ⟨n + 2, hidx'.trans hidx, ?_⟩
      rw [stall_load hop'', run]
      simp [step, hstall', hop', RamPort.ack_load, hpend]

theorem leaves_all (l₀ : Lsu w) (h₀ : l₀.idx = 0) (j : ℕ) :
    ∃ n, Leaves sizeBytes ops l₀ n j := by
  induction j with
  | zero =>
    obtain ⟨m, hm, hstall⟩ := exists_leaves sizeBytes ops l₀ 0
    exact ⟨m, hm.trans h₀, hstall⟩
  | succ j ih =>
    obtain ⟨n, hn, hstall⟩ := ih
    have hnext : (run sizeBytes ops l₀ (n + 1)).idx = j + 1 := by
      simp [run, step, hstall, hn]
    obtain ⟨m, hm, hstall'⟩ := exists_leaves sizeBytes ops l₀ (n + 1)
    exact ⟨m, hm.trans hnext, hstall'⟩

include hw hsize hin

/-- The value of a load that leaves. -/
theorem load_iff {n j : ℕ} {addr : BitVec w} {f3 : BitVec 3}
    (hleaves : Leaves sizeBytes ops (start ram) n j) (hop : ops j = .load addr f3) :
    issLoad w (bytesAfter (initBytes ram) ops j) f3 addr.toNat =
        some (run sizeBytes ops (start ram) n).ram.readData.toNat ↔
      (w = 32 ∨ (ops j).negative (bytesAfter (initBytes ram) ops j) = false) := by
  have hinv : (run sizeBytes ops (start ram) n).Inv sizeBytes ops ram := inv_run hw hsize hin n
  obtain ⟨hidx, hstall⟩ := hleaves
  have hop' : (run sizeBytes ops (start ram) n).op ops = .load addr f3 := by
    rw [op, hidx]
    exact hop
  have hdone : (run sizeBytes ops (start ram) n).memStallDone = true := by
    rw [stall_load hop'] at hstall
    simpa using hstall
  obtain ⟨addr', f3', hop'', hread⟩ := hinv.done hdone
  rw [hop'] at hop''
  cases hop''
  have hrange : loadLegal w f3 = true ∧ addr.toNat + accessBytes f3 ≤ sizeBytes := by
    have hj := hin j
    rwa [hop] at hj
  rw [hread, hop]
  apply issLoad_eq_iff hw hrange.1
  intro i hi
  have hbyte := hinv.bytes (addr.toNat + i) (by omega)
  rw [hidx] at hbyte
  rw [← hbyte, BitVec.ofNat_add, BitVec.ofNat_toNat, BitVec.setWidth_eq]

/-- The data memory is the byte array of the simulator unless, at 64 bits, a byte or halfword load
meets a set sign bit. -/
theorem byteArray_iff : ByteArray sizeBytes ops ram ↔
    (w = 32 ∨ ∀ j, (ops j).negative (bytesAfter (initBytes ram) ops j) = false) := by
  constructor
  · intro h
    by_cases h32 : w = 32
    · exact .inl h32
    · right
      intro j
      cases hop : ops j with
      | load addr f3 =>
        obtain ⟨n, hn⟩ := h.leaves j
        have hval := (load_iff hw hsize hin hn hop).1 (h.load n j addr f3 hn hop)
        rw [hop] at hval
        exact hval.resolve_left h32
      | _ => rfl
  · intro h
    refine ⟨leaves_all _ rfl, ?_, fun n ↦ (inv_run hw hsize hin n).bytes⟩
    intro n j addr f3 hn hop
    exact (load_iff hw hsize hin hn hop).2 (h.imp_right fun hall ↦ hall j)

end Steps

/-- `sb` of `0x80` to address 0, then a byte load of it. -/
def byteOps (f3 : BitVec 3) : ℕ → MemOp 64
  | 0 => .store 0 0x80 0b000#3
  | 1 => .load 0 f3
  | _ => .none

theorem byteOps_inRange {f3 : BitVec 3} (hf : f3 = 0b000#3 ∨ f3 = 0b100#3) (j : ℕ) :
    (byteOps f3 j).InRange 16 := by
  rcases hf with rfl | rfl
  all_goals
    match j with
    | 0 => exact ⟨by decide, by decide⟩
    | 1 => exact ⟨by decide, by decide⟩
    | _ + 2 => trivial

theorem byteArray_lbu : (∀ j, (byteOps 0b100#3 j).InRange 16) ∧
    ByteArray 16 (byteOps 0b100#3) (RamPort.reset 16 none default) := by
  have hin := byteOps_inRange (.inr rfl : (0b100#3 = 0b000#3 ∨ 0b100#3 = 0b100#3))
  refine ⟨hin, (byteArray_iff (.inr rfl) (by decide) hin).2 (.inr ?_)⟩
  intro j
  match j with
  | 0 => rfl
  | 1 => rfl
  | _ + 2 => rfl

/-- `lb` of `0x80` at 64 bits returns `0x00000000FFFFFF80`. -/
theorem byteArray_lb_fails : (∀ j, (byteOps 0b000#3 j).InRange 16) ∧
    ¬ByteArray 16 (byteOps 0b000#3) (RamPort.reset 16 none default) := by
  have hin := byteOps_inRange (.inl rfl : (0b000#3 = 0b000#3 ∨ 0b000#3 = 0b100#3))
  refine ⟨hin, fun h ↦ ?_⟩
  obtain ⟨n, hn⟩ := h.leaves 1
  have hval := (load_iff (.inr rfl) (by decide) hin hn rfl).1 (h.load n 1 _ _ hn rfl)
  rcases hval with h64 | hneg
  · exact absurd h64 (by decide)
  · exact absurd hneg (by decide)

end Lsu

end RvPipeline
