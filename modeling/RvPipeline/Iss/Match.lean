import RvPipeline.Iss.Arith
import RvPipeline.Refine.Equiv

/-!
# The simulator and the sequential machine

`Matches` relates a state of the simulator to a state of the sequential machine.  An instruction
is described by its `Outcome`; if the simulator makes the same outcome of a word as the machine
does, the two states still match and the same has been written.
-/

namespace RvPipeline

/-! ## What is compared -/

/-- The CSR file as the simulator stores it. -/
def Csr.view (c : Csr 32) : CsrView :=
  { values := [c.mstatus.toNat, c.mtvec.toNat, c.mscratch.toNat, c.mepc.toNat, c.mcause.toNat,
      c.sscratch.toNat, c.sepc.toNat, c.scause.toNat, c.stval.toNat, c.mtval.toNat, c.stvec.toNat,
      c.satp.toNat, c.mideleg.toNat, c.medeleg.toNat, c.mie.toNat, c.mipSw.toNat]
    privMode := c.privMode
    frm := c.frm
    fflags := c.fflags }

def Commit.csr : Commit 32 → Csr 32
  | .instr _ csr => csr
  | .interrupt _ csr => csr

/-- The bytes a store request writes. -/
def writtenBytes (e : BitVec 32 × BitVec 32 × BitVec 3) : List (ℕ × BitVec 8) :=
  (List.range (storeWidth 32 e.2.2)).map fun n ↦ (e.1.toNat + n, e.2.1.extractLsb' (8 * n) 8)

/-- The log of the core in the terms of the simulator. -/
def Log.trace (l : Log 32) : Trace :=
  { x := l.x.map fun e ↦ (e.1, e.2.toNat)
    m := l.m.flatMap writtenBytes
    c := l.c.map fun e ↦ (e.pc.toNat, e.csr.view) }

namespace Trace

instance : Append Trace where
  append t t' := { x := t.x ++ t'.x, m := t.m ++ t'.m, c := t.c ++ t'.c }

/-- Componentwise prefix. -/
instance : LE Trace where
  le t t' := t.x <+: t'.x ∧ t.m <+: t'.m ∧ t.c <+: t'.c

instance : Preorder Trace where
  le_refl t := ⟨List.prefix_refl _, List.prefix_refl _, List.prefix_refl _⟩
  le_trans _ _ _ h h' := ⟨h.1.trans h'.1, h.2.1.trans h'.2.1, h.2.2.trans h'.2.2⟩

theorem le_append (t t' : Trace) : t ≤ t ++ t' :=
  ⟨List.prefix_append _ _, List.prefix_append _ _, List.prefix_append _ _⟩

end Trace

theorem Log.trace_append (l l' : Log 32) : (l ++ l').trace = l.trace ++ l'.trace := by
  change Trace.mk _ _ _ = Trace.mk _ _ _
  simp [Log.trace]

theorem Log.trace_mono {l l' : Log 32} (h : l ≤ l') : l.trace ≤ l'.trace := by
  obtain ⟨⟨x, hx⟩, -, ⟨m, hm⟩, ⟨c, hc⟩⟩ := h
  refine ⟨?_, ?_, ?_⟩
  · exact ⟨x.map fun e ↦ (e.1, e.2.toNat), by simp [Log.trace, ← hx]⟩
  · exact ⟨m.flatMap writtenBytes, by simp [Log.trace, ← hm]⟩
  · exact ⟨c.map fun e ↦ (e.pc.toNat, e.csr.view), by simp [Log.trace, ← hc]⟩

/-! ## Outcomes -/

/-- What one instruction does: the value for its destination, the store it makes, the next
address and the CSR file. -/
structure Outcome where
  wx : Option (BitVec 32)
  wm : Option (BitVec 32 × BitVec 32)
  pc : BitVec 32
  csr : Csr 32

def Arch.outcome (P : Params) (p : Pending) (a : Arch 32) : Outcome :=
  { wx := if a.writesX P then some (a.result P p) else none
    wm := if a.stores P then some (a.address P, (a.issued P).storeData (a.operands P)) else none
    pc := (a.issued P).pcAfter (a.operands P) a.csr
    csr := (a.issued P).csrAfter (a.operands P) a.csr p }

namespace Iss

variable (C : IssConfig)

/-- The register write of an outcome. -/
def wrOf (σ : Iss) (rd : BitVec 5) : Option (BitVec 32) → Iss
  | none => σ
  | some v => σ.wr C rd v.toNat

/-- The store of an outcome. -/
def storeOf (σ : Iss) (f3 : BitVec 3) : Option (BitVec 32 × BitVec 32) → Iss
  | none => σ
  | some (addr, data) => σ.storeMem C addr.toNat data.toNat (storeWidth 32 f3)

/-- The simulator goes from `σ` to `σ'` with this outcome of the word. -/
structure Applies (word : BitVec 32) (σ σ' : Iss) (o : Outcome) : Prop where
  regs : σ'.regs = (σ.wrOf C (rdOf word) o.wx).regs
  x : σ'.trace.x = (σ.wrOf C (rdOf word) o.wx).trace.x
  mem : σ'.mem = (σ.storeOf C (funct3Of word) o.wm).mem
  m : σ'.trace.m = (σ.storeOf C (funct3Of word) o.wm).trace.m
  c : σ'.trace.c = σ.trace.c
  pc : σ'.pc = o.pc.toNat
  csr : σ'.csrView = o.csr.view

/-- The simulator is in the state of the sequential machine. -/
structure Matches (σ : Iss) (a : Arch 32) : Prop where
  pc : σ.pc = a.pc.toNat
  regs : ∀ r, σ.regs r = (a.regs.get r).toNat
  mem : ∀ i < C.memSize, σ.mem i = a.mem (BitVec.ofNat 32 i)
  csr : σ.csrView = a.csr.view

end Iss

/-! ## Stores -/

namespace Iss

variable {C : IssConfig} {σ σ' : Iss} {a : Arch 32} {P : Params} {p : Pending}

theorem wr_mem (rd : BitVec 5) (v : ℤ) : (σ.wr C rd v).mem = σ.mem ∧
    (σ.wr C rd v).trace.m = σ.trace.m ∧ (σ.wr C rd v).trace.c = σ.trace.c ∧
    (σ.wr C rd v).csrView = σ.csrView := by
  unfold wr
  split_ifs <;> exact ⟨rfl, rfl, rfl, rfl⟩

theorem storeMem_regs (addr val n : ℕ) : (σ.storeMem C addr val n).regs = σ.regs ∧
    (σ.storeMem C addr val n).trace.x = σ.trace.x ∧
    (σ.storeMem C addr val n).trace.c = σ.trace.c ∧
    (σ.storeMem C addr val n).csrView = σ.csrView := by
  induction n with
  | zero => exact ⟨rfl, rfl, rfl, rfl⟩
  | succ n ih =>
    rw [storeMem, storeMemByte]
    split_ifs
    · exact ih
    · exact ih

/-- A store inside the memory writes its bytes, and only them. -/
theorem storeMem_mem {k : ℕ} (hC : C.memSize = 2 ^ k) (hk : 2 ^ k ≤ 0x10000000) {addr n : ℕ}
    (hin : addr + n ≤ C.memSize) (v : BitVec 32) :
    (σ.storeMem C addr v.toNat n).trace.m = σ.trace.m ++
        (List.range n).map (fun j ↦ (addr + j, v.extractLsb' (8 * j) 8)) ∧
    ∀ i, (σ.storeMem C addr v.toNat n).mem i =
      if addr ≤ i ∧ i < addr + n then v.extractLsb' (8 * (i - addr)) 8 else σ.mem i := by
  induction n with
  | zero =>
    refine ⟨by simp [storeMem], fun i ↦ ?_⟩
    rw [if_neg (by omega)]
    rfl
  | succ n ih =>
    obtain ⟨hm, hmem⟩ := ih (by omega)
    have hlow : ¬0x10000000 ≤ addr + n := by omega
    have hmask : (addr + n) &&& (C.memSize - 1) = addr + n := by
      rw [hC, Nat.and_two_pow_sub_one_eq_mod, Nat.mod_eq_of_lt (by omega)]
    have hbyte : BitVec.ofNat 8 (v.toNat >>> (8 * n)) = v.extractLsb' (8 * n) 8 := by
      apply BitVec.eq_of_toNat_eq
      simp
    have hstore : σ.storeMem C addr v.toNat (n + 1) =
        { σ.storeMem C addr v.toNat n with
          mem := Function.update (σ.storeMem C addr v.toNat n).mem (addr + n)
            (v.extractLsb' (8 * n) 8)
          trace :=
            { (σ.storeMem C addr v.toNat n).trace with
              m := (σ.storeMem C addr v.toNat n).trace.m ++
                [(addr + n, v.extractLsb' (8 * n) 8)] } } := by
      rw [storeMem, storeMemByte, if_neg hlow]
      simp only [hmask, hbyte]
    rw [hstore]
    constructor
    · simp [hm, List.range_succ]
    · intro i
      simp only [Function.update_apply, hmem]
      by_cases hi : i = addr + n
      · rw [if_pos hi, if_pos (by omega), hi, Nat.add_sub_cancel_left]
      · rw [if_neg hi]
        by_cases hlt : addr ≤ i ∧ i < addr + n
        · rw [if_pos hlt, if_pos (by omega)]
        · rw [if_neg hlt, if_neg (by omega)]

/-! ## The same outcome -/

theorem regs_of_wrOf (hC : C.xlen = 32) {f : RegFile 32} {rd : BitVec 5} {en : Bool}
    {v : BitVec 32} (h : ∀ r, σ.regs r = (f.get r).toNat) (r : BitVec 5) :
    (σ.wrOf C rd (if en then some v else none)).regs r = ((f.write en rd v).get r).toNat := by
  cases en with
  | false => simpa [wrOf, RegFile.write, RegFile.get] using h r
  | true =>
    by_cases hrd : rd = 0#5
    · subst hrd
      by_cases hr : r = 0#5
      · simpa [wrOf, wr, RegFile.get, hr] using h r
      · simpa [wrOf, wr, RegFile.write, RegFile.get, hr] using h r
    · have hv := IssConfig.uxlen_toNat hC v
      by_cases hr : r = rd
      · simp [wrOf, wr, RegFile.write, RegFile.get, hr, hrd, hv]
      · simpa [wrOf, wr, RegFile.write, RegFile.get, hr, hrd] using h r

theorem x_of_wrOf (hC : C.xlen = 32) {rd : BitVec 5} {en : Bool} {v : BitVec 32} :
    (σ.wrOf C rd (if en then some v else none)).trace.x =
      σ.trace.x ++ (xEntry en rd v).map fun e ↦ (e.1, e.2.toNat) := by
  cases en with
  | false => simp [wrOf, xEntry]
  | true =>
    have hv := IssConfig.uxlen_toNat hC v
    by_cases hrd : rd = 0#5
    · simp [wrOf, wr, xEntry, hrd]
    · simp [wrOf, wr, xEntry, hrd, hv]

theorem wbHit_of_lt {size : ℕ} (hsize : size < 2 ^ 32) {addr : BitVec 32} (h : addr.toNat < size) :
    wbHit 0 size addr = true := by
  simp only [wbHit, Bool.and_eq_true, decide_eq_true_eq, BitVec.le_def, BitVec.lt_def,
    BitVec.toNat_add, BitVec.toNat_ofNat]
  omega

theorem mem_of_storeOf {k : ℕ} (hC : C.memSize = 2 ^ k) (hk : 2 ^ k ≤ 0x10000000)
    (hP : P.memSizeBytes = C.memSize) {m : Ram 32} {en : Bool} {addr v : BitVec 32}
    {f3 : BitVec 3} (h : ∀ i < C.memSize, σ.mem i = m (BitVec.ofNat 32 i))
    (hin : en = true → addr.toNat + storeWidth 32 f3 ≤ C.memSize) {i : ℕ} (hi : i < C.memSize) :
    (σ.storeOf C f3 (if en then some (addr, v) else none)).mem i =
      (if en then storeTo P m addr v f3 else m) (BitVec.ofNat 32 i) := by
  cases en with
  | false => exact h i hi
  | true =>
    have hin' := hin rfl
    have hpos : 0 < storeWidth 32 f3 := by
      unfold storeWidth
      split_ifs <;> decide
    have hhit : wbHit 0 P.memSizeBytes addr = true := wbHit_of_lt (by omega) (by omega)
    have hsub : (BitVec.ofNat 32 i - addr).toNat = (2 ^ 32 - addr.toNat + i) % 2 ^ 32 := by
      rw [BitVec.toNat_sub, BitVec.toNat_ofNat, Nat.mod_eq_of_lt (by omega : i < 2 ^ 32)]
    simp only [if_true, storeOf]
    rw [(storeMem_mem hC hk hin' v).2 i, storeTo, if_pos hhit, Ram.write, h i hi, hsub,
      BitVec.toNat_ofNat, Nat.mod_eq_of_lt (by omega : i < 2 ^ 32)]
    by_cases hbyte : addr.toNat ≤ i ∧ i < addr.toNat + storeWidth 32 f3
    · have hdiff : (2 ^ 32 - addr.toNat + i) % 2 ^ 32 = i - addr.toNat := by omega
      rw [if_pos hbyte, hdiff, if_pos (by omega)]
    · have hlt : addr.toNat < 2 ^ 32 := addr.isLt
      rw [if_neg hbyte, if_neg (by omega)]

/-- A simulator that makes the outcome of the sequential machine stays with it, and has written
what the machine has written. -/
theorem Applies.follows {k : ℕ} (hC : C.xlen = 32) (hsize : C.memSize = 2 ^ k)
    (hk : 2 ^ k ≤ 0x10000000) (hP : P.memSizeBytes = C.memSize) (h : Matches C σ a)
    (hin : a.stores P = true →
      (a.address P).toNat + storeWidth 32 (funct3Of (instAt P a.pc)) ≤ C.memSize)
    (happ : Applies C (instAt P a.pc) σ σ' (a.outcome P p)) :
    Matches C σ' (a.exec P p) ∧
    σ'.trace.x = σ.trace.x ++ (a.entries P (.exec p)).trace.x ∧
    σ'.trace.m = σ.trace.m ++ (a.entries P (.exec p)).trace.m ∧
    σ'.trace.c = σ.trace.c ∧
    [(σ.pc, σ'.csrView)] = (a.entries P (.exec p)).trace.c := by
  refine ⟨⟨happ.pc, ?_, ?_, happ.csr⟩, ?_, ?_, happ.c, ?_⟩
  · intro r
    rw [happ.regs]
    exact regs_of_wrOf hC h.regs r
  · intro i hi
    rw [happ.mem]
    exact mem_of_storeOf hsize hk hP h.mem hin hi
  · rw [happ.x]
    exact x_of_wrOf hC
  · rw [happ.m]
    cases hst : a.stores P with
    | false => simp [Arch.outcome, hst, storeOf, Arch.entries, mEntry, Log.trace]
    | true =>
      have hm := (storeMem_mem (σ := σ) hsize hk (hin hst) ((a.issued P).storeData (a.operands P))).1
      simp only [Arch.outcome, hst, if_true, storeOf]
      rw [hm]
      simp [Arch.entries, mEntry, Log.trace, hst, writtenBytes]
      rfl
  · rw [happ.csr, h.pc]
    rfl

end Iss

end RvPipeline
