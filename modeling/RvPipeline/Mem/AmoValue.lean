import RvPipeline.Mem.Amo

/-!
# What an atomic operation leaves behind

The A extension on one hart, against the one `XLEN`-wide combine of the core.  A word operation
compares the sign-extended word in memory with all 64 bits of `rs2`, and `sc` brings the word it
has read to `rd` like every other operation.
-/

namespace RvPipeline

/-! ## The operations -/

inductive AmoOp where
  | lr | sc | swap | add | xor | and | or | min | max | minu | maxu
  deriving DecidableEq, Repr

namespace AmoOp

def funct5 : AmoOp → BitVec 5
  | .lr => 0b00010#5
  | .sc => 0b00011#5
  | .swap => 0b00001#5
  | .add => 0b00000#5
  | .xor => 0b00100#5
  | .and => 0b01100#5
  | .or => 0b01000#5
  | .min => 0b10000#5
  | .max => 0b10100#5
  | .minu => 0b11000#5
  | .maxu => 0b11100#5

/-- The value the operation leaves in memory, at its own width. -/
def apply {n : ℕ} : AmoOp → BitVec n → BitVec n → BitVec n
  | .lr, old, _ => old
  | .sc, _, rs2 => rs2
  | .swap, _, rs2 => rs2
  | .add, old, rs2 => old + rs2
  | .xor, old, rs2 => old ^^^ rs2
  | .and, old, rs2 => old &&& rs2
  | .or, old, rs2 => old ||| rs2
  | .min, old, rs2 => if old.slt rs2 then old else rs2
  | .max, old, rs2 => if rs2.slt old then old else rs2
  | .minu, old, rs2 => if old.ult rs2 then old else rs2
  | .maxu, old, rs2 => if rs2.ult old then old else rs2

/-- The value of `rd`: success for `sc`, the old value otherwise. -/
def rdValue {n : ℕ} : AmoOp → BitVec n → BitVec 64
  | .sc, _ => 0
  | _, old => old.signExtend 64

/-- The operands on which a word operation comes out right: `old` is the sign-extended word, and
it has to lie on the same side of `rs2` as of the low word of `rs2`. -/
def WordExact (op : AmoOp) (old rs2 : BitVec 64) : Prop :=
  let low := (rs2.setWidth 32).signExtend 64
  match op with
  | .min => old.slt rs2 = old.slt low ∨ old = low
  | .max => rs2.slt old = low.slt old ∨ old = low
  | .minu => old.ult rs2 = old.ult low ∨ old = low
  | .maxu => rs2.ult old = low.ult old ∨ old = low
  | _ => True

end AmoOp

/-! ## The combined value -/

section Values

variable {α : Type} {x y : α}

theorem ite_eq_ite_iff {p q : Bool} :
    (if p then x else y) = (if q then x else y) ↔ p = q ∨ x = y := by
  cases p <;> cases q <;> simp [eq_comm]

theorem setWidth_signExtend (m : BitVec 32) : (m.signExtend 64).setWidth 32 = m := by
  apply BitVec.eq_of_getLsbD_eq
  intro i hi
  simp only [BitVec.getLsbD_setWidth, BitVec.getLsbD_signExtend, hi, decide_true, Bool.true_and]
  simp [show i < 64 by omega]

theorem signExtend_inj {a b : BitVec 32} : a.signExtend 64 = b.signExtend 64 ↔ a = b := by
  constructor
  · intro h
    rw [← setWidth_signExtend a, h, setWidth_signExtend]
  · exact congrArg _

theorem slt_signExtend (a b : BitVec 32) : (a.signExtend 64).slt (b.signExtend 64) = a.slt b := by
  rw [BitVec.slt_eq_decide, BitVec.slt_eq_decide, BitVec.toInt_signExtend_of_le (by decide),
    BitVec.toInt_signExtend_of_le (by decide)]

theorem ult_signExtend (a b : BitVec 32) : (a.signExtend 64).ult (b.signExtend 64) = a.ult b := by
  have ha := a.isLt
  have hb := b.isLt
  have hma : a.msb = decide (2 ^ 31 ≤ a.toNat) := BitVec.msb_eq_decide a
  have hmb : b.msb = decide (2 ^ 31 ≤ b.toNat) := BitVec.msb_eq_decide b
  rw [BitVec.ult_eq_decide, BitVec.ult_eq_decide, BitVec.toNat_signExtend, BitVec.toNat_signExtend,
    BitVec.toNat_setWidth_of_le (by decide), BitVec.toNat_setWidth_of_le (by decide), hma, hmb]
  simp only [decide_eq_true_eq, decide_eq_decide]
  split_ifs <;> omega

/-- A word operation stores the right word exactly on the operands of `WordExact`. -/
theorem amoCombined_word_iff (op : AmoOp) (hop : op ≠ .lr) (m : BitVec 32) (rs2 : BitVec 64) :
    (amoCombined op.funct5 (m.signExtend 64) rs2).setWidth 32 = op.apply m (rs2.setWidth 32) ↔
      op.WordExact (m.signExtend 64) rs2 := by
  set low := rs2.setWidth 32 with hlow
  have hcases : ∀ p : Bool, (if p then m.signExtend 64 else rs2).setWidth 32 =
      if p then m else low := by
    rintro (_ | _)
    · rfl
    · exact setWidth_signExtend m
  cases op with
  | lr => exact absurd rfl hop
  | sc => exact iff_of_true rfl trivial
  | swap => exact iff_of_true rfl trivial
  | add =>
    refine iff_of_true ?_ trivial
    change (m.signExtend 64 + rs2).setWidth 32 = m + low
    rw [BitVec.setWidth_add _ _ (by decide), setWidth_signExtend]
  | xor =>
    refine iff_of_true ?_ trivial
    change (m.signExtend 64 ^^^ rs2).setWidth 32 = m ^^^ low
    rw [BitVec.setWidth_xor, setWidth_signExtend]
  | and =>
    refine iff_of_true ?_ trivial
    change (m.signExtend 64 &&& rs2).setWidth 32 = m &&& low
    rw [BitVec.setWidth_and, setWidth_signExtend]
  | or =>
    refine iff_of_true ?_ trivial
    change (m.signExtend 64 ||| rs2).setWidth 32 = m ||| low
    rw [BitVec.setWidth_or, setWidth_signExtend]
  | min =>
    change (if (m.signExtend 64).slt rs2 then m.signExtend 64 else rs2).setWidth 32 =
      (if m.slt low then m else low) ↔
        (m.signExtend 64).slt rs2 = (m.signExtend 64).slt (low.signExtend 64) ∨ _
    rw [hcases, ite_eq_ite_iff, slt_signExtend, signExtend_inj]
  | max =>
    change (if rs2.slt (m.signExtend 64) then m.signExtend 64 else rs2).setWidth 32 =
      (if low.slt m then m else low) ↔
        rs2.slt (m.signExtend 64) = (low.signExtend 64).slt (m.signExtend 64) ∨ _
    rw [hcases, ite_eq_ite_iff, slt_signExtend, signExtend_inj]
  | minu =>
    change (if (m.signExtend 64).ult rs2 then m.signExtend 64 else rs2).setWidth 32 =
      (if m.ult low then m else low) ↔
        (m.signExtend 64).ult rs2 = (m.signExtend 64).ult (low.signExtend 64) ∨ _
    rw [hcases, ite_eq_ite_iff, ult_signExtend, signExtend_inj]
  | maxu =>
    change (if rs2.ult (m.signExtend 64) then m.signExtend 64 else rs2).setWidth 32 =
      (if low.ult m then m else low) ↔
        rs2.ult (m.signExtend 64) = (low.signExtend 64).ult (m.signExtend 64) ∨ _
    rw [hcases, ite_eq_ite_iff, ult_signExtend, signExtend_inj]

theorem amoCombined_double (op : AmoOp) (hop : op ≠ .lr) (old rs2 : BitVec 64) :
    amoCombined op.funct5 old rs2 = op.apply old rs2 := by
  cases op with
  | lr => exact absurd rfl hop
  | _ => rfl

end Values

/-! ## Memory -/

section Memory

variable {w k : ℕ} {P : Params} {s : State w k} {i : Inputs}

variable {s₀ : State w k} {ins : ℕ → Inputs} {a b : ℕ}

/-- What the AMO takes to WB. -/
theorem AmoStay.writeDataWb_leave (h : AmoStay P (run P s₀ ins) a b) (hmode : P.cacheMode = .none)
    (halone : ∀ n ≤ b, AmoAlone P (run P s₀ ins n) (ins n))
    (hram : ramOnly P (run P s₀ ins b).reg3.aluOut = true) {n : ℕ} (hn : b < n)
    (hheld : ∀ j, b < j → j < n → memHold P (run P s₀ ins j) = true) :
    writeDataWb (run P s₀ ins n) = loadValue (run P s₀ ins (a + 1)) := by
  obtain ⟨r, hread, hrb⟩ := h.exists_readEnds hmode (halone a h.lt.le)
  rw [h.writeDataWb_eq hmode halone hread hrb hn hheld, h.word hmode halone hread hrb hram, loadValue,
    loadValue, h.dataMemory_read hmode halone hread hrb hram hread.lt (by omega),
    h.reg3_eq hread.lt hrb.le, h.reg3_eq (Nat.lt_succ_self a) h.lt]

end Memory

/-! ## The A extension -/

section Meets

variable {k : ℕ} {P : Params} {a b : ℕ}

/-- Every byte the access covers is in the RAM. -/
def WordInRam (P : Params) (addr : BitVec 64) (f3 : BitVec 3) : Prop :=
  ∀ j < storeWidth 64 f3, (addr + BitVec.ofNat 64 j).toNat < P.memSizeBytes

theorem storeWidth_le (f3 : BitVec 3) : storeWidth 64 f3 ≤ 8 := by
  unfold storeWidth
  split_ifs <;> omega

/-- Two writes to a word in the RAM leave the same memory when they agree on its bits. -/
theorem write_eq_write_iff {m : Ram 64} {addr v v' : BitVec 64} {f3 : BitVec 3}
    (hin : WordInRam P addr f3) :
    m.write P.memSizeBytes addr v f3 = m.write P.memSizeBytes addr v' f3 ↔
      v.setWidth (8 * storeWidth 64 f3) = v'.setWidth (8 * storeWidth 64 f3) := by
  have hwidth := storeWidth_le f3
  constructor
  · intro h
    apply BitVec.eq_of_getLsbD_eq
    intro i hi
    have hj : i / 8 < storeWidth 64 f3 := by omega
    have hoff : (addr + BitVec.ofNat 64 (i / 8) - addr).toNat = i / 8 := by
      rw [BitVec.add_comm, BitVec.add_sub_cancel, BitVec.toNat_ofNat]
      exact Nat.mod_eq_of_lt (by omega)
    have hbyte := congrFun h (addr + BitVec.ofNat 64 (i / 8))
    simp only [Ram.write, hoff, hj, hin _ hj, and_self, if_true] at hbyte
    have hbit := congrArg (fun x ↦ x.getLsbD (i % 8)) hbyte
    simp only [BitVec.getLsbD_extractLsb', show i % 8 < 8 by omega, decide_true, Bool.true_and,
      show 8 * (i / 8) + i % 8 = i by omega] at hbit
    simp only [BitVec.getLsbD_setWidth, hi, decide_true, Bool.true_and]
    exact hbit
  · intro h
    funext x
    simp only [Ram.write]
    split_ifs with hx
    · apply BitVec.eq_of_getLsbD_eq
      intro i hi
      have hbit := congrArg (fun y ↦ y.getLsbD (8 * (x - addr).toNat + i)) h
      simp only [BitVec.getLsbD_setWidth,
        show 8 * (x - addr).toNat + i < 8 * storeWidth 64 f3 by omega, decide_true,
        Bool.true_and] at hbit
      simp only [BitVec.getLsbD_extractLsb', hi, decide_true, Bool.true_and]
      exact hbit
    · rfl

/-- The memory and `rd` after an `n`-bit AMO that stays in MEM from `a` to `b`, as the A extension
has them on one hart. -/
structure AmoMeets (P : Params) (σ : ℕ → State 64 k) (a b : ℕ) (op : AmoOp) (n : ℕ) : Prop where
  memory : (σ (b + 1)).ram.dataMemory =
    if op = .lr then (σ (a + 1)).ram.dataMemory
    else (σ (a + 1)).ram.dataMemory.write P.memSizeBytes (σ b).reg3.aluOut
      ((op.apply (((σ (a + 1)).ram.dataMemory.rawWord (σ b).reg3.aluOut).setWidth n)
        ((σ b).reg3.readData2.setWidth n)).setWidth 64) (σ b).reg3.funct3
  rd : ∀ m, b < m → (∀ j, b < j → j < m → memHold P (σ j) = true) →
    writeDataWb (σ m) =
      op.rdValue (((σ (a + 1)).ram.dataMemory.rawWord (σ b).reg3.aluOut).setWidth n)

/-- The operands on which the core's AMO is the A extension's. -/
def AmoExact (op : AmoOp) (n : ℕ) (old : BitVec n) (rs2 : BitVec 64) : Prop :=
  (op = .sc → old = 0) ∧ (n = 32 → op.WordExact (old.signExtend 64) rs2)

theorem AmoOp.lr_iff (op : AmoOp) : (op.funct5 == amoF5Lr) = decide (op = .lr) := by
  cases op <;> rfl

theorem AmoOp.rdValue_iff {n : ℕ} (op : AmoOp) (old : BitVec n) :
    old.signExtend 64 = op.rdValue old ↔ (op = .sc → old.signExtend 64 = 0) := by
  cases op <;> simp [AmoOp.rdValue]

theorem signExtend_eq_zero {m : BitVec 32} : m.signExtend 64 = 0 ↔ m = 0 := by
  rw [show (0 : BitVec 64) = (0 : BitVec 32).signExtend 64 by decide, signExtend_inj]

/-- What the RAM and WB show of an AMO that is alone. -/
theorem AmoStay.outcome {s₀ : State 64 k} {ins : ℕ → Inputs} (h : AmoStay P (run P s₀ ins) a b)
    (hmode : P.cacheMode = .none) (halone : ∀ n ≤ b, AmoAlone P (run P s₀ ins n) (ins n))
    {op : AmoOp} (hop : amoFunct5 (run P s₀ ins b) = op.funct5)
    (hram : ramOnly P (run P s₀ ins b).reg3.aluOut = true) {old : BitVec 64}
    (hold : loadExtend (run P s₀ ins b).reg3.funct3
      ((run P s₀ ins (a + 1)).ram.dataMemory.rawWord (run P s₀ ins b).reg3.aluOut) = old) :
    (run P s₀ ins (b + 1)).ram.dataMemory =
        (if op = .lr then (run P s₀ ins (a + 1)).ram.dataMemory
        else (run P s₀ ins (a + 1)).ram.dataMemory.write P.memSizeBytes (run P s₀ ins b).reg3.aluOut
          (amoCombined op.funct5 old (run P s₀ ins b).reg3.readData2)
            (run P s₀ ins b).reg3.funct3) ∧
      ∀ n, b < n → (∀ j, b < j → j < n → memHold P (run P s₀ ins j) = true) →
        writeDataWb (run P s₀ ins n) = old := by
  have hreg3 := h.reg3_eq (Nat.lt_succ_self a) h.lt
  have hload : loadValue (run P s₀ ins (a + 1)) = old := by
    rw [loadValue, hreg3, hold]
  constructor
  · have hleave := h.dataMemory_leave hmode halone hram
    rw [amoIsLr, hop, AmoOp.lr_iff, amoStored, amoFunct5, hreg3, hload] at hleave
    rw [hleave]
    simp only [decide_eq_true_eq, ← hop, amoFunct5]
  · intro n hn hheld
    rw [h.writeDataWb_leave hmode halone hram hn hheld, hload]

/-- On an AMO that is alone, at a word of the RAM: the memory and `rd` come out as the A extension
has them exactly on the operands of `AmoExact`. -/
theorem amoMeets_iff (P : Params) (s₀ : State 64 k) (ins : ℕ → Inputs) (hmode : P.cacheMode = .none)
    (a b : ℕ) (halone : ∀ n ≤ b, AmoAlone P (run P s₀ ins n) (ins n))
    (h : AmoStay P (run P s₀ ins) a b) (op : AmoOp)
    (hop : amoFunct5 (run P s₀ ins b) = op.funct5) (double : Bool)
    (hf3 : (run P s₀ ins b).reg3.funct3 = if double then 0b011#3 else 0b010#3)
    (hram : ramOnly P (run P s₀ ins b).reg3.aluOut = true)
    (hin : WordInRam P (run P s₀ ins b).reg3.aluOut (run P s₀ ins b).reg3.funct3) :
    AmoMeets P (run P s₀ ins) a b op (if double then 64 else 32) ↔
      AmoExact op (if double then 64 else 32)
        (((run P s₀ ins (a + 1)).ram.dataMemory.rawWord (run P s₀ ins b).reg3.aluOut).setWidth _)
        (run P s₀ ins b).reg3.readData2 := by
  obtain ⟨hmem, hwb⟩ := h.outcome hmode halone hop hram rfl
  have hwb' := hwb (b + 1) (Nat.lt_succ_self b) fun j hj hj' ↦ by omega
  set raw := (run P s₀ ins (a + 1)).ram.dataMemory.rawWord (run P s₀ ins b).reg3.aluOut with hraw
  cases double with
  | true =>
    have hold : loadExtend (run P s₀ ins b).reg3.funct3 raw = raw := by
      rw [hf3]
      rfl
    have hsext : (raw.setWidth 64).signExtend 64 = raw := by simp
    have hzero : raw.setWidth 64 = 0 ↔ raw = 0 := by simp
    rw [hold] at hmem hwb hwb'
    constructor
    · intro hmeets
      refine ⟨fun hsc ↦ ?_, fun hn ↦ absurd hn (by decide)⟩
      have hrd := hmeets.rd (b + 1) (Nat.lt_succ_self b) fun j hj hj' ↦ by omega
      rw [hwb', hsc] at hrd
      exact hzero.2 hrd
    · rintro ⟨hsc, -⟩
      refine ⟨?_, fun m hm hheld ↦ ?_⟩
      · rw [hmem]
        by_cases hlr : op = .lr
        · rw [if_pos hlr, if_pos hlr]
        · have hvalue : (op.apply (raw.setWidth 64)
              ((run P s₀ ins b).reg3.readData2.setWidth 64)).setWidth 64 =
              op.apply raw (run P s₀ ins b).reg3.readData2 := by simp
          rw [if_neg hlr, if_neg hlr, amoCombined_double op hlr, ← hvalue]
          rfl
      · rw [hwb m hm hheld]
        refine Eq.trans ?_ ((AmoOp.rdValue_iff op (raw.setWidth 64)).2 fun he ↦ ?_)
        · exact hsext.symm
        · rw [hsext]
          exact hzero.1 (hsc he)
  | false =>
    have hold : loadExtend (run P s₀ ins b).reg3.funct3 raw = (raw.setWidth 32).signExtend 64 := by
      rw [hf3]
      rfl
    have hwidth : storeWidth 64 (run P s₀ ins b).reg3.funct3 = 4 := by
      rw [hf3]
      rfl
    rw [hold] at hmem hwb hwb'
    have hstore : ∀ hlr : op ≠ .lr,
        ((run P s₀ ins (a + 1)).ram.dataMemory.write P.memSizeBytes (run P s₀ ins b).reg3.aluOut
            (amoCombined op.funct5 ((raw.setWidth 32).signExtend 64)
              (run P s₀ ins b).reg3.readData2) (run P s₀ ins b).reg3.funct3 =
          (run P s₀ ins (a + 1)).ram.dataMemory.write P.memSizeBytes (run P s₀ ins b).reg3.aluOut
            ((op.apply (raw.setWidth 32) ((run P s₀ ins b).reg3.readData2.setWidth 32)).setWidth 64)
              (run P s₀ ins b).reg3.funct3) ↔
          op.WordExact ((raw.setWidth 32).signExtend 64) (run P s₀ ins b).reg3.readData2 := by
      intro hlr
      rw [write_eq_write_iff hin, hwidth, ← amoCombined_word_iff op hlr]
      simp
    constructor
    · intro hmeets
      refine ⟨fun hsc ↦ ?_, fun _ ↦ ?_⟩
      · have hrd := hmeets.rd (b + 1) (Nat.lt_succ_self b) fun j hj hj' ↦ by omega
        rw [hwb', hsc] at hrd
        exact signExtend_eq_zero.1 hrd
      · by_cases hlr : op = .lr
        · rw [hlr]
          trivial
        · have hmemory := hmeets.memory
          rw [hmem, if_neg hlr, if_neg hlr] at hmemory
          exact (hstore hlr).1 hmemory
    · rintro ⟨hsc, hword⟩
      refine ⟨?_, fun m hm hheld ↦ ?_⟩
      · rw [hmem]
        by_cases hlr : op = .lr
        · rw [if_pos hlr, if_pos hlr]
        · rw [if_neg hlr, if_neg hlr]
          exact (hstore hlr).2 (hword rfl)
      · rw [hwb m hm hheld]
        exact (AmoOp.rdValue_iff op (raw.setWidth 32)).2 fun he ↦ signExtend_eq_zero.2 (hsc he)

/-- `sc.w x1, x2, (x3)` at 64, where every byte is 1. -/
def scParams : Params :=
  { insts := instsOfWords [0x04000193, 0x00500113, 0x1821A0AF, 0x00000013, 0x0000006f]
    dataInitFile := some (List.replicate 128 1) }

/-- Its run up to the end of its stay. -/
theorem run_sc :
    (∀ j < 8, 4 < j → memHold scParams (run scParams (default : State 64 0) (fun _ ↦ {}) j) = true) ∧
      memHold scParams (run scParams (default : State 64 0) (fun _ ↦ {}) 4) = false ∧
        memHold scParams (run scParams (default : State 64 0) (fun _ ↦ {}) 8) = false ∧
          (run scParams (default : State 64 0) (fun _ ↦ {}) 8).reg3.isAmo = true ∧
            (∀ n ≤ 8, AmoAlone scParams (run scParams (default : State 64 0) (fun _ ↦ {}) n) {}) ∧
              (run scParams (default : State 64 0) (fun _ ↦ {}) 8).reg3.aluOut = 64 ∧
                (run scParams (default : State 64 0) (fun _ ↦ {}) 8).reg3.funct3 = 0b010#3 := by
  decide +kernel

theorem amoStay_sc : AmoStay scParams (run scParams (default : State 64 0) fun _ ↦ {}) 4 8 := by
  obtain ⟨hheld, henter, hleave, hamo, -⟩ := run_sc
  exact
    { enter := henter, lt := by decide, held := fun j hj hj' ↦ hheld j hj' hj
      leave := hleave, amo := hamo }

theorem amoAlone_sc : ∀ n ≤ 8,
    AmoAlone scParams (run scParams (default : State 64 0) (fun _ ↦ {}) n) {} := by
  obtain ⟨-, -, -, -, halone, -⟩ := run_sc
  exact halone

theorem wordInRam_sc :
    WordInRam scParams (run scParams (default : State 64 0) (fun _ ↦ {}) 8).reg3.aluOut
      (run scParams (default : State 64 0) (fun _ ↦ {}) 8).reg3.funct3 := by
  obtain ⟨-, -, -, -, -, haddr, hf3⟩ := run_sc
  have hin : ∀ j < 4, ((64 : BitVec 64) + BitVec.ofNat 64 j).toNat < 128 := by decide
  rw [haddr, hf3]
  exact hin

theorem amoMeets_iff_sc :
    ¬AmoMeets scParams (run scParams (default : State 64 0) fun _ ↦ {}) 4 8 .sc 32 ∧
      ¬AmoExact .sc 32 0x01010101#32 5#64 := by
  have hword : ((run scParams (default : State 64 0) (fun _ ↦ {}) 5).ram.dataMemory.rawWord
      (run scParams (default : State 64 0) (fun _ ↦ {}) 8).reg3.aluOut).setWidth 32 =
      0x01010101#32 := by decide +kernel
  have hrs2 : (run scParams (default : State 64 0) (fun _ ↦ {}) 8).reg3.readData2 = 5#64 := by
    decide +kernel
  have hexact : ¬AmoExact .sc 32 0x01010101#32 5#64 := fun h ↦ absurd (h.1 rfl) (by decide)
  refine ⟨fun h ↦ hexact ?_, hexact⟩
  rw [← hword, ← hrs2]
  exact (amoMeets_iff scParams default (fun _ ↦ {}) rfl 4 8 amoAlone_sc amoStay_sc .sc
    (by decide +kernel) false (by decide +kernel) (by decide +kernel) wordInRam_sc).1 h

/-- `rd` becomes the word that was in memory. -/
theorem amoMeets_fails_sc :
    ¬ ∀ (P : Params) (s₀ : State 64 0) (ins : ℕ → Inputs), P.cacheMode = .none → ∀ a b,
      (∀ n ≤ b, AmoAlone P (run P s₀ ins n) (ins n)) → AmoStay P (run P s₀ ins) a b →
        ∀ op : AmoOp, amoFunct5 (run P s₀ ins b) = op.funct5 →
          (run P s₀ ins b).reg3.funct3 = 0b010#3 → ramOnly P (run P s₀ ins b).reg3.aluOut = true →
            WordInRam P (run P s₀ ins b).reg3.aluOut (run P s₀ ins b).reg3.funct3 →
              AmoMeets P (run P s₀ ins) a b op 32 := by
  intro hall
  have hmeets := hall scParams default (fun _ ↦ {}) rfl 4 8 amoAlone_sc amoStay_sc .sc
    (by decide +kernel) (by decide +kernel) (by decide +kernel) wordInRam_sc
  have hrd := hmeets.rd 9 (by decide) fun j hj hj' ↦ by omega
  have hwb : writeDataWb (run scParams (default : State 64 0) (fun _ ↦ {}) 9) = 0x01010101#64 := by
    decide +kernel
  rw [hwb] at hrd
  exact absurd hrd (by decide)

end Meets

end RvPipeline
