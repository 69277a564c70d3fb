import RvPipeline.Design.Stages
import RvPipeline.Tools.Printed

/-!
# The hardware decodes what the assembler encodes

Every mnemonic with an immediate has an entry in `immSpecs`: how its operand is written and what
`Control.v` and `ALUCtrl.v` are to select.  The encoder accepts exactly the operands that fit, and
from its word `ImmGen.v`, followed by `ShiftLeftOne.v` for branches and `jal`, recovers the operand.
-/

namespace RvPipeline.Tools

open Py Disasm

/-! ## What a mnemonic stands for -/

/-- How the immediate of an instruction is written. -/
inductive ImmKind where
  | imm12 | shamt | shamtW | memory (float : Bool) | branch | jal | upper
  deriving DecidableEq, Repr

structure ImmSpec where
  kind : ImmKind
  alu : AluCtl
  signals : Control
  word : Bool := false
  deriving DecidableEq, Repr

def arithSignals : Control := { aluOp := .itype, aluSrc := true, regWrite := true }
def loadSignals : Control := { memRead := true, memtoReg := true, aluSrc := true, regWrite := true }
def storeSignals : Control := { memWrite := true, aluSrc := true }
def branchSignals : Control := { branch := true, aluOp := .branch }

def immSpecs : List (Str × ImmSpec) :=
  [("addi".toList, ⟨.imm12, .add, arithSignals, false⟩),
    ("slti".toList, ⟨.imm12, .slt, arithSignals, false⟩),
    ("sltiu".toList, ⟨.imm12, .sltu, arithSignals, false⟩),
    ("xori".toList, ⟨.imm12, .xor, arithSignals, false⟩),
    ("ori".toList, ⟨.imm12, .or, arithSignals, false⟩),
    ("andi".toList, ⟨.imm12, .and, arithSignals, false⟩),
    ("slli".toList, ⟨.shamt, .sll, arithSignals, false⟩),
    ("srli".toList, ⟨.shamt, .srl, arithSignals, false⟩),
    ("srai".toList, ⟨.shamt, .sra, arithSignals, false⟩),
    ("addiw".toList, ⟨.imm12, .add, arithSignals, true⟩),
    ("slliw".toList, ⟨.shamtW, .sll, arithSignals, true⟩),
    ("srliw".toList, ⟨.shamtW, .srl, arithSignals, true⟩),
    ("sraiw".toList, ⟨.shamtW, .sra, arithSignals, true⟩)] ++
  ["lb", "lh", "lw", "ld", "lbu", "lhu", "lwu"].map
    (fun mn ↦ (mn.toList, ⟨.memory false, .add, loadSignals, false⟩)) ++
  ["sb", "sh", "sw", "sd"].map
    (fun mn ↦ (mn.toList, ⟨.memory false, .add, storeSignals, false⟩)) ++
  [("flw".toList, ⟨.memory true, .add, { loadSignals with regWrite := false, fRegWrite := true },
      false⟩),
    ("fsw".toList, ⟨.memory true, .add, storeSignals, false⟩),
    ("beq".toList, ⟨.branch, .beq, branchSignals, false⟩),
    ("bne".toList, ⟨.branch, .bne, branchSignals, false⟩),
    ("blt".toList, ⟨.branch, .blt, branchSignals, false⟩),
    ("bge".toList, ⟨.branch, .bge, branchSignals, false⟩),
    ("ble".toList, ⟨.branch, .ble, branchSignals, false⟩),
    ("bgt".toList, ⟨.branch, .bgt, branchSignals, false⟩),
    ("bltu".toList, ⟨.branch, .bltu, branchSignals, false⟩),
    ("bgeu".toList, ⟨.branch, .bgeu, branchSignals, false⟩),
    ("jal".toList, ⟨.jal, .add, { regWrite := true, jump := true }, false⟩),
    ("jalr".toList, ⟨.memory false, .add, { regWrite := true, jump := true, jalr := true }, false⟩),
    ("lui".toList, ⟨.upper, .add, { aluSrc := true, regWrite := true, lui := true }, false⟩),
    ("auipc".toList, ⟨.upper, .add, { aluSrc := true, regWrite := true, auipc := true }, false⟩)]

namespace ImmKind

/-- The bits of the field and whether it is signed. -/
def field (w : ℕ) : ImmKind → ℕ × Bool
  | imm12 | memory _ => (12, true)
  | shamt => (if 64 ≤ w then 6 else 5, false)
  | shamtW => (5, false)
  | branch => (13, true)
  | jal => (21, true)
  | upper => (20, false)

def lo (k : ImmKind) (w : ℕ) : ℤ := if (k.field w).2 then -2 ^ ((k.field w).1 - 1) else 0

def hi (k : ImmKind) (w : ℕ) : ℤ :=
  if (k.field w).2 then 2 ^ ((k.field w).1 - 1) - 1 else 2 ^ (k.field w).1 - 1

/-- Branch and `jal` offsets are even. -/
def halfwords : ImmKind → Bool
  | branch | jal => true
  | _ => false

/-- The operand is in the range of its field, and even where it counts halfwords. -/
def Fits (k : ImmKind) (w : ℕ) (v : ℤ) : Prop :=
  (k.lo w ≤ v ∧ v ≤ k.hi w) ∧ (k.halfwords = true → 2 ∣ v)

instance (k : ImmKind) (w : ℕ) (v : ℤ) : Decidable (k.Fits w v) :=
  inferInstanceAs (Decidable (_ ∧ _))

/-- The error for an operand that does not fit. -/
def refusal (k : ImmKind) (w : ℕ) (v : ℤ) : AsmError :=
  if k.lo w ≤ v ∧ v ≤ k.hi w then
    if k = .branch then .oddBranchOffset else .oddJalOffset
  else .immediateOutOfRange v (k.lo w) (k.hi w)

/-- The operand as the datapath uses it: a U-type operand stands for the upper twenty of
thirty-two bits. -/
def extend (k : ImmKind) (w : ℕ) (v : ℤ) : BitVec w :=
  if k = .upper then (BitVec.ofInt 32 (v * 2 ^ 12)).signExtend w else BitVec.ofInt w v

/-- The immediate the execute stage sees. -/
def decoded (k : ImmKind) (w : ℕ) (inst : BitVec 32) : BitVec w :=
  if k.halfwords then shiftLeftOne (immGen w inst) else immGen w inst

/-- The operands of a line: its registers and the number written for the immediate. -/
def operands (U : Unicode) (labels : List (Str × ℕ)) (curAddr : ℕ) (args : List Str) :
    ImmKind → Except AsmError (BitVec 5 × BitVec 5 × ℤ)
  | imm12 | shamt | shamtW => do
    let rd ← reg U (← arg args 0)
    let rs1 ← reg U (← arg args 1)
    return (rd, rs1, ← pyInt U (← arg args 2))
  | memory float => do
    let r ← (if float then freg U else reg U) (← arg args 0)
    let m ← memOperand U (← arg args 1)
    let rs1 ← reg U m.2
    return (r, rs1, ← pyInt U m.1)
  | branch => do
    let rs1 ← reg U (← arg args 0)
    let rs2 ← reg U (← arg args 1)
    return (rs1, rs2, ← resolve U labels curAddr (← arg args 2))
  | jal => do
    let rd ← reg U (← arg args 0)
    return (rd, 0, ← resolve U labels curAddr (← arg args 1))
  | upper => do
    let rd ← reg U (← arg args 0)
    return (rd, 0, ← pyInt U (← arg args 1))

end ImmKind

/-- What the decoders make of a word: the operand, the operation and the control signals of its
mnemonic.  Below `XLEN` 64 a word form is an illegal opcode. -/
structure Decodes (w : ℕ) (spec : ImmSpec) (v : ℤ) (inst : BitVec 32) : Prop where
  imm : spec.kind.decoded w inst = spec.kind.extend w v
  word : (opcodeOf inst == opcodeOp32 || opcodeOf inst == opcodeOpImm32) = spec.word
  illegal : spec.word = true → w < 64 → decodeControl w inst = { illegalOpcode := true }
  signals : (spec.word = true → 64 ≤ w) → decodeControl w inst = spec.signals
  alu : (spec.word = true → 64 ≤ w) →
    aluCtrl (decodeControl w inst).aluOp (funct7Of inst) (funct3Of inst) = spec.alu

/-! ## The word of a form -/

/-- `imm12` of a shift by `v`. -/
def shiftField (w : ℕ) (alt : Bool) (v : ℤ) : BitVec 12 :=
  if 64 ≤ w then (if alt then 0b010000#6 else 0b000000#6) ++ BitVec.ofInt 6 v
  else (if alt then funct7Alt else funct7Base) ++ BitVec.ofInt 5 v

namespace Form

def kind : Form → Option ImmKind
  | iType _ none | iTypeW _ none => some .imm12
  | iType _ (some _) => some .shamt
  | iTypeW _ (some _) => some .shamtW
  | load _ | store _ | jalr => some (.memory false)
  | flw | fsw => some (.memory true)
  | branch _ => some .branch
  | jal => some .jal
  | lui | auipc => some .upper
  | _ => none

/-- The word for two registers and an operand that fits. -/
def wordOf (w : ℕ) (a b : BitVec 5) (v : ℤ) : Form → BitVec 32
  | iType f3 none => iWord opI (BitVec.ofInt 12 v) f3 a b
  | iType f3 (some alt) => iWord opI (shiftField w alt v) f3 a b
  | iTypeW f3 none => iWord opImm32 (BitVec.ofInt 12 v) f3 a b
  | iTypeW f3 (some alt) => iWord opImm32 (shiftField 32 alt v) f3 a b
  | load f3 => iWord opLoad (BitVec.ofInt 12 v) f3 a b
  | store f3 => sWord opStore (BitVec.ofInt 12 v) f3 b a
  | jalr => iWord opJalr (BitVec.ofInt 12 v) 0 a b
  | flw => iWord opLoadFp (BitVec.ofInt 12 v) 0b010#3 a b
  | fsw => sWord opStoreFp (BitVec.ofInt 12 v) 0b010#3 b a
  | branch f3 => branchWord (BitVec.ofInt 13 v) f3 a b
  | jal => jalWord (BitVec.ofInt 21 v) a
  | lui => uWord opLui (BitVec.ofInt 20 v) a
  | auipc => uWord opAuipc (BitVec.ofInt 20 v) a
  | _ => 0

/-- `funct3` of a shift selects the shift amount, any other one the signed immediate. -/
def ImmFunct3 : Form → Prop
  | iType f3 none | iTypeW f3 none => f3 ≠ 0b001#3 ∧ f3 ≠ 0b101#3
  | iType f3 (some _) | iTypeW f3 (some _) => f3 = 0b001#3 ∨ f3 = 0b101#3
  | _ => True

end Form

variable {U : Unicode} {w : ℕ}

/-- A field is filled exactly when the operand is in its range. -/
theorem immOf_bind_pure {k : ImmKind} {n : ℕ} {s : Bool} (hf : k.field w = (n, s))
    (hh : k.halfwords = false) (v : ℤ) (g : BitVec n → BitVec 32) :
    (immOf v n s >>= fun x ↦ pure (g x)) =
      if k.Fits w v then .ok (g (BitVec.ofInt n v)) else .error (k.refusal w v) := by
  have hlo : k.lo w = if s then -2 ^ (n - 1) else 0 := by rw [ImmKind.lo, hf]
  have hhi : k.hi w = if s then 2 ^ (n - 1) - 1 else 2 ^ n - 1 := by rw [ImmKind.hi, hf]
  rw [immOf, ← hlo, ← hhi]
  by_cases hr : k.lo w ≤ v ∧ v ≤ k.hi w
  · rw [if_pos hr, if_pos ⟨hr, by simp [hh]⟩]
    rfl
  · rw [if_neg hr, if_neg fun h ↦ hr h.1, ImmKind.refusal, if_neg hr]
    rfl

theorem getLsbD_zero_ofInt {n : ℕ} (hn : 0 < n) (v : ℤ) :
    (BitVec.ofInt n v).getLsbD 0 = true ↔ ¬2 ∣ v := by
  obtain ⟨m, rfl⟩ : ∃ m, n = m + 1 := ⟨n - 1, by omega⟩
  have hpow : ((2 ^ (m + 1) : ℕ) : ℤ) = 2 * 2 ^ m := by push_cast; ring
  have hmod : v % ((2 ^ (m + 1) : ℕ) : ℤ) % 2 = v % 2 := by
    rw [hpow]
    exact Int.emod_emod_of_dvd v (Dvd.intro _ rfl)
  have hnonneg : 0 ≤ v % ((2 ^ (m + 1) : ℕ) : ℤ) := Int.emod_nonneg v (by positivity)
  rw [BitVec.getLsbD, BitVec.toNat_ofInt, Nat.testBit_zero, decide_eq_true_iff]
  omega

/-- The same for a field in halfwords, which refuses an odd operand too. -/
theorem immOf_bind_even {k : ImmKind} {n : ℕ} (hf : k.field w = (n, true)) (hn : 0 < n)
    (hh : k.halfwords = true) {e : AsmError}
    (he : (if k = .branch then .oddBranchOffset else .oddJalOffset) = e) (v : ℤ)
    (g : BitVec n → BitVec 32) :
    (immOf v n true >>= fun x ↦ if x.getLsbD 0 = true then Except.error e else pure (g x)) =
      if k.Fits w v then .ok (g (BitVec.ofInt n v)) else .error (k.refusal w v) := by
  have hlo : k.lo w = -2 ^ (n - 1) := by rw [ImmKind.lo, hf]; rfl
  have hhi : k.hi w = 2 ^ (n - 1) - 1 := by rw [ImmKind.hi, hf]; rfl
  simp only [immOf, if_true]
  rw [← hlo, ← hhi, ImmKind.refusal, he]
  by_cases hr : k.lo w ≤ v ∧ v ≤ k.hi w
  · simp only [if_pos hr]
    show (if _ then _ else _) = _
    by_cases hd : 2 ∣ v
    · have hfit : k.Fits w v := ⟨hr, fun _ ↦ hd⟩
      rw [if_pos hfit, if_neg (mt (getLsbD_zero_ofInt hn v).mp (not_not.mpr hd))]
      rfl
    · have hfit : ¬k.Fits w v := fun h ↦ hd (h.2 hh)
      rw [if_neg hfit, if_pos ((getLsbD_zero_ofInt hn v).mpr hd)]
  · have hfit : ¬k.Fits w v := fun h ↦ hr h.1
    simp only [if_neg hr, if_neg hfit]
    rfl

/-- The encoder parses the operands, refuses a number that does not fit and else assembles. -/
theorem encode_eq {k : ImmKind} {f : Form} (hk : f.kind = some k) (labels : List (Str × ℕ))
    (curAddr : ℕ) (args : List Str) :
    encode U w labels curAddr f args =
      (k.operands U labels curAddr args >>= fun o ↦
        if k.Fits w o.2.2 then .ok (f.wordOf w o.1 o.2.1 o.2.2)
        else .error (k.refusal w o.2.2)) := by
  cases f
  case iType f3 shift =>
    cases shift with
    | none =>
      cases hk
      simp only [encode, iType, imm, ImmKind.operands, bind_assoc, pure_bind,
        immOf_bind_pure (k := .imm12) (w := w) rfl rfl]
      rfl
    | some alt =>
      cases hk
      by_cases h64 : 64 ≤ w
      · have hf : ImmKind.field w .shamt = (6, false) := by simp [ImmKind.field, h64]
        simp only [encode, iType, shiftImm, h64, if_true, imm, ImmKind.operands, bind_assoc,
          pure_bind, immOf_bind_pure hf rfl, Form.wordOf, shiftField]
      · have hf : ImmKind.field w .shamt = (5, false) := by simp [ImmKind.field, h64]
        simp only [encode, iType, shiftImm, h64, if_false, imm, ImmKind.operands, bind_assoc,
          pure_bind, immOf_bind_pure hf rfl, Form.wordOf, shiftField]
  case iTypeW f3 shift =>
    cases shift with
    | none =>
      cases hk
      simp only [encode, iTypeW, imm, ImmKind.operands, bind_assoc, pure_bind,
        immOf_bind_pure (k := .imm12) (w := w) rfl rfl]
      rfl
    | some alt =>
      cases hk
      simp only [encode, iTypeW, shiftImm, show ¬64 ≤ 32 by decide, if_false, imm,
        ImmKind.operands, bind_assoc, pure_bind, immOf_bind_pure (k := .shamtW) (w := w) rfl rfl,
        Form.wordOf, shiftField]
  case branch f3 =>
    cases hk
    simp only [encode, Tools.branch, ImmKind.operands, bind_assoc, pure_bind,
      immOf_bind_even (k := .branch) (w := w) (e := .oddBranchOffset) rfl (by decide) rfl rfl]
    rfl
  case jal =>
    cases hk
    simp only [encode, Tools.jal, ImmKind.operands, bind_assoc, pure_bind,
      immOf_bind_even (k := .jal) (w := w) (e := .oddJalOffset) rfl (by decide) rfl rfl]
    rfl
  case lui | auipc =>
    cases hk
    simp only [encode, imm, ImmKind.operands, bind_assoc, pure_bind,
      immOf_bind_pure (k := .upper) (w := w) rfl rfl]
    rfl
  case load | store | jalr =>
    cases hk
    simp only [encode, regMem, imm, ImmKind.operands, bind_assoc, pure_bind,
      immOf_bind_pure (k := .memory false) (w := w) rfl rfl]
    rfl
  case flw | fsw =>
    cases hk
    simp only [encode, regMem, imm, ImmKind.operands, bind_assoc, pure_bind,
      immOf_bind_pure (k := .memory true) (w := w) rfl rfl]
    rfl
  all_goals cases hk

/-! ## What the immediate generator recovers -/

theorem signExtend_ofInt {n : ℕ} {v : ℤ} (hlo : -2 ^ n ≤ v) (hhi : v < 2 ^ n) (w : ℕ) :
    (BitVec.ofInt (n + 1) v).signExtend w = BitVec.ofInt w v := by
  have hint : (BitVec.ofInt (n + 1) v).toInt = v := by
    rw [BitVec.toInt_ofInt]
    apply Int.bmod_eq_of_le <;> push_cast [Nat.pow_succ] <;> omega
  rw [BitVec.signExtend, hint]

theorem setWidth_ofInt {n : ℕ} {v : ℤ} (hlo : 0 ≤ v) (hhi : v < 2 ^ n) (hn : n ≤ w) :
    (BitVec.ofInt n v).setWidth w = BitVec.ofInt w v := by
  obtain ⟨m, rfl⟩ := Int.eq_ofNat_of_zero_le hlo
  have hm : m < 2 ^ n := by exact_mod_cast hhi
  exact BitVec.setWidth_ofNat_of_le_of_lt hn hm

/-- The filler bit above a halfword offset is shifted out, a zero comes in below. -/
theorem shiftLeftOne_signExtend {n : ℕ} (x : BitVec (n + 2)) (h0 : x.getLsbD 0 = false)
    (hw : 0 < w) :
    shiftLeftOne (((x.extractLsb' 1 (n + 1)).signExtend (w - 1)).setWidth w) = x.signExtend w := by
  apply BitVec.eq_of_getLsbD_eq
  intro i hi
  rw [shiftLeftOne, BitVec.getLsbD_shiftLeft, BitVec.getLsbD_signExtend]
  cases i with
  | zero =>
    have h0' : x[0] = false := h0
    simp [h0']
  | succ j =>
    have hmsb : (x.extractLsb' 1 (n + 1)).msb = x.msb := by
      simp [BitVec.msb_eq_getLsbD_last, Nat.add_comm]
    rw [BitVec.getLsbD_setWidth, BitVec.getLsbD_signExtend, hmsb, BitVec.getLsbD_extractLsb']
    by_cases hj : j < n + 1
    · simp [hi, hj, Nat.add_comm, show j < w by omega, show j < w - 1 by omega]
    · simp [hi, hj, show j < w by omega, show j < w - 1 by omega]

theorem halfwords_branchWord (e : BitVec 13) (c : BitVec 3) (x y : BitVec 5) :
    (branchWord e c x y).extractLsb' 31 1 ++ (branchWord e c x y).extractLsb' 7 1 ++
      (branchWord e c x y).extractLsb' 25 6 ++ (branchWord e c x y).extractLsb' 8 4 =
        e.extractLsb' 1 12 := by
  apply BitVec.eq_of_getLsbD_eq
  intro i hi
  simp only [branchWord, BitVec.getLsbD_append, BitVec.getLsbD_extractLsb']
  interval_cases i <;> simp

theorem halfwords_jalWord (j : BitVec 21) (x : BitVec 5) :
    (jalWord j x).extractLsb' 31 1 ++ (jalWord j x).extractLsb' 12 8 ++
      (jalWord j x).extractLsb' 20 1 ++ (jalWord j x).extractLsb' 21 10 =
        j.extractLsb' 1 20 := by
  apply BitVec.eq_of_getLsbD_eq
  intro i hi
  simp only [jalWord, BitVec.getLsbD_append, BitVec.getLsbD_extractLsb']
  interval_cases i <;> simp

section ImmGen

variable (o : BitVec 7) (c : BitVec 3) (x y : BitVec 5) (v : BitVec 12)

theorem immGen_iWord (ho : o = opLoad ∨ o = opLoadFp ∨ o = opJalr) :
    immGen w (iWord o v c x y) = v.signExtend w := by
  have hop : (iWord o v c x y).extractLsb' 0 7 = o := op_iWord o c x y v
  have himm : (iWord o v c x y).extractLsb' 20 12 = v := imm12_iWord o c x y v
  simp only [immGen, hop, himm]
  rcases ho with rfl | rfl | rfl <;> rfl

theorem immGen_iWord_arith (ho : o = opI ∨ o = opImm32) (hc : c ≠ 0b001#3 ∧ c ≠ 0b101#3) :
    immGen w (iWord o v c x y) = v.signExtend w := by
  have hop : (iWord o v c x y).extractLsb' 0 7 = o := op_iWord o c x y v
  have hf3 : (iWord o v c x y).extractLsb' 12 3 = c := f3_iWord o c x y v
  have himm : (iWord o v c x y).extractLsb' 20 12 = v := imm12_iWord o c x y v
  have hnot : ¬(c = 0b101#3 ∨ c = 0b001#3) := by tauto
  simp only [immGen, hop, hf3, himm, if_neg hnot]
  rcases ho with rfl | rfl <;> rfl

theorem immGen_iWord_shift (hc : c = 0b001#3 ∨ c = 0b101#3) :
    immGen w (iWord opI v c x y) = (v.extractLsb' 0 (if 64 ≤ w then 6 else 5)).setWidth w := by
  have hop : (iWord opI v c x y).extractLsb' 0 7 = opI := op_iWord opI c x y v
  have hf3 : (iWord opI v c x y).extractLsb' 12 3 = c := f3_iWord opI c x y v
  have hshamt := extract_iWord opI c x y v 0 (if 64 ≤ w then 6 else 5)
  simp only [immGen, hop, hf3, if_pos hc.symm]
  rw [← hshamt]
  rfl

theorem immGen_iWord_shiftW (hc : c = 0b001#3 ∨ c = 0b101#3) :
    immGen w (iWord opImm32 v c x y) = (v.extractLsb' 0 5).setWidth w := by
  have hop : (iWord opImm32 v c x y).extractLsb' 0 7 = opImm32 := op_iWord opImm32 c x y v
  have hf3 : (iWord opImm32 v c x y).extractLsb' 12 3 = c := f3_iWord opImm32 c x y v
  have hshamt := extract_iWord opImm32 c x y v 0 5
  simp only [immGen, hop, hf3, if_pos hc.symm]
  rw [← hshamt]
  rfl

theorem immGen_sWord (ho : o = opStore ∨ o = opStoreFp) :
    immGen w (sWord o v c x y) = v.signExtend w := by
  have hop : (sWord o v c x y).extractLsb' 0 7 = o := op_sWord o c x y v
  have himm : (sWord o v c x y).extractLsb' 25 7 ++ (sWord o v c x y).extractLsb' 7 5 = v :=
    immS_sWord o c x y v
  simp only [immGen, hop, himm]
  rcases ho with rfl | rfl <;> rfl

theorem immGen_uWord (u : BitVec 20) (ho : o = opLui ∨ o = opAuipc) :
    immGen w (uWord o u x) = (u ++ 0#12).signExtend w := by
  have hop : (uWord o u x).extractLsb' 0 7 = o := op_uWord o x u
  have himm : (uWord o u x).extractLsb' 12 20 = u := imm20_uWord o x u
  simp only [immGen, hop, himm]
  rcases ho with rfl | rfl <;> rfl

theorem immGen_branchWord (e : BitVec 13) (he : e.getLsbD 0 = false) (hw : 0 < w) :
    shiftLeftOne (immGen w (branchWord e c x y)) = e.signExtend w := by
  have hop : (branchWord e c x y).extractLsb' 0 7 = opBranch := op_branchWord c x y e
  rw [← shiftLeftOne_signExtend e he hw, ← halfwords_branchWord e c x y]
  simp only [immGen, hop]
  rfl

theorem immGen_jalWord (j : BitVec 21) (hj : j.getLsbD 0 = false) (hw : 0 < w) :
    shiftLeftOne (immGen w (jalWord j x)) = j.signExtend w := by
  have hop : (jalWord j x).extractLsb' 0 7 = opJal := op_jalWord x j
  rw [← shiftLeftOne_signExtend j hj hw, ← halfwords_jalWord j x]
  simp only [immGen, hop]
  rfl

end ImmGen

/-- The shift amount lies in the low bits of its field. -/
theorem extractLsb'_shiftField (w : ℕ) (alt : Bool) (v : ℤ) :
    (shiftField w alt v).extractLsb' 0 (if 64 ≤ w then 6 else 5) =
      BitVec.ofInt (if 64 ≤ w then 6 else 5) v := by
  by_cases h64 : 64 ≤ w
  · rw [show (if 64 ≤ w then 6 else 5) = 6 from if_pos h64, shiftField, if_pos h64,
      BitVec.extractLsb'_append_eq_of_add_le (by decide), BitVec.extractLsb'_eq_self]
  · rw [show (if 64 ≤ w then 6 else 5) = 5 from if_neg h64, shiftField, if_neg h64,
      BitVec.extractLsb'_append_eq_of_add_le (by decide), BitVec.extractLsb'_eq_self]

theorem ofInt_upper (v : ℤ) : BitVec.ofInt 20 v ++ 0#12 = BitVec.ofInt 32 (v * 2 ^ 12) := by
  apply BitVec.eq_of_toNat_eq
  simp only [BitVec.toNat_append, BitVec.toNat_ofInt, BitVec.toNat_ofNat, Nat.zero_mod, Nat.or_zero,
    Nat.shiftLeft_eq]
  push_cast
  omega

/-- What `ImmGen.v` and the shift behind it make of a word. -/
theorem decoded_wordOf (hw : w = 32 ∨ w = 64) {k : ImmKind} {f : Form} (hk : f.kind = some k)
    (hf3 : f.ImmFunct3) (a b : BitVec 5) {v : ℤ} (hv : k.Fits w v) :
    k.decoded w (f.wordOf w a b v) = k.extend w v := by
  obtain ⟨⟨hlo, hhi⟩, heven⟩ := hv
  cases f
  case iType f3 shift =>
    cases shift with
    | none =>
      cases hk
      exact (immGen_iWord_arith opI f3 a b _ (Or.inl rfl) hf3).trans
        (signExtend_ofInt hlo (Int.lt_of_le_sub_one hhi) w)
    | some alt =>
      cases hk
      refine (immGen_iWord_shift f3 a b _ hf3).trans ?_
      rw [extractLsb'_shiftField]
      exact setWidth_ofInt hlo (Int.lt_of_le_sub_one hhi) (by split_ifs <;> omega)
  case iTypeW f3 shift =>
    cases shift with
    | none =>
      cases hk
      exact (immGen_iWord_arith opImm32 f3 a b _ (Or.inr rfl) hf3).trans
        (signExtend_ofInt hlo (Int.lt_of_le_sub_one hhi) w)
    | some alt =>
      cases hk
      refine (immGen_iWord_shiftW f3 a b _ hf3).trans ?_
      rw [show (shiftField 32 alt v).extractLsb' 0 5 = BitVec.ofInt 5 v from
        extractLsb'_shiftField 32 alt v]
      exact setWidth_ofInt hlo (Int.lt_of_le_sub_one hhi) (by omega)
  case load f3 =>
    cases hk
    exact (immGen_iWord opLoad f3 a b _ (Or.inl rfl)).trans
      (signExtend_ofInt hlo (Int.lt_of_le_sub_one hhi) w)
  case jalr =>
    cases hk
    exact (immGen_iWord opJalr 0 a b _ (Or.inr (Or.inr rfl))).trans
      (signExtend_ofInt hlo (Int.lt_of_le_sub_one hhi) w)
  case flw =>
    cases hk
    exact (immGen_iWord opLoadFp 0b010#3 a b _ (Or.inr (Or.inl rfl))).trans
      (signExtend_ofInt hlo (Int.lt_of_le_sub_one hhi) w)
  case store f3 =>
    cases hk
    exact (immGen_sWord opStore f3 b a _ (Or.inl rfl)).trans
      (signExtend_ofInt hlo (Int.lt_of_le_sub_one hhi) w)
  case fsw =>
    cases hk
    exact (immGen_sWord opStoreFp 0b010#3 b a _ (Or.inr rfl)).trans
      (signExtend_ofInt hlo (Int.lt_of_le_sub_one hhi) w)
  case branch f3 =>
    cases hk
    have he : (BitVec.ofInt 13 v).getLsbD 0 = false := by
      rw [Bool.eq_false_iff, Ne, getLsbD_zero_ofInt (by decide), not_not]
      exact heven rfl
    exact (immGen_branchWord f3 a b _ he (by omega)).trans
      (signExtend_ofInt hlo (Int.lt_of_le_sub_one hhi) w)
  case jal =>
    cases hk
    have hj : (BitVec.ofInt 21 v).getLsbD 0 = false := by
      rw [Bool.eq_false_iff, Ne, getLsbD_zero_ofInt (by decide), not_not]
      exact heven rfl
    exact (immGen_jalWord a _ hj (by omega)).trans
      (signExtend_ofInt hlo (Int.lt_of_le_sub_one hhi) w)
  case lui =>
    cases hk
    refine (immGen_uWord opLui a _ (Or.inl rfl)).trans ?_
    rw [ofInt_upper]
    rfl
  case auipc =>
    cases hk
    refine (immGen_uWord opAuipc a _ (Or.inr rfl)).trans ?_
    rw [ofInt_upper]
    rfl
  all_goals cases hk

/-! ## What the two control decoders select -/

namespace Form

def opcode : Form → BitVec 7
  | iType _ _ => opcodeI
  | iTypeW _ _ => opcodeOpImm32
  | load _ => opcodeLoad
  | store _ => opcodeStore
  | flw => opcodeLoadFp
  | fsw => opcodeStoreFp
  | branch _ => opcodeBranch
  | jal => opcodeJal
  | jalr => opcodeJalr
  | lui => opcodeLui
  | _ => opcodeAuipc

/-- `funct7` and `funct3` as far as `ALUCtrl.v` looks at them. -/
def functs : Form → BitVec 7 × BitVec 3
  | iType f3 shift | iTypeW f3 shift => (if shift = some true then RvPipeline.funct7Alt else 0, f3)
  | branch f3 => (0, f3)
  | _ => (0, 0)

/-- The entry of `immSpecs` agrees with the tables of the assembler. -/
structure Agrees (f : Form) (spec : ImmSpec) : Prop where
  kind : f.kind = some spec.kind
  funct3 : f.ImmFunct3
  word : (f.opcode == opcodeOp32 || f.opcode == opcodeOpImm32) = spec.word
  illegal : spec.word = true → control 32 f.opcode 0 0 0 = { illegalOpcode := true }
  narrow : spec.word = false → control 32 f.opcode 0 0 0 = spec.signals
  wide : control 64 f.opcode 0 0 0 = spec.signals
  alu : aluCtrl spec.signals.aluOp f.functs.1 f.functs.2 = spec.alu

end Form

/-- Outside the system and float opcodes `Control.v` looks at the opcode only. -/
theorem control_opcode (f : Form) (f7 : BitVec 7) (f3 : BitVec 3) (imm : BitVec 12) :
    control w f.opcode f7 f3 imm = control w f.opcode 0 0 0 := by
  cases f <;> rfl

theorem opcodeOf_wordOf {k : ImmKind} {f : Form} (hk : f.kind = some k) (a b : BitVec 5) (v : ℤ) :
    opcodeOf (f.wordOf w a b v) = f.opcode := by
  cases f
  case iType f3 shift => cases shift <;> exact op_iWord _ _ _ _ _
  case iTypeW f3 shift => cases shift <;> exact op_iWord _ _ _ _ _
  case load | jalr | flw => exact op_iWord _ _ _ _ _
  case store | fsw => exact op_sWord _ _ _ _ _
  case branch => exact op_branchWord _ _ _ _
  case jal => exact op_jalWord _ _
  case lui | auipc => exact op_uWord _ _ _
  all_goals cases hk

/-- The upper six bits tell the arithmetic shift from the logical one at both widths. -/
theorem funct6_shiftField (w : ℕ) (alt : Bool) (v : ℤ) :
    ((shiftField w alt v).extractLsb' 5 7).extractLsb' 1 6 =
      (if alt then RvPipeline.funct7Alt else 0#7).extractLsb' 1 6 := by
  have hmid : ((shiftField w alt v).extractLsb' 5 7).extractLsb' 1 6 =
      (shiftField w alt v).extractLsb' 6 6 := by
    apply BitVec.eq_of_getLsbD_eq
    intro i hi
    simp only [BitVec.getLsbD_extractLsb', hi, show 1 + i < 7 by omega, decide_true,
      Bool.true_and, show 5 + (1 + i) = 6 + i by omega]
  rw [hmid, shiftField]
  split_ifs with h64
  · rw [BitVec.extractLsb'_append_eq_of_le (by decide), BitVec.extractLsb'_eq_self]
    rfl
  · rw [BitVec.extractLsb'_append_eq_of_le (by decide), BitVec.extractLsb'_eq_self]
    rfl
  · rw [BitVec.extractLsb'_append_eq_of_le (by decide)]
  · rw [BitVec.extractLsb'_append_eq_of_le (by decide)]

theorem funct3Of_iWord (o : BitVec 7) (c : BitVec 3) (x y : BitVec 5) (v : BitVec 12) :
    funct3Of (iWord o v c x y) = c := f3_iWord o c x y v

theorem funct7Of_iWord (o : BitVec 7) (c : BitVec 3) (x y : BitVec 5) (v : BitVec 12) :
    funct7Of (iWord o v c x y) = v.extractLsb' 5 7 := extract_iWord o c x y v 5 7

theorem aluCtrl_itype {f3 : BitVec 3} (f7 f7' : BitVec 7)
    (h : f3 ≠ 0b101#3 ∨ f7.extractLsb' 1 6 = f7'.extractLsb' 1 6) :
    aluCtrl .itype f7 f3 = aluCtrl .itype f7' f3 := by
  simp only [aluCtrl]
  rcases h with h | h
  · simp only [if_neg h]
  · rw [h]

theorem aluCtrl_wordOf {f : Form} {spec : ImmSpec} (h : f.Agrees spec) (a b : BitVec 5) (v : ℤ) :
    aluCtrl spec.signals.aluOp (funct7Of (f.wordOf w a b v)) (funct3Of (f.wordOf w a b v)) =
      spec.alu := by
  obtain ⟨hk, hf3, -, -, -, hwide, halu⟩ := h
  rw [← halu, ← hwide]
  cases f
  case iType f3 shift =>
    cases shift with
    | none =>
      simp only [Form.wordOf, funct3Of_iWord]
      exact aluCtrl_itype _ _ (Or.inl hf3.2)
    | some alt =>
      simp only [Form.wordOf, funct3Of_iWord, funct7Of_iWord]
      refine aluCtrl_itype _ _ (Or.inr ((funct6_shiftField w alt v).trans ?_))
      cases alt <;> rfl
  case iTypeW f3 shift =>
    cases shift with
    | none =>
      simp only [Form.wordOf, funct3Of_iWord]
      exact aluCtrl_itype _ _ (Or.inl hf3.2)
    | some alt =>
      simp only [Form.wordOf, funct3Of_iWord, funct7Of_iWord]
      refine aluCtrl_itype _ _ (Or.inr ((funct6_shiftField 32 alt v).trans ?_))
      cases alt <;> rfl
  case branch f3 =>
    have h3 : funct3Of (Form.wordOf w a b v (.branch f3)) = f3 := f3_branchWord _ _ _ _
    rw [h3]
    rfl
  case load | store | flw | fsw | jal | jalr | lui | auipc => all_goals rfl
  all_goals cases hk

theorem decodes_wordOf (hw : w = 32 ∨ w = 64) {f : Form} {spec : ImmSpec} (h : f.Agrees spec)
    (a b : BitVec 5) {v : ℤ} (hv : spec.kind.Fits w v) :
    Decodes w spec v (f.wordOf w a b v) := by
  have hctl : decodeControl w (f.wordOf w a b v) = control w f.opcode 0 0 0 := by
    rw [decodeControl, opcodeOf_wordOf h.kind, control_opcode]
  have hsig : (spec.word = true → 64 ≤ w) → decodeControl w (f.wordOf w a b v) = spec.signals := by
    intro hword
    rw [hctl]
    rcases hw with rfl | rfl
    · exact h.narrow (by by_contra hne; simpa using hword (by simpa using hne))
    · exact h.wide
  refine ⟨decoded_wordOf hw h.kind h.funct3 a b hv, ?_, ?_, hsig, ?_⟩
  · rw [opcodeOf_wordOf h.kind]
    exact h.word
  · intro hword hlt
    obtain rfl : w = 32 := by omega
    exact hctl.trans (h.illegal hword)
  · intro hword
    rw [hsig hword]
    exact aluCtrl_wordOf h a b v

instance (f : Form) : Decidable f.ImmFunct3 := by
  unfold Form.ImmFunct3
  split <;> infer_instance

instance (f : Form) (spec : ImmSpec) : Decidable (f.Agrees spec) :=
  decidable_of_iff
    (f.kind = some spec.kind ∧ f.ImmFunct3 ∧
      (f.opcode == opcodeOp32 || f.opcode == opcodeOpImm32) = spec.word ∧
      (spec.word = true → control 32 f.opcode 0 0 0 = { illegalOpcode := true }) ∧
      (spec.word = false → control 32 f.opcode 0 0 0 = spec.signals) ∧
      control 64 f.opcode 0 0 0 = spec.signals ∧
      aluCtrl spec.signals.aluOp f.functs.1 f.functs.2 = spec.alu)
    ⟨fun ⟨hk, h3, hw, hi, hn, h64, ha⟩ ↦ ⟨hk, h3, hw, hi, hn, h64, ha⟩,
      fun ⟨hk, h3, hw, hi, hn, h64, ha⟩ ↦ ⟨hk, h3, hw, hi, hn, h64, ha⟩⟩

theorem agrees_of_mem {mn : Str} {spec : ImmSpec} (h : (mn, spec) ∈ immSpecs) :
    ∃ f, forms.lookup mn = some f ∧ f.Agrees spec := by
  have hall : ∀ e ∈ immSpecs, (forms.lookup e.1).any (fun f ↦ decide (f.Agrees e.2)) = true := by
    decide +kernel
  obtain ⟨f, hf, hagree⟩ := (Option.any_eq_true _ _).mp (hall _ h)
  exact ⟨f, hf, of_decide_eq_true hagree⟩

/-- A line with an immediate assembles exactly when its operands parse and the number fits its
field, and then the hardware decodes the operand, the operation and the signals of its mnemonic. -/
theorem immediate_decoded (U : Unicode) (w : ℕ) (hw : w = 32 ∨ w = 64) (labels : List (Str × ℕ))
    (curAddr : ℕ) {mn : Str} {spec : ImmSpec} (hs : (mn, spec) ∈ immSpecs) (line : Str)
    (hmn : mnemonic U line = mn) :
    (∀ e, spec.kind.operands U labels curAddr (parts U line).tail = .error e →
      statement U w labels curAddr line = .error e) ∧
    ∀ a b v, spec.kind.operands U labels curAddr (parts U line).tail = .ok (a, b, v) →
      (spec.kind.Fits w v → ∃ inst, statement U w labels curAddr line = .ok inst ∧
        Decodes w spec v inst) ∧
      (¬spec.kind.Fits w v →
        statement U w labels curAddr line = .error (spec.kind.refusal w v)) := by
  obtain ⟨f, hf, hagree⟩ := agrees_of_mem hs
  have hline : statement U w labels curAddr line =
      (spec.kind.operands U labels curAddr (parts U line).tail >>= fun o ↦
        if spec.kind.Fits w o.2.2 then .ok (f.wordOf w o.1 o.2.1 o.2.2)
        else .error (spec.kind.refusal w o.2.2)) := by
    rw [statement, hmn, hf]
    exact encode_eq hagree.kind labels curAddr _
  refine ⟨fun e he ↦ ?_, fun a b v ho ↦ ⟨fun hv ↦ ?_, fun hv ↦ ?_⟩⟩
  · rw [hline, he]
    rfl
  · refine ⟨f.wordOf w a b v, ?_, decodes_wordOf hw hagree a b hv⟩
    rw [hline, ho]
    exact if_pos hv
  · rw [hline, ho]
    exact if_neg hv

theorem immediate_decoded_bgeu :
    ("bgeu".toList, (⟨.branch, .bgeu, branchSignals, false⟩ : ImmSpec)) ∈ immSpecs ∧
      mnemonic .ascii "bgeu x3, x4, -4096".toList = "bgeu".toList ∧
      ∃ inst, statement .ascii 64 [] 0 "bgeu x3, x4, -4096".toList = .ok inst ∧
        Decodes 64 ⟨.branch, .bgeu, branchSignals, false⟩ (-4096) inst := by
  have hs : ("bgeu".toList, (⟨.branch, .bgeu, branchSignals, false⟩ : ImmSpec)) ∈ immSpecs := by
    decide +kernel
  have hmn : mnemonic .ascii "bgeu x3, x4, -4096".toList = "bgeu".toList := by decide +kernel
  have ho : ImmKind.operands .ascii [] 0 (parts .ascii "bgeu x3, x4, -4096".toList).tail .branch =
      .ok (3, 4, -4096) := by rfl
  obtain ⟨-, hok⟩ := immediate_decoded .ascii 64 (Or.inr rfl) [] 0 hs _ hmn
  exact ⟨hs, hmn, (hok 3 4 (-4096) ho).1 (by decide)⟩

end RvPipeline.Tools
