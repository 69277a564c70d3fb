import RvPipeline.Design.Compressed
import RvPipeline.Isa.Rv64
import Mathlib.Tactic

/-!
# 16-bit encodings

The table of the C extension for RV64, and when the expander agrees with it.
-/

namespace Rv64

open RvPipeline

/-! ## The table -/

namespace Compressed

variable (c : BitVec 16)

/-- The immediate of `n` bits whose bit `p.1` is bit `p.2` of `c`, for every `p` in the list. -/
def gather (n : ℕ) (bits : List (ℕ × ℕ)) : BitVec n :=
  bits.foldl (fun acc p ↦ acc ||| bitAt n (c.getLsbD p.2) p.1) 0

/-- A scaled offset is unsigned. -/
def uimm (bits : List (ℕ × ℕ)) : BitVec 64 := (gather c 12 bits).setWidth 64

def uimmAddi4spn : BitVec 64 :=
  uimm c [(5, 12), (4, 11), (9, 10), (8, 9), (7, 8), (6, 7), (2, 6), (3, 5)]
def uimmW : BitVec 64 := uimm c [(5, 12), (4, 11), (3, 10), (2, 6), (6, 5)]
def uimmD : BitVec 64 := uimm c [(5, 12), (4, 11), (3, 10), (7, 6), (6, 5)]
def uimmLwsp : BitVec 64 := uimm c [(5, 12), (4, 6), (3, 5), (2, 4), (7, 3), (6, 2)]
def uimmLdsp : BitVec 64 := uimm c [(5, 12), (4, 6), (3, 5), (8, 4), (7, 3), (6, 2)]
def uimmSwsp : BitVec 64 := uimm c [(5, 12), (4, 11), (3, 10), (2, 9), (7, 8), (6, 7)]
def uimmSdsp : BitVec 64 := uimm c [(5, 12), (4, 11), (3, 10), (8, 9), (7, 8), (6, 7)]

def shamt : BitVec 6 := gather c 6 [(5, 12), (4, 6), (3, 5), (2, 4), (1, 3), (0, 2)]

def imm6 : BitVec 64 := (shamt c).signExtend 64

def immAddi16sp : BitVec 64 :=
  (gather c 10 [(9, 12), (4, 6), (6, 5), (8, 4), (7, 3), (5, 2)]).signExtend 64

def immLui : BitVec 64 :=
  (gather c 18 [(17, 12), (16, 6), (15, 5), (14, 4), (13, 3), (12, 2)]).signExtend 64

def immJ : BitVec 64 :=
  (gather c 12 [(11, 12), (4, 11), (9, 10), (8, 9), (10, 8), (6, 7), (7, 6), (3, 5), (2, 4), (1, 3),
    (5, 2)]).signExtend 64

def immB : BitVec 64 :=
  (gather c 9 [(8, 12), (4, 11), (3, 10), (7, 6), (6, 5), (2, 4), (1, 3), (5, 2)]).signExtend 64

def funct3 : BitVec 3 := c.extractLsb' 13 3

/-- A full register field, and the two fields that name `x8` to `x15`. -/
def rd : BitVec 5 := c.extractLsb' 7 5
def rs2 : BitVec 5 := c.extractLsb' 2 5
def rdShort : BitVec 5 := 0b01#2 ++ c.extractLsb' 7 3
def rs2Short : BitVec 5 := 0b01#2 ++ c.extractLsb' 2 3

/-- Quadrant 0. -/
def decode0 : Option Inst :=
  if funct3 c = 0b000#3 then
    if uimmAddi4spn c = 0 then none else some (.imm .addi (rs2Short c) 2#5 (uimmAddi4spn c))
  else if funct3 c = 0b001#3 then some (.load .fd (rs2Short c) (rdShort c) (uimmD c))
  else if funct3 c = 0b010#3 then some (.load .w (rs2Short c) (rdShort c) (uimmW c))
  else if funct3 c = 0b011#3 then some (.load .d (rs2Short c) (rdShort c) (uimmD c))
  else if funct3 c = 0b101#3 then some (.store .fd (rs2Short c) (rdShort c) (uimmD c))
  else if funct3 c = 0b110#3 then some (.store .w (rs2Short c) (rdShort c) (uimmW c))
  else if funct3 c = 0b111#3 then some (.store .d (rs2Short c) (rdShort c) (uimmD c))
  else none

/-- The arithmetic row of quadrant 1. -/
def decodeArith : Option Inst :=
  let reg (op : RegOp) := some (Inst.reg op (rdShort c) (rdShort c) (rs2Short c))
  if c.extractLsb' 10 2 = 0b00#2 then some (.shift .srli (rdShort c) (rdShort c) (shamt c))
  else if c.extractLsb' 10 2 = 0b01#2 then some (.shift .srai (rdShort c) (rdShort c) (shamt c))
  else if c.extractLsb' 10 2 = 0b10#2 then some (.imm .andi (rdShort c) (rdShort c) (imm6 c))
  else if c.getLsbD 12 = false then
    if c.extractLsb' 5 2 = 0b00#2 then reg .sub
    else if c.extractLsb' 5 2 = 0b01#2 then reg .xor
    else if c.extractLsb' 5 2 = 0b10#2 then reg .or
    else reg .and
  else if c.extractLsb' 5 2 = 0b00#2 then reg .subw
  else if c.extractLsb' 5 2 = 0b01#2 then reg .addw
  else none

/-- Quadrant 1.  With `rd = x0`, `c.addi`, `c.li` and `c.lui` are hints. -/
def decode1 : Option Inst :=
  if funct3 c = 0b000#3 then some (.imm .addi (rd c) (rd c) (imm6 c))
  else if funct3 c = 0b001#3 then
    if rd c = 0#5 then none else some (.imm .addiw (rd c) (rd c) (imm6 c))
  else if funct3 c = 0b010#3 then some (.imm .addi (rd c) 0#5 (imm6 c))
  else if funct3 c = 0b011#3 then
    if rd c = 2#5 then
      if immAddi16sp c = 0 then none else some (.imm .addi 2#5 2#5 (immAddi16sp c))
    else if immLui c = 0 then none else some (.lui (rd c) (immLui c))
  else if funct3 c = 0b100#3 then decodeArith c
  else if funct3 c = 0b101#3 then some (.jal 0#5 (immJ c))
  else if funct3 c = 0b110#3 then some (.beq (rdShort c) 0#5 (immB c))
  else some (.bne (rdShort c) 0#5 (immB c))

/-- The register row of quadrant 2. -/
def decodeJumpMove : Option Inst :=
  if c.getLsbD 12 = false then
    if rs2 c = 0#5 then if rd c = 0#5 then none else some (.jalr 0#5 (rd c) 0)
    else some (.reg .add (rd c) 0#5 (rs2 c))
  else if rs2 c = 0#5 then if rd c = 0#5 then some .ebreak else some (.jalr 1#5 (rd c) 0)
  else some (.reg .add (rd c) (rd c) (rs2 c))

/-- Quadrant 2.  With `rd = x0`, `c.slli`, `c.mv` and `c.add` are hints. -/
def decode2 : Option Inst :=
  if funct3 c = 0b000#3 then some (.shift .slli (rd c) (rd c) (shamt c))
  else if funct3 c = 0b001#3 then some (.load .fd (rd c) 2#5 (uimmLdsp c))
  else if funct3 c = 0b010#3 then
    if rd c = 0#5 then none else some (.load .w (rd c) 2#5 (uimmLwsp c))
  else if funct3 c = 0b011#3 then
    if rd c = 0#5 then none else some (.load .d (rd c) 2#5 (uimmLdsp c))
  else if funct3 c = 0b100#3 then decodeJumpMove c
  else if funct3 c = 0b101#3 then some (.store .fd (rs2 c) 2#5 (uimmSdsp c))
  else if funct3 c = 0b110#3 then some (.store .w (rs2 c) 2#5 (uimmSwsp c))
  else some (.store .d (rs2 c) 2#5 (uimmSdsp c))

/-- The instruction a 16-bit encoding stands for; `none` is reserved. -/
def decode : Option Inst :=
  if c.extractLsb' 0 2 = 0b00#2 then decode0 c
  else if c.extractLsb' 0 2 = 0b01#2 then decode1 c
  else if c.extractLsb' 0 2 = 0b10#2 then decode2 c
  else none

end Compressed

/-! ## Immediates -/

theorem getLsbD_bitAt {n j : ℕ} (b : Bool) (i : ℕ) (hj : j < n) :
    (bitAt n b j).getLsbD i = (decide (j = i) && b) := by
  unfold bitAt
  split_ifs with h
  · simp [h, BitVec.getLsbD_twoPow, hj]
  · simp [h]

namespace Compressed

variable (c : BitVec 16)

theorem getLsbD_gather {n : ℕ} {bits : List (ℕ × ℕ)} (h : ∀ p ∈ bits, p.1 < n) (i : ℕ) :
    (gather c n bits).getLsbD i = bits.any fun p ↦ decide (p.1 = i) && c.getLsbD p.2 := by
  have hfold : ∀ (l : List (ℕ × ℕ)) (acc : BitVec n), (∀ p ∈ l, p.1 < n) →
      (l.foldl (fun acc p ↦ acc ||| bitAt n (c.getLsbD p.2) p.1) acc).getLsbD i =
        (acc.getLsbD i || l.any fun p ↦ decide (p.1 = i) && c.getLsbD p.2) := by
    intro l
    induction l with
    | nil =>
      intro acc _
      simp
    | cons p l ih =>
      intro acc hl
      rw [List.foldl_cons, ih _ fun q hq ↦ hl q (List.mem_cons_of_mem p hq), BitVec.getLsbD_or,
        getLsbD_bitAt _ _ (hl p List.mem_cons_self), List.any_cons, Bool.or_assoc]
  rw [gather, hfold bits 0 h]
  simp

/-! The concatenations of the expander, bit by bit. -/

theorem ciImm6_eq : RvPipeline.Compressed.ciImm6 c = shamt c := by
  change (c.extractLsb' 12 1 ++ c.extractLsb' 2 5) = _
  apply BitVec.eq_of_getLsbD_eq
  intro i hi
  rw [shamt, getLsbD_gather c (by decide)]
  simp only [BitVec.getLsbD_append, BitVec.getLsbD_extractLsb']
  interval_cases i <;> simp

theorem ciwImm_eq : (RvPipeline.Compressed.ciwImm c).setWidth 12 =
    gather c 12 [(5, 12), (4, 11), (9, 10), (8, 9), (7, 8), (6, 7), (2, 6), (3, 5)] := by
  change (c.extractLsb' 7 4 ++ c.extractLsb' 11 2 ++ c.extractLsb' 5 1 ++ c.extractLsb' 6 1 ++
    0b00#2).setWidth 12 = _
  apply BitVec.eq_of_getLsbD_eq
  intro i hi
  rw [getLsbD_gather c (by decide)]
  simp only [BitVec.getLsbD_setWidth, BitVec.getLsbD_append, BitVec.getLsbD_extractLsb']
  interval_cases i <;> simp

theorem clLwImm_eq : (RvPipeline.Compressed.clLwImm c).setWidth 12 =
    gather c 12 [(5, 12), (4, 11), (3, 10), (2, 6), (6, 5)] := by
  change (c.extractLsb' 5 1 ++ c.extractLsb' 10 3 ++ c.extractLsb' 6 1 ++ 0b00#2).setWidth 12 = _
  apply BitVec.eq_of_getLsbD_eq
  intro i hi
  rw [getLsbD_gather c (by decide)]
  simp only [BitVec.getLsbD_setWidth, BitVec.getLsbD_append, BitVec.getLsbD_extractLsb']
  interval_cases i <;> simp

theorem clLdImm_eq : (RvPipeline.Compressed.clLdImm c).setWidth 12 =
    gather c 12 [(5, 12), (4, 11), (3, 10), (7, 6), (6, 5)] := by
  change (c.extractLsb' 5 2 ++ c.extractLsb' 10 3 ++ 0b000#3).setWidth 12 = _
  apply BitVec.eq_of_getLsbD_eq
  intro i hi
  rw [getLsbD_gather c (by decide)]
  simp only [BitVec.getLsbD_setWidth, BitVec.getLsbD_append, BitVec.getLsbD_extractLsb']
  interval_cases i <;> simp

theorem clwspImm_eq : (RvPipeline.Compressed.clwspImm c).setWidth 12 =
    gather c 12 [(5, 12), (4, 6), (3, 5), (2, 4), (7, 3), (6, 2)] := by
  change (c.extractLsb' 2 2 ++ c.extractLsb' 12 1 ++ c.extractLsb' 4 3 ++ 0b00#2).setWidth 12 = _
  apply BitVec.eq_of_getLsbD_eq
  intro i hi
  rw [getLsbD_gather c (by decide)]
  simp only [BitVec.getLsbD_setWidth, BitVec.getLsbD_append, BitVec.getLsbD_extractLsb']
  interval_cases i <;> simp

theorem cldspImm_eq : (RvPipeline.Compressed.cldspImm c).setWidth 12 =
    gather c 12 [(5, 12), (4, 6), (3, 5), (8, 4), (7, 3), (6, 2)] := by
  change (c.extractLsb' 2 3 ++ c.extractLsb' 12 1 ++ c.extractLsb' 5 2 ++ 0b000#3).setWidth 12 = _
  apply BitVec.eq_of_getLsbD_eq
  intro i hi
  rw [getLsbD_gather c (by decide)]
  simp only [BitVec.getLsbD_setWidth, BitVec.getLsbD_append, BitVec.getLsbD_extractLsb']
  interval_cases i <;> simp

theorem cswspImm_eq : (RvPipeline.Compressed.cswspImm c).setWidth 12 =
    gather c 12 [(5, 12), (4, 11), (3, 10), (2, 9), (7, 8), (6, 7)] := by
  change (c.extractLsb' 7 2 ++ c.extractLsb' 9 4 ++ 0b00#2).setWidth 12 = _
  apply BitVec.eq_of_getLsbD_eq
  intro i hi
  rw [getLsbD_gather c (by decide)]
  simp only [BitVec.getLsbD_setWidth, BitVec.getLsbD_append, BitVec.getLsbD_extractLsb']
  interval_cases i <;> simp

theorem csdspImm_eq : (RvPipeline.Compressed.csdspImm c).setWidth 12 =
    gather c 12 [(5, 12), (4, 11), (3, 10), (8, 9), (7, 8), (6, 7)] := by
  change (c.extractLsb' 7 3 ++ c.extractLsb' 10 3 ++ 0b000#3).setWidth 12 = _
  apply BitVec.eq_of_getLsbD_eq
  intro i hi
  rw [getLsbD_gather c (by decide)]
  simp only [BitVec.getLsbD_setWidth, BitVec.getLsbD_append, BitVec.getLsbD_extractLsb']
  interval_cases i <;> simp

theorem c16spImm_eq : RvPipeline.Compressed.c16spImm c =
    gather c 10 [(9, 12), (4, 6), (6, 5), (8, 4), (7, 3), (5, 2)] := by
  change (c.extractLsb' 12 1 ++ c.extractLsb' 3 2 ++ c.extractLsb' 5 1 ++ c.extractLsb' 2 1 ++
    c.extractLsb' 6 1 ++ 0b0000#4) = _
  apply BitVec.eq_of_getLsbD_eq
  intro i hi
  rw [getLsbD_gather c (by decide)]
  simp only [BitVec.getLsbD_append, BitVec.getLsbD_extractLsb']
  interval_cases i <;> simp

theorem lui_eq : shamt c ++ 0#12 =
    gather c 18 [(17, 12), (16, 6), (15, 5), (14, 4), (13, 3), (12, 2)] := by
  apply BitVec.eq_of_getLsbD_eq
  intro i hi
  rw [getLsbD_gather c (by decide)]
  simp only [BitVec.getLsbD_append, shamt, getLsbD_gather c (show ∀ p ∈ [(5, 12), (4, 6), (3, 5),
    (2, 4), (1, 3), (0, 2)], p.1 < 6 by decide)]
  interval_cases i <;> simp

/-- The branch offset is right. -/
theorem cbOff_eq : RvPipeline.Compressed.cbOff c ++ 0#1 =
    gather c 9 [(8, 12), (4, 11), (3, 10), (7, 6), (6, 5), (2, 4), (1, 3), (5, 2)] := by
  change ((c.extractLsb' 12 1 ++ c.extractLsb' 5 2 ++ c.extractLsb' 2 1 ++ c.extractLsb' 10 2 ++
    c.extractLsb' 3 2) ++ 0#1) = _
  apply BitVec.eq_of_getLsbD_eq
  intro i hi
  rw [getLsbD_gather c (by decide)]
  simp only [BitVec.getLsbD_append, BitVec.getLsbD_extractLsb']
  interval_cases i <;> simp

/-- The jump offset has bits 8 and 9 exchanged. -/
theorem cjOff_eq : RvPipeline.Compressed.cjOff c ++ 0#1 =
    gather c 12 [(11, 12), (4, 11), (8, 10), (9, 9), (10, 8), (6, 7), (7, 6), (3, 5), (2, 4), (1, 3),
      (5, 2)] := by
  change ((c.extractLsb' 12 1 ++ c.extractLsb' 8 1 ++ c.extractLsb' 9 1 ++ c.extractLsb' 10 1 ++
    c.extractLsb' 6 1 ++ c.extractLsb' 7 1 ++ c.extractLsb' 2 1 ++ c.extractLsb' 11 1 ++
    c.extractLsb' 3 3) ++ 0#1) = _
  apply BitVec.eq_of_getLsbD_eq
  intro i hi
  rw [getLsbD_gather c (by decide)]
  simp only [BitVec.getLsbD_append, BitVec.getLsbD_extractLsb']
  interval_cases i <;> simp

end Compressed

theorem signExtend_append {n m l : ℕ} (x : BitVec n) (y : BitVec l) (k : ℕ) (hn : 0 < n)
    (hm : n ≤ m) : (x.signExtend m ++ y).signExtend k = (x ++ y).signExtend k := by
  have hmsb : (x.signExtend m).msb = x.msb := by
    rw [BitVec.msb_signExtend, decide_eq_true (by omega : 0 < m), Bool.true_and]
    split_ifs with h
    · rw [show n - m = 0 by omega, BitVec.msb]
    · rfl
  have hlong : (x.signExtend m ++ y).msb = x.msb := by
    rw [BitVec.msb_append, if_neg (by omega), hmsb]
  have hshort : (x ++ y).msb = x.msb := by
    rw [BitVec.msb_append, if_neg (by omega)]
  apply BitVec.eq_of_getLsbD_eq
  intro i hi
  rw [BitVec.getLsbD_signExtend, BitVec.getLsbD_signExtend, hlong, hshort, BitVec.getLsbD_append,
    BitVec.getLsbD_append, BitVec.getLsbD_signExtend]
  simp only [hi, decide_true, Bool.true_and]
  by_cases hlow : i < l
  · simp [hlow, show i < m + l by omega, show i < n + l by omega]
  · by_cases hmid : i < n + l
    · simp [hlow, hmid, show i < m + l by omega, show i - l < n by omega, show i - l < m by omega]
    · by_cases hhigh : i < m + l
      · simp [hlow, hmid, hhigh, show ¬i - l < n by omega, show i - l < m by omega]
      · simp [hmid, hhigh]

/-! ## The words the expander builds -/

section Words

open RvPipeline.Compressed (iWord sWord rWord)

variable (imm : BitVec 12) (a b d : BitVec 5) (f : BitVec 3) (f7 op : BitVec 7)

theorem fields_iWord : opcode (iWord imm a f d op) = op ∧ rd (iWord imm a f d op) = d ∧
    funct3 (iWord imm a f d op) = f ∧ rs1 (iWord imm a f d op) = a ∧
    immI (iWord imm a f d op) = imm.signExtend 64 := by
  simp (disch := omega) only [opcode, rd, funct3, rs1, immI, iWord,
    BitVec.extractLsb'_append_eq_of_le, BitVec.extractLsb'_append_eq_of_add_le,
    BitVec.extractLsb'_eq_self, Nat.reduceSub, Nat.sub_self, and_self]

theorem fields_sWord : opcode (sWord imm b a f op) = op ∧ funct3 (sWord imm b a f op) = f ∧
    rs1 (sWord imm b a f op) = a ∧ rs2 (sWord imm b a f op) = b ∧
    immS (sWord imm b a f op) = imm.signExtend 64 := by
  have himm : imm.extractLsb' 5 7 ++ imm.extractLsb' 0 5 = imm := by
    rw [BitVec.extractLsb'_append_extractLsb'_eq_extractLsb' (by rfl)]
    simp
  simp (disch := omega) only [opcode, funct3, rs1, rs2, immS, sWord,
    BitVec.extractLsb'_append_eq_of_le, BitVec.extractLsb'_append_eq_of_add_le,
    BitVec.extractLsb'_eq_self, Nat.reduceSub, Nat.sub_self, himm, and_self]

theorem fields_rWord : opcode (rWord f7 b a f d op) = op ∧ rd (rWord f7 b a f d op) = d ∧
    funct3 (rWord f7 b a f d op) = f ∧ rs1 (rWord f7 b a f d op) = a ∧
    rs2 (rWord f7 b a f d op) = b ∧ funct7 (rWord f7 b a f d op) = f7 := by
  simp (disch := omega) only [opcode, rd, funct3, rs1, rs2, funct7, rWord,
    BitVec.extractLsb'_append_eq_of_le, BitVec.extractLsb'_append_eq_of_add_le,
    BitVec.extractLsb'_eq_self, Nat.reduceSub, Nat.sub_self, and_self]

theorem shift_iWord (k : BitVec 6) (n : BitVec 6) :
    (iWord (k ++ n) a f d op).extractLsb' 20 6 = n ∧
      (iWord (k ++ n) a f d op).extractLsb' 26 6 = k := by
  simp (disch := omega) only [iWord, BitVec.extractLsb'_append_eq_of_le,
    BitVec.extractLsb'_append_eq_of_add_le, BitVec.extractLsb'_eq_self, Nat.reduceSub,
    Nat.sub_self, and_self]

end Words

/-! ### How the fragment is encoded -/

def Width.funct3 : Width → BitVec 3
  | .w => 0b010#3
  | .d | .fd => 0b011#3

def Width.loadOpcode : Width → BitVec 7
  | .w | .d => opcodeLoad
  | .fd => opcodeLoadFp

def Width.storeOpcode : Width → BitVec 7
  | .w | .d => opcodeStore
  | .fd => opcodeStoreFp

def RegOp.opcode : RegOp → BitVec 7
  | .addw | .subw => opcodeOp32
  | _ => opcodeR

def RegOp.funct7 : RegOp → BitVec 7
  | .sub | .subw => 0b0100000#7
  | _ => 0b0000000#7

def RegOp.funct3 : RegOp → BitVec 3
  | .xor => 0b100#3
  | .or => 0b110#3
  | .and => 0b111#3
  | _ => 0b000#3

def ImmOp.opcode : ImmOp → BitVec 7
  | .addiw => opcodeOpImm32
  | _ => opcodeI

def ImmOp.funct3 : ImmOp → BitVec 3
  | .andi => 0b111#3
  | _ => 0b000#3

def ShiftOp.funct6 : ShiftOp → BitVec 6
  | .srai => 0b010000#6
  | _ => 0b000000#6

def ShiftOp.funct3 : ShiftOp → BitVec 3
  | .slli => 0b001#3
  | _ => 0b101#3

section Decode

open RvPipeline.Compressed (iWord sWord rWord)

variable (imm : BitVec 12) (a b d : BitVec 5)

theorem decode_load (t : Width) : decode (iWord imm a t.funct3 d t.loadOpcode) =
    some (.load t d a (imm.signExtend 64)) := by
  obtain ⟨hop, hrd, hf, hrs1, himm⟩ := fields_iWord imm a d t.funct3 t.loadOpcode
  unfold decode
  rw [hop, hf, hrd, hrs1, himm]
  cases t <;> rfl

theorem decode_store (t : Width) : decode (sWord imm b a t.funct3 t.storeOpcode) =
    some (.store t b a (imm.signExtend 64)) := by
  obtain ⟨hop, hf, hrs1, hrs2, himm⟩ := fields_sWord imm a b t.funct3 t.storeOpcode
  unfold decode
  rw [hop, hf, hrs1, hrs2, himm]
  cases t <;> rfl

theorem decode_reg (t : RegOp) : decode (rWord t.funct7 b a t.funct3 d t.opcode) =
    some (.reg t d a b) := by
  obtain ⟨hop, hrd, hf, hrs1, hrs2, hf7⟩ := fields_rWord a b d t.funct3 t.funct7 t.opcode
  unfold decode decodeReg
  rw [hop, hf, hrd, hrs1, hrs2, hf7]
  cases t <;> rfl

theorem decode_imm (t : ImmOp) : decode (iWord imm a t.funct3 d t.opcode) =
    some (.imm t d a (imm.signExtend 64)) := by
  obtain ⟨hop, hrd, hf, hrs1, himm⟩ := fields_iWord imm a d t.funct3 t.opcode
  unfold decode decodeImm
  rw [hop, hf, hrd, hrs1, himm]
  cases t <;> rfl

theorem decode_shift (t : ShiftOp) (n : BitVec 6) :
    decode (iWord (t.funct6 ++ n) a t.funct3 d opcodeI) = some (.shift t d a n) := by
  obtain ⟨hop, hrd, hf, hrs1, -⟩ := fields_iWord (t.funct6 ++ n) a d t.funct3 opcodeI
  obtain ⟨hn, hk⟩ := shift_iWord a d t.funct3 opcodeI t.funct6 n
  unfold decode decodeImm
  rw [hop, hf, hrd, hrs1, hn, hk]
  cases t <;> rfl

theorem decode_jalr : decode (iWord 0#12 a 0b000#3 d opcodeJalr) = some (.jalr d a 0) := by
  obtain ⟨hop, hrd, hf, hrs1, himm⟩ := fields_iWord 0#12 a d 0b000#3 opcodeJalr
  unfold decode
  rw [hop, hf, hrd, hrs1, himm]
  rfl

theorem decode_lui (n : BitVec 6) : decode (n.signExtend 20 ++ d ++ opcodeLui) =
    some (.lui d ((n ++ 0#12).signExtend 64)) := by
  have hop : opcode (n.signExtend 20 ++ d ++ opcodeLui) = opcodeLui := by
    simp (disch := omega) only [opcode, BitVec.extractLsb'_append_eq_of_add_le,
      BitVec.extractLsb'_eq_self]
  have hrd : rd (n.signExtend 20 ++ d ++ opcodeLui) = d := by
    simp (disch := omega) only [rd, BitVec.extractLsb'_append_eq_of_le,
      BitVec.extractLsb'_append_eq_of_add_le, BitVec.extractLsb'_eq_self, Nat.sub_self]
  have himm : immU (n.signExtend 20 ++ d ++ opcodeLui) = (n.signExtend 20 ++ 0#12).signExtend 64 := by
    simp (disch := omega) only [immU, BitVec.extractLsb'_append_eq_of_le,
      BitVec.extractLsb'_eq_self, Nat.reduceSub, Nat.sub_self]
  unfold decode
  rw [hop, hrd, himm, signExtend_append n 0#12 64 (by decide) (by decide)]
  rfl

end Decode

section Jumps

variable (c : BitVec 16)

theorem signExtend_low (off : BitVec 8) :
    (off.signExtend 20).extractLsb' 0 12 = off.signExtend 12 := by
  apply BitVec.eq_of_getLsbD_eq
  intro i hi
  rw [BitVec.getLsbD_extractLsb', BitVec.getLsbD_signExtend, BitVec.getLsbD_signExtend]
  simp [hi, show i < 20 by omega]

theorem fields_branchZ (f : BitVec 3) (word : BitVec 32)
    (hword : word = RvPipeline.Compressed.expBranchZ c f) :
    opcode word = opcodeBranch ∧ funct3 word = f ∧
      rs1 word = RvPipeline.Compressed.rdCRs1C c ∧ rs2 word = 0#5 ∧
      immB word = (RvPipeline.Compressed.cbOff c ++ 0#1).signExtend 64 := by
  rw [← signExtend_append (m := 12) _ _ _ (by decide) (by decide), ← signExtend_low]
  set imm20 := (RvPipeline.Compressed.cbOff c).signExtend 20
  have hbits : imm20.extractLsb' 11 1 ++ imm20.extractLsb' 10 1 ++ imm20.extractLsb' 4 6 ++
      imm20.extractLsb' 0 4 = imm20.extractLsb' 0 12 := by
    rw [BitVec.extractLsb'_append_extractLsb'_eq_extractLsb' (by rfl),
      BitVec.extractLsb'_append_extractLsb'_eq_extractLsb' (by rfl),
      BitVec.extractLsb'_append_extractLsb'_eq_extractLsb' (by rfl)]
  change word = imm20.extractLsb' 11 1 ++ imm20.extractLsb' 4 6 ++ 0#5 ++
    RvPipeline.Compressed.rdCRs1C c ++ f ++ imm20.extractLsb' 0 4 ++ imm20.extractLsb' 10 1 ++
    opcodeBranch at hword
  subst hword
  simp (disch := omega) only [opcode, funct3, rs1, rs2, immB, BitVec.extractLsb'_append_eq_of_le,
    BitVec.extractLsb'_append_eq_of_add_le, BitVec.extractLsb'_eq_self, Nat.reduceSub,
    Nat.sub_self, hbits, and_self]

theorem decode_beqz : decode (RvPipeline.Compressed.expBranchZ c 0b000#3) =
    some (.beq (RvPipeline.Compressed.rdCRs1C c) 0#5
      ((RvPipeline.Compressed.cbOff c ++ 0#1).signExtend 64)) := by
  obtain ⟨hop, hf, hrs1, hrs2, himm⟩ := fields_branchZ c 0b000#3 _ rfl
  unfold decode
  rw [hop, hf, hrs1, hrs2, himm]
  rfl

theorem decode_bnez : decode (RvPipeline.Compressed.expBranchZ c 0b001#3) =
    some (.bne (RvPipeline.Compressed.rdCRs1C c) 0#5
      ((RvPipeline.Compressed.cbOff c ++ 0#1).signExtend 64)) := by
  obtain ⟨hop, hf, hrs1, hrs2, himm⟩ := fields_branchZ c 0b001#3 _ rfl
  unfold decode
  rw [hop, hf, hrs1, hrs2, himm]
  rfl

theorem fields_expJ (word : BitVec 32) (hword : word = RvPipeline.Compressed.expJ c) :
    opcode word = opcodeJal ∧ rd word = 0#5 ∧
      immJ word = (RvPipeline.Compressed.cjOff c ++ 0#1).signExtend 64 := by
  rw [← signExtend_append (m := 20) _ _ _ (by decide) (by decide)]
  set imm20 := (RvPipeline.Compressed.cjOff c).signExtend 20
  have hbits : imm20.extractLsb' 19 1 ++ imm20.extractLsb' 11 8 ++ imm20.extractLsb' 10 1 ++
      imm20.extractLsb' 0 10 = imm20 := by
    rw [BitVec.extractLsb'_append_extractLsb'_eq_extractLsb' (by rfl),
      BitVec.extractLsb'_append_extractLsb'_eq_extractLsb' (by rfl),
      BitVec.extractLsb'_append_extractLsb'_eq_extractLsb' (by rfl)]
    exact BitVec.extractLsb'_eq_self
  change word = imm20.extractLsb' 19 1 ++ imm20.extractLsb' 0 10 ++ imm20.extractLsb' 10 1 ++
    imm20.extractLsb' 11 8 ++ 0#5 ++ opcodeJal at hword
  subst hword
  simp (disch := omega) only [opcode, rd, immJ, BitVec.extractLsb'_append_eq_of_le,
    BitVec.extractLsb'_append_eq_of_add_le, BitVec.extractLsb'_eq_self, Nat.reduceSub,
    Nat.sub_self, hbits, and_self]

theorem decode_expJ : decode (RvPipeline.Compressed.expJ c) =
    some (.jal 0#5 ((RvPipeline.Compressed.cjOff c ++ 0#1).signExtend 64)) := by
  obtain ⟨hop, hrd, himm⟩ := fields_expJ c _ rfl
  unfold decode
  rw [hop, hrd, himm]
  rfl

end Jumps

end Rv64
