import RvPipeline.Iss.FloatStep
import RvPipeline.Iss.Straight
import RvPipeline.Tools.RandomGen
import RvPipeline.Tools.RoundTrip
import Mathlib.Data.Nat.Bitwise

/-!
# Constants

What `const_to_reg_instrs` and `const64_to_reg_instrs` assemble to, and what their words do when the
simulator executes them one after another.
-/

namespace RvPipeline.Tools

open Py Disasm

variable {U : Unicode} {xlen : ℕ}

/-! ## Lines without a label -/

/-- The line is read as a statement, and encoded the same at every address. -/
def Encodes (U : Unicode) (xlen : ℕ) (l : Line) (w : BitVec 32) : Prop :=
  l.Good ∧ l.isStmt = true ∧ ∀ labels addr, encodeLine U xlen labels addr l = .ok w

theorem encodes_stmt {mn : Str} {pad : ℕ} {ops : List Str} {f : Form} {w : BitVec 32}
    (hmn : Known mn f) (hops : ∀ o ∈ ops, IsToken o)
    (h : ∀ labels addr, encode U xlen labels addr f ops = .ok w) :
    Encodes U xlen (.stmt mn pad ops) w := by
  refine ⟨⟨⟨f, hmn⟩, hops⟩, rfl, fun labels addr ↦ ?_⟩
  rw [encodeLine, statement_text hmn hops, h]

theorem forall₂_place {labels : List (Str × ℕ)} {lines : List Line} {ws : List (BitVec 32)}
    (h : List.Forall₂ (Encodes U xlen) lines ws) (addr : ℕ) :
    List.Forall₂ (fun e w ↦ encodeLine U xlen labels e.1 e.2 = .ok w) (place addr lines) ws := by
  induction h generalizing addr with
  | nil => exact .nil
  | @cons l w ls ws hl _ ih =>
    obtain ⟨-, hstmt, hword⟩ := hl
    cases l with
    | label n => cases hstmt
    | stmt mn pad ops => exact .cons (hword labels addr) (ih (addr + 4))

theorem instrCount_of_encodes {lines : List Line} {ws : List (BitVec 32)}
    (h : List.Forall₂ (Encodes U xlen) lines ws) : instrCount lines = ws.length := by
  induction h with
  | nil => rfl
  | @cons l w ls ws hl _ ih =>
    obtain ⟨-, hstmt, -⟩ := hl
    cases l with
    | label n => cases hstmt
    | stmt mn pad ops => rw [instrCount_stmt, ih, List.length_cons]

theorem good_of_encodes {lines : List Line} {ws : List (BitVec 32)}
    (h : List.Forall₂ (Encodes U xlen) lines ws) : ∀ l ∈ lines, l.Good := by
  induction h with
  | nil => simp
  | cons hl _ ih =>
    intro l hmem
    rcases List.mem_cons.mp hmem with rfl | hmem
    · exact hl.1
    · exact ih l hmem

theorem assemble_of_encodes {lines : List Line} {ws : List (BitVec 32)}
    (h : List.Forall₂ (Encodes U xlen) lines ws) :
    assemble U xlen (lines.map Line.text) = .ok ws := by
  have hgood := good_of_encodes h
  obtain ⟨hstmts, -⟩ := foldl_scan (U := U) lines hgood {}
  rw [assemble_map_text xlen hgood, assemble, mapM_ok_iff, pass1, hstmts, List.nil_append,
    List.forall₂_map_left_iff]
  exact forall₂_place h 0

theorem known_of_forms {mn : Str} {f : Form} (h : (mn, f) ∈ forms) : Known mn f := by
  obtain ⟨htok, hlow, hlook⟩ := known_of_mem _ h
  exact ⟨htok, hlow, hlook⟩

/-! ## The lines of a constant -/

namespace RandomGen

theorem isToken_hexLit (n : ℕ) : IsToken (hexLit n) := isToken_hex 1 n

theorem encodes_lui (rd : BitVec 5) {n : ℕ} (hn : n < 2 ^ 20) :
    Encodes U xlen (stmt "lui" [xReg rd, hexLit n]) (uWord opLui (BitVec.ofNat 20 n) rd) := by
  refine encodes_stmt (f := .lui) (known_of_forms (by decide +kernel)) ?_ fun labels addr ↦ ?_
  · simp [isToken_xReg, isToken_hexLit]
  · have himm := imm_hex (U := U) 1 (BitVec.ofNat 20 n)
    rw [BitVec.toNat_ofNat, Nat.mod_eq_of_lt hn] at himm
    simp only [encode, arg_zero, arg_succ, ok_bind, reg_xReg, hexLit, himm]
    rfl

theorem encodes_addi (pad : ℕ) (rd rs1 : BitVec 5) (v : BitVec 12) :
    Encodes U xlen (.stmt "addi".toList pad [xReg rd, xReg rs1, decInt v.toInt])
      (iWord opI v 0 rd rs1) := by
  refine encodes_stmt (f := .iType 0 none) (known_of_forms (by decide +kernel)) ?_
    fun labels addr ↦ ?_
  · simp [isToken_xReg, isToken_decInt]
  · simp only [encode, Tools.iType, arg_zero, arg_succ, ok_bind, reg_xReg, imm_decInt]
    rfl

/-- `shiftImm` at XLEN 64. -/
theorem encodes_shift64 {mn : String} {f3 : BitVec 3} (h : (mn.toList, .iType f3 (some false)) ∈ forms)
    (rd rs1 : BitVec 5) (shamt : BitVec 6) :
    Encodes U 64 (stmt mn [xReg rd, xReg rs1, dec shamt.toNat])
      (iWord opI (0b000000#6 ++ shamt) f3 rd rs1) := by
  refine encodes_stmt (f := .iType f3 (some false)) (known_of_forms h) ?_ fun labels addr ↦ ?_
  · simp [isToken_xReg, isToken_dec]
  · simp only [encode, Tools.iType, shiftImm, le_refl, if_true, arg_zero, arg_succ, ok_bind, reg_xReg,
      imm_dec]
    rfl

theorem encodes_or (rd rs1 rs2 : BitVec 5) :
    Encodes U xlen (stmt "or" [xReg rd, xReg rs1, xReg rs2])
      (rWord opR funct7Base 0b110#3 rd rs1 rs2) := by
  refine encodes_stmt (f := .rType funct7Base 0b110#3) (known_of_forms (by decide +kernel)) ?_
    fun labels addr ↦ ?_
  · simp [isToken_xReg]
  · simp only [encode, arg_zero, arg_succ, ok_bind, reg_xReg]
    rfl

/-- The words of `constToRegInstrs`. -/
def constWords (rd : BitVec 5) (bits32 : ℕ) : List (BitVec 32) :=
  let lo := BitVec.ofNat 12 bits32
  let hi := BitVec.ofNat 20 ((bits32 >>> 12) + if lo.msb then 1 else 0)
  uWord opLui hi rd :: if lo = 0 then [] else [iWord opI lo 0 rd rd]

/-- The words of `const64ToRegInstrs`. -/
def const64Words (rd rdScratch : BitVec 5) (bits64 : ℕ) : List (BitVec 32) :=
  constWords rd ((bits64 >>> 32) &&& 0xFFFFFFFF) ++ [iWord opI (0b000000#6 ++ 32#6) 1 rd rd] ++
    constWords rdScratch (bits64 &&& 0xFFFFFFFF) ++
      [iWord opI (0b000000#6 ++ 32#6) 1 rdScratch rdScratch,
        iWord opI (0b000000#6 ++ 32#6) 5 rdScratch rdScratch,
        rWord opR funct7Base 0b110#3 rd rd rdScratch]

theorem constToReg_encodes (rd : BitVec 5) (bits32 : ℕ) :
    List.Forall₂ (Encodes U xlen) (constToRegInstrs rd bits32) (constWords rd bits32) := by
  have hlo : bits32 &&& 0xFFF = bits32 % 2 ^ 12 := Nat.and_two_pow_sub_one_eq_mod bits32 12
  have hmask : ∀ n : ℕ, n &&& 0xFFFFF = n % 2 ^ 20 := fun n ↦ Nat.and_two_pow_sub_one_eq_mod n 20
  have hbit : bits32 % 2 ^ 12 &&& 0x800 ≠ 0 ↔ 2048 ≤ bits32 % 2 ^ 12 := by
    have hand : bits32 % 2 ^ 12 &&& 0x800 = ((bits32 % 2 ^ 12).testBit 11).toNat * 2 ^ 11 :=
      Nat.and_two_pow (bits32 % 2 ^ 12) 11
    rw [hand, Nat.testBit_eq_decide_div_mod_eq]
    by_cases h : bits32 % 2 ^ 12 / 2 ^ 11 % 2 = 1 <;> simp <;> omega
  have hmsb : (BitVec.ofNat 12 bits32).msb = decide (2048 ≤ bits32 % 2 ^ 12) := by
    rw [BitVec.msb_eq_decide, BitVec.toNat_ofNat]
  have hzero : BitVec.ofNat 12 bits32 = 0 ↔ bits32 % 2 ^ 12 = 0 := by
    rw [← BitVec.toNat_inj, BitVec.toNat_ofNat]
    rfl
  have hint : (if bits32 % 2 ^ 12 &&& 0x800 ≠ 0 then ((bits32 % 2 ^ 12 : ℕ) : ℤ) - 0x1000
      else (bits32 % 2 ^ 12 : ℕ)) = (BitVec.ofNat 12 bits32).toInt := by
    rw [BitVec.toInt_eq_toNat_cond, BitVec.toNat_ofNat]
    split_ifs <;> omega
  have hhi : (if bits32 % 2 ^ 12 &&& 0x800 ≠ 0 then ((bits32 >>> 12) % 2 ^ 20 + 1) % 2 ^ 20
      else (bits32 >>> 12) % 2 ^ 20) =
        ((bits32 >>> 12) + if (BitVec.ofNat 12 bits32).msb then 1 else 0) % 2 ^ 20 := by
    rw [hmsb]
    split_ifs <;> simp_all
    omega
  rw [constToRegInstrs, constWords]
  simp only [hlo, hmask]
  rw [hhi, hint]
  have hlui : Encodes U xlen (stmt "lui" [xReg rd, hexLit (((bits32 >>> 12) +
      if (BitVec.ofNat 12 bits32).msb then 1 else 0) % 2 ^ 20)])
      (uWord opLui (BitVec.ofNat 20 ((bits32 >>> 12) +
        if (BitVec.ofNat 12 bits32).msb then 1 else 0)) rd) := by
    have h : Encodes U xlen _ _ := encodes_lui rd
      (Nat.mod_lt ((bits32 >>> 12) + if (BitVec.ofNat 12 bits32).msb then 1 else 0)
        (show 0 < 2 ^ 20 by decide))
    rwa [← BitVec.toNat_ofNat, BitVec.ofNat_toNat, BitVec.setWidth_eq] at h
  by_cases h : bits32 % 2 ^ 12 = 0
  · rw [if_neg (not_not_intro h), if_pos (hzero.mpr h)]
    exact .cons hlui .nil
  · rw [if_pos h, if_neg (fun h' ↦ h (hzero.mp h'))]
    exact .cons hlui (.cons (encodes_addi 0 rd rd _) .nil)

theorem const64ToReg_encodes (rd rdScratch : BitVec 5) (bits64 : ℕ) :
    List.Forall₂ (Encodes U 64) (const64ToRegInstrs rd rdScratch bits64)
      (const64Words rd rdScratch bits64) := by
  have hslli : ∀ r : BitVec 5, Encodes U 64 (stmt "slli" [xReg r, xReg r, dec 32])
      (iWord opI (0b000000#6 ++ 32#6) 1 r r) := fun r ↦
    encodes_shift64 (by decide +kernel) r r 32#6
  have hsrli : ∀ r : BitVec 5, Encodes U 64 (stmt "srli" [xReg r, xReg r, dec 32])
      (iWord opI (0b000000#6 ++ 32#6) 5 r r) := fun r ↦
    encodes_shift64 (by decide +kernel) r r 32#6
  refine List.rel_append (List.rel_append (List.rel_append ?_ ?_) ?_) ?_
  · exact constToReg_encodes rd _
  · exact .cons (hslli rd) .nil
  · exact constToReg_encodes rdScratch _
  · exact .cons (hslli _) (.cons (hsrli _) (.cons (encodes_or rd rd rdScratch) .nil))

/-! ## The words in the simulator -/

section Execution

open Function (update)

variable {C : IssConfig}

theorem runs_lui {rd : BitVec 5} (hrd : rd ≠ 0) (v : BitVec 20) :
    Iss.Runs C [uWord opLui v rd] fun f ↦ update f rd (C.uxlen (s32 (v.toNat * 2 ^ 12 : ℕ))) := by
  have hval : (uWord opLui v rd &&& 0xFFFFF000#32).toNat = v.toNat * 2 ^ 12 := by
    rw [← upper_eq, imm20_uWord, BitVec.toNat_append, Nat.shiftLeft_eq]
    exact Nat.or_zero _
  have hrd' : rdOf (uWord opLui v rd) = rd := rd_uWord opLui rd v
  apply Iss.runs_wr hrd
  intro σ
  rw [Iss.step_lui (op_uWord opLui rd v : opcodeOf _ = _), hrd', hval]

theorem runs_itype {rd : BitVec 5} (hrd : rd ≠ 0) (v : BitVec 12) (f3 : BitVec 3) (rs1 : BitVec 5) :
    Iss.Runs C [iWord opI v f3 rd rs1]
      fun f ↦ update f rd (C.uxlen (C.itype (iWord opI v f3 rd rs1) (f rs1))) := by
  have hrd' : rdOf (iWord opI v f3 rd rs1) = rd := rd_iWord opI f3 rd rs1 v
  have hrs1 : rs1Of (iWord opI v f3 rd rs1) = rs1 := rs1_iWord opI f3 rd rs1 v
  apply Iss.runs_wr hrd
  intro σ
  rw [Iss.step_itype (op_iWord opI f3 rd rs1 v : opcodeOf _ = _), hrd', hrs1]

theorem uxlen_uxlen (v : ℤ) : C.uxlen (C.uxlen v) = C.uxlen v := by
  rw [IssConfig.uxlen, IssConfig.uxlen, uXlen_eq v, uXlen_toNat]

theorem runs_addi {rd : BitVec 5} (hrd : rd ≠ 0) (rs1 : BitVec 5) (v : BitVec 12) :
    Iss.Runs C [iWord opI v 0 rd rs1] fun f ↦ update f rd (C.uxlen (f rs1 + v.toInt)) := by
  have hf3 : funct3Of (iWord opI v 0 rd rs1) = 0 := f3_iWord opI 0 rd rs1 v
  have himm : IssConfig.immI (iWord opI v 0 rd rs1) = v.toInt := by
    rw [IssConfig.immI]
    exact congrArg _ (imm12_iWord opI 0 rd rs1 v)
  have hval : ∀ A : ℕ, C.itype (iWord opI v 0 rd rs1) A = C.uxlen (A + v.toInt) := by
    intro A
    simp only [IssConfig.itype, hf3, himm]
    rw [if_neg (by decide)]
    rfl
  have hruns := runs_itype (C := C) hrd v 0 rs1
  simpa only [hval, uxlen_uxlen] using hruns

/-- A shift by 32 at XLEN 64. -/
theorem itype_shift32 (hC : C.xlen = 64) (f3 : BitVec 3) (rd rs1 : BitVec 5) (A : ℕ)
    (hf3 : f3 = 0b001#3 ∨ f3 = 0b101#3) :
    C.itype (iWord opI (0b000000#6 ++ 32#6) f3 rd rs1) A =
      if f3 = 0b001#3 then C.uxlen (A <<< 32 : ℕ) else C.uxlen A >>> 32 := by
  have hf3' : funct3Of (iWord opI (0b000000#6 ++ 32#6) f3 rd rs1) = f3 := f3_iWord opI f3 rd rs1 _
  have hshamt : ((iWord opI (0b000000#6 ++ 32#6) f3 rd rs1).extractLsb' 20 6).toNat = 32 := by
    rw [show 20 = 20 + 0 from rfl, extract_iWord]
    rfl
  have halt : (iWord opI (0b000000#6 ++ 32#6) f3 rd rs1).extractLsb' 26 6 = 0 := by
    rw [show 26 = 20 + 6 from rfl, extract_iWord]
    rfl
  simp only [IssConfig.itype, hf3', if_pos hf3, hC, le_refl, if_true, hshamt, halt]
  rfl

theorem uxlen_natCast (hC : C.xlen = 64) (n : ℕ) : C.uxlen n = n % 2 ^ 64 := by
  rw [IssConfig.uxlen, hC, uXlen_eq, BitVec.ofInt_natCast, BitVec.toNat_ofNat]

theorem runs_slli32 (hC : C.xlen = 64) {r : BitVec 5} (hr : r ≠ 0) :
    Iss.Runs C [iWord opI (0b000000#6 ++ 32#6) 1 r r]
      fun f ↦ update f r (f r % 2 ^ 32 * 2 ^ 32) := by
  have hval : ∀ A : ℕ, C.itype (iWord opI (0b000000#6 ++ 32#6) 1 r r) A = A % 2 ^ 32 * 2 ^ 32 := by
    intro A
    rw [itype_shift32 hC 1 r r A (.inl rfl), if_pos (show (1 : BitVec 3) = 0b001#3 from rfl),
      uxlen_natCast hC, Nat.shiftLeft_eq, show (2 : ℕ) ^ 64 = 2 ^ 32 * 2 ^ 32 by norm_num,
      Nat.mul_mod_mul_right]
  have hlt : ∀ A : ℕ, A % 2 ^ 32 * 2 ^ 32 % 2 ^ 64 = A % 2 ^ 32 * 2 ^ 32 := by omega
  have hruns := runs_itype (C := C) hr (0b000000#6 ++ 32#6) 1 r
  simpa only [hval, uxlen_natCast hC, hlt] using hruns

theorem runs_srli32 (hC : C.xlen = 64) {r : BitVec 5} (hr : r ≠ 0) :
    Iss.Runs C [iWord opI (0b000000#6 ++ 32#6) 5 r r]
      fun f ↦ update f r (f r % 2 ^ 64 / 2 ^ 32) := by
  have hval : ∀ A : ℕ, C.itype (iWord opI (0b000000#6 ++ 32#6) 5 r r) A = A % 2 ^ 64 / 2 ^ 32 := by
    intro A
    rw [itype_shift32 hC 5 r r A (.inr rfl), if_neg (by decide), uxlen_natCast hC,
      Nat.shiftRight_eq_div_pow]
  have hlt : ∀ A : ℕ, A % 2 ^ 64 / 2 ^ 32 % 2 ^ 64 = A % 2 ^ 64 / 2 ^ 32 := by omega
  have hruns := runs_itype (C := C) hr (0b000000#6 ++ 32#6) 5 r
  simpa only [hval, uxlen_natCast hC, hlt] using hruns

theorem runs_or {rd : BitVec 5} (hrd : rd ≠ 0) (rs1 rs2 : BitVec 5) :
    Iss.Runs C [rWord opR funct7Base 0b110#3 rd rs1 rs2]
      fun f ↦ update f rd (C.uxlen (f rs1 ||| f rs2 : ℕ)) := by
  have hrd' : rdOf (rWord opR funct7Base 0b110#3 rd rs1 rs2) = rd := rd_rWord _ _ _ _ _ _
  have hrs1 : rs1Of (rWord opR funct7Base 0b110#3 rd rs1 rs2) = rs1 := rs1_rWord _ _ _ _ _ _
  have hrs2 : rs2Of (rWord opR funct7Base 0b110#3 rd rs1 rs2) = rs2 := rs2_rWord _ _ _ _ _ _
  have hf3 : funct3Of (rWord opR funct7Base 0b110#3 rd rs1 rs2) = 0b110#3 := f3_rWord _ _ _ _ _ _
  have hf7 : funct7Of (rWord opR funct7Base 0b110#3 rd rs1 rs2) = funct7Base := f7_rWord _ _ _ _ _ _
  have hruns : Iss.Runs C [rWord opR funct7Base 0b110#3 rd rs1 rs2]
      fun f ↦ update f rd (C.uxlen (C.uxlen (f rs1 ||| f rs2 : ℕ))) := by
    apply Iss.runs_wr hrd
    intro σ
    rw [Iss.step_rtype (op_rWord opR funct7Base 0b110#3 rd rs1 rs2 : opcodeOf _ = _)
      (by rw [hf7, hf3]; rfl), hrd', hrs1, hrs2]
  simpa only [uxlen_uxlen] using hruns

/-- What the words of a constant write. -/
def constValue (xlen bits32 : ℕ) : ℕ :=
  let lo := BitVec.ofNat 12 bits32
  let hi := BitVec.ofNat 20 ((bits32 >>> 12) + if lo.msb then 1 else 0)
  uXlen (s32 (hi.toNat * 2 ^ 12 : ℕ) + lo.toInt) xlen

theorem uXlen_uXlen_add (a b : ℤ) (w : ℕ) : uXlen (uXlen a w + b) w = uXlen (a + b) w := by
  rw [uXlen_eq, uXlen_eq, uXlen_eq, BitVec.ofInt_add, ofInt_natCast_toNat, ← BitVec.ofInt_add]

theorem runs_constWords {rd : BitVec 5} (hrd : rd ≠ 0) (bits32 : ℕ) :
    Iss.Runs C (constWords rd bits32) fun f ↦ update f rd (constValue C.xlen bits32) := by
  rw [constWords, constValue]
  set lo := BitVec.ofNat 12 bits32
  set hi := BitVec.ofNat 20 ((bits32 >>> 12) + if lo.msb then 1 else 0)
  have hlui := runs_lui (C := C) hrd hi
  by_cases hlo : lo = 0
  · rw [if_pos hlo, hlo]
    simpa [IssConfig.uxlen] using hlui
  · rw [if_neg hlo]
    have hboth := hlui.append (runs_addi hrd rd lo)
    simpa only [Function.update_self, Function.update_idem, IssConfig.uxlen, uXlen_uXlen_add,
      List.cons_append, List.nil_append] using hboth

theorem s32_emod (n : ℕ) : s32 n % 2 ^ 32 = (n : ℤ) % 2 ^ 32 := by
  have hu : (uXlen n 32 : ℤ) = (n : ℤ) % 2 ^ 32 := Int.toNat_of_nonneg (Int.emod_nonneg _ (by decide))
  rw [s32, sXlen]
  split_ifs <;> omega

theorem constValue_mod (hx : 32 ≤ xlen) (bits32 : ℕ) :
    constValue xlen bits32 % 2 ^ 32 = bits32 % 2 ^ 32 := by
  have hdvd : (2 ^ 32 : ℤ) ∣ 2 ^ xlen := pow_dvd_pow 2 hx
  have hu : ∀ v : ℤ, (uXlen v xlen : ℤ) % 2 ^ 32 = v % 2 ^ 32 := by
    intro v
    have hcast : (uXlen v xlen : ℤ) = v % 2 ^ xlen :=
      Int.toNat_of_nonneg (Int.emod_nonneg _ (by positivity))
    rw [hcast, Int.emod_emod_of_dvd _ hdvd]
  zify
  rw [constValue, hu, ← Int.emod_add_emod, s32_emod, Int.emod_add_emod, BitVec.toInt_eq_msb_cond]
  set lo := BitVec.ofNat 12 bits32 with hlo
  have htoNat : lo.toNat = bits32 % 2 ^ 12 := BitVec.toNat_ofNat bits32 12
  rw [BitVec.toNat_ofNat, Nat.shiftRight_eq_div_pow]
  cases lo.msb
  · simp
    omega
  · simp
    omega

theorem constValue_lt (bits32 : ℕ) : constValue xlen bits32 < 2 ^ xlen := by
  rw [constValue, uXlen_eq]
  exact BitVec.isLt _

/-- The upper half is shifted into place, the lower half to and fro: the sign bits that either
brings along are shifted out. -/
theorem runs_const64Words (hC : C.xlen = 64) {rd rdScratch : BitVec 5} (hrd : rd ≠ 0)
    (hsc : rdScratch ≠ 0) (hne : rd ≠ rdScratch) {bits64 : ℕ} (hbits : bits64 < 2 ^ 64) :
    Iss.Runs C (const64Words rd rdScratch bits64)
      fun f ↦ update (update f rdScratch (bits64 % 2 ^ 32)) rd bits64 := by
  have hmask : ∀ n : ℕ, n &&& 0xFFFFFFFF = n % 2 ^ 32 := fun n ↦
    Nat.and_two_pow_sub_one_eq_mod n 32
  have hhi : (bits64 >>> 32) % 2 ^ 32 = bits64 / 2 ^ 32 := by
    rw [Nat.shiftRight_eq_div_pow, Nat.mod_eq_of_lt (by omega)]
  have hconst : ∀ n : ℕ, constValue C.xlen n % 2 ^ 32 = n % 2 ^ 32 := fun n ↦
    constValue_mod (by omega) n
  have hlow : ∀ n : ℕ, n % 2 ^ 32 * 2 ^ 32 % 2 ^ 64 / 2 ^ 32 = n % 2 ^ 32 := by omega
  have hor : (bits64 / 2 ^ 32 % 2 ^ 32 * 2 ^ 32 ||| bits64 % 2 ^ 32 % 2 ^ 32) % 2 ^ 64 = bits64 := by
    rw [mul_comm, ← Nat.two_pow_add_eq_or_of_lt (Nat.mod_lt _ (by decide))]
    omega
  rw [const64Words, hmask, hmask, hhi]
  have hupper := (runs_constWords hrd (bits64 / 2 ^ 32)).append (runs_slli32 hC hrd)
  have hlower := (runs_slli32 hC hsc).append ((runs_srli32 hC hsc).append (runs_or hrd rd rdScratch))
  have hall := (hupper.append (runs_constWords hsc (bits64 % 2 ^ 32))).append hlower
  simp only [Function.update_self, Function.update_idem, Function.update_of_ne hne,
    hconst, hlow, uxlen_natCast hC, hor] at hall
  simpa only [Function.update_comm hne, Function.update_idem, Nat.mod_mod, List.cons_append,
    List.nil_append] using hall

/-- `const64_to_reg_instrs` at XLEN 64 and `const_to_reg_instrs` at XLEN 32 assemble, and leave their
registers at the value from every state of the simulator. -/
theorem constants_exact (U : Unicode) (memSize : ℕ) (σ : Iss) :
    (∀ (rd rdScratch : BitVec 5) (v : BitVec 64), rd ≠ 0 → rdScratch ≠ 0 → rd ≠ rdScratch →
      ∃ ws σ', assemble U 64 ((const64ToRegInstrs rd rdScratch v.toNat).map Line.text) = .ok ws ∧
        Iss.exec (.full 64 memSize) ws σ = some σ' ∧ σ'.regs rd = v.toNat ∧
          ∀ r, r ≠ rd → r ≠ rdScratch → σ'.regs r = σ.regs r) ∧
    ∀ (rd : BitVec 5) (v : BitVec 32), rd ≠ 0 →
      ∃ ws σ', assemble U 32 ((constToRegInstrs rd v.toNat).map Line.text) = .ok ws ∧
        Iss.exec (.full 32 memSize) ws σ = some σ' ∧ σ'.regs rd = v.toNat ∧
          ∀ r, r ≠ rd → σ'.regs r = σ.regs r := by
  constructor
  · intro rd rdScratch v hrd hsc hne
    have hruns := runs_const64Words (C := .full 64 memSize) rfl hrd hsc hne v.isLt
    obtain ⟨trace, hexec⟩ := hruns σ
    refine ⟨_, _, assemble_of_encodes (const64ToReg_encodes rd rdScratch v.toNat), hexec, ?_, ?_⟩
    · exact Function.update_self rd _ _
    · intro r hr hr'
      exact (Function.update_of_ne hr _ _).trans (Function.update_of_ne hr' _ _)
  · intro rd v hrd
    obtain ⟨trace, hexec⟩ := runs_constWords (C := .full 32 memSize) hrd v.toNat σ
    have hvalue : constValue 32 v.toNat = v.toNat := by
      have hmod := constValue_mod (le_refl 32) v.toNat
      rwa [Nat.mod_eq_of_lt (constValue_lt _), Nat.mod_eq_of_lt v.isLt] at hmod
    refine ⟨_, _, assemble_of_encodes (constToReg_encodes rd v.toNat), hexec, ?_, ?_⟩
    · exact (Function.update_self rd _ _).trans hvalue
    · intro r hr
      exact Function.update_of_ne hr _ _

/-- Both halves of the value are ones that `lui` and `addi` miss at XLEN 64. -/
theorem constants_exact_carry :
    ∃ ws σ', assemble .ascii 64
        ((const64ToRegInstrs 29 30 (0x7FFFFFFF7FFFF800#64).toNat).map Line.text) = .ok ws ∧
      Iss.exec (.full 64 128) ws (Iss.init 128) = some σ' ∧
        σ'.regs 29 = (0x7FFFFFFF7FFFF800#64).toNat ∧
          ∀ r, r ≠ 29 → r ≠ 30 → σ'.regs r = (Iss.init 128).regs r :=
  (constants_exact .ascii 128 (Iss.init 128)).1 29 30 0x7FFFFFFF7FFFF800#64 (by decide) (by decide)
    (by decide)

end Execution

end RandomGen

end RvPipeline.Tools
