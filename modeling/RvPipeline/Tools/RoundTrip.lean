import RvPipeline.Tools.Printed

/-!
# Assembling what was disassembled

The two tools keep their own tables.  Every line the assembler accepts comes back from its word,
except `sret`, `sfence.vma`, `fence` and the accesses to a float CSR.
-/

namespace RvPipeline.Tools

open Py Disasm

variable {U : Unicode} {xlen : ℕ}

/-! ## The words of a form -/

/-- The address of the CSR operand, zero where there is none. -/
def csrArg (U : Unicode) (args : List Str) : BitVec 12 :=
  match (arg args 1).bind (csrLookup U) with
  | .ok a => BitVec.ofInt 12 a
  | .error _ => 0

/-- What `encode` can return, field by field; `csr` is the address of the CSR operand. -/
inductive Words (xlen : ℕ) (csr : BitVec 12) : Form → BitVec 32 → Prop
  | nop : Words xlen csr .nop nopWord
  | rType (f7 f3 rd rs1 rs2) : Words xlen csr (.rType f7 f3) (rWord opR f7 f3 rd rs1 rs2)
  | ctz (rd rs1) : Words xlen csr .ctz (Tools.ctz rd rs1)
  | iType (f3 rd rs1 v) : Words xlen csr (.iType f3 none) (iWord opI v f3 rd rs1)
  | shift64 (f3 alt rd rs1) (shamt : BitVec 6) (h : 64 ≤ xlen) :
      Words xlen csr (.iType f3 (some alt))
        (iWord opI ((if alt then 0b010000#6 else 0b000000#6) ++ shamt) f3 rd rs1)
  | shift32 (f3 alt rd rs1) (shamt : BitVec 5) (h : ¬ 64 ≤ xlen) :
      Words xlen csr (.iType f3 (some alt))
        (iWord opI ((if alt then funct7Alt else funct7Base) ++ shamt) f3 rd rs1)
  | rTypeW (f7 f3 rd rs1 rs2) : Words xlen csr (.rTypeW f7 f3) (rWord op32 f7 f3 rd rs1 rs2)
  | iTypeW (f3 rd rs1 v) : Words xlen csr (.iTypeW f3 none) (iWord opImm32 v f3 rd rs1)
  | shiftW (f3 alt rd rs1) (shamt : BitVec 5) :
      Words xlen csr (.iTypeW f3 (some alt))
        (iWord opImm32 ((if alt then funct7Alt else funct7Base) ++ shamt) f3 rd rs1)
  | load (f3 rd rs1 v) : Words xlen csr (.load f3) (iWord opLoad v f3 rd rs1)
  | store (f3 rs1 rs2 v) : Words xlen csr (.store f3) (sWord opStore v f3 rs1 rs2)
  | branch (f3 rs1 rs2 v) (h : v.getLsbD 0 = false) :
      Words xlen csr (.branch f3) (branchWord v f3 rs1 rs2)
  | jal (rd v) (h : v.getLsbD 0 = false) : Words xlen csr .jal (jalWord v rd)
  | jalr (rd rs1 v) : Words xlen csr .jalr (iWord opJalr v 0 rd rs1)
  | lui (rd v) : Words xlen csr .lui (uWord opLui v rd)
  | auipc (rd v) : Words xlen csr .auipc (uWord opAuipc v rd)
  | csrReg (f3 rd rs1) : Words xlen csr (.csrReg f3) (iWord opSystem csr f3 rd rs1)
  | csrImm (f3 rd uimm) : Words xlen csr (.csrImm f3) (iWord opSystem csr f3 rd uimm)
  | system (v) : Words xlen csr (.system v) (systemNoarg v)
  | sfenceVma (rs1 rs2) : Words xlen csr .sfenceVma (Tools.sfenceVma rs1 rs2)
  | fence : Words xlen csr .fence Tools.fence
  | word (w) : Words xlen csr .word w
  | flw (rd rs1 v) : Words xlen csr .flw (iWord opLoadFp v 0b010#3 rd rs1)
  | fsw (rs1 rs2 v) : Words xlen csr .fsw (sWord opStoreFp v 0b010#3 rs1 rs2)
  | fpArith (f5 rm rd rs1 rs2) (h : rm ∈ Tools.rmNames.map Prod.snd) :
      Words xlen csr (.fpArith f5) (fpWord opFp f5 rm rd rs1 rs2)
  | fsqrt (rm rd rs1) (h : rm ∈ Tools.rmNames.map Prod.snd) :
      Words xlen csr .fsqrt (fpWord opFp funct5Fsqrt rm rd rs1 0)
  | fpSgnj (f3 rd rs1 rs2) : Words xlen csr (.fpSgnj f3) (fpWord opFp funct5Fsgnj f3 rd rs1 rs2)
  | fpMinmax (f3 rd rs1 rs2) :
      Words xlen csr (.fpMinmax f3) (fpWord opFp funct5Fminmax f3 rd rs1 rs2)
  | fpCmp (f3 rd rs1 rs2) : Words xlen csr (.fpCmp f3) (fpWord opFp funct5Fcmp f3 rd rs1 rs2)
  | fcvtWS (u : Bool) (rm rd rs1) (h : rm ∈ Tools.rmNames.map Prod.snd) :
      Words xlen csr (.fcvtWS u) (fpWord opFp funct5FcvtWS rm rd rs1 (if u then 1 else 0))
  | fcvtSW (u : Bool) (rm rd rs1) (h : rm ∈ Tools.rmNames.map Prod.snd) :
      Words xlen csr (.fcvtSW u) (fpWord opFp funct5FcvtSW rm rd rs1 (if u then 1 else 0))
  | fmvXW (rd rs1) : Words xlen csr .fmvXW (fpWord opFp funct5FmvXWFclass 0 rd rs1 0)
  | fclass (rd rs1) : Words xlen csr .fclass (fpWord opFp funct5FmvXWFclass 1 rd rs1 0)
  | fmvWX (rd rs1) : Words xlen csr .fmvWX (fpWord opFp funct5FmvWX 0 rd rs1 0)
  | madd (o rs3 rm rd rs1 rs2) (h : rm ∈ Tools.rmNames.map Prod.snd) :
      Words xlen csr (.madd o) (fpWord o rs3 rm rd rs1 rs2)

theorem bind_eq_ok {ε α β : Type} {x : Except ε α} {f : α → Except ε β} {r : β} :
    (x >>= f) = .ok r ↔ ∃ a, x = .ok a ∧ f a = .ok r := by
  cases x with
  | error e => simp [bind, Except.bind]
  | ok a => simp [bind, Except.bind]

theorem pure_eq_ok {ε α : Type} {a r : α} : (pure a : Except ε α) = .ok r ↔ a = r := by
  simp [pure, Except.pure]

theorem shiftImm_eq_ok {alt : Bool} {tok : Str} {v : BitVec 12}
    (h : shiftImm U xlen alt tok = .ok v) :
    (64 ≤ xlen ∧ ∃ s : BitVec 6, v = (if alt then 0b010000#6 else 0b000000#6) ++ s) ∨
      ¬ 64 ≤ xlen ∧ ∃ s : BitVec 5, v = (if alt then funct7Alt else funct7Base) ++ s := by
  by_cases hx : 64 ≤ xlen
  · simp only [shiftImm, if_pos hx, bind_eq_ok, pure_eq_ok] at h
    obtain ⟨s, -, rfl⟩ := h
    exact .inl ⟨hx, s, rfl⟩
  · simp only [shiftImm, if_neg hx, bind_eq_ok, pure_eq_ok] at h
    obtain ⟨s, -, rfl⟩ := h
    exact .inr ⟨hx, s, rfl⟩

theorem csrArg_of_lookup {args : List Str} {csr : Str} {a : ℤ} (harg : arg args 1 = .ok csr)
    (hcsr : csrLookup U csr = .ok a) : csrArg U args = BitVec.ofInt 12 a := by
  simp only [csrArg, harg, Except.bind, hcsr]

theorem encode_words {labels : List (Str × ℕ)} {cur : ℕ} {f : Form} {args : List Str}
    {w : BitVec 32} (h : encode U xlen labels cur f args = .ok w) :
    Words xlen (csrArg U args) f w := by
  cases f with
  | nop =>
    cases h
    exact .nop
  | rType f7 f3 =>
    simp only [encode, bind_eq_ok, pure_eq_ok] at h
    obtain ⟨_, _, rd, _, _, _, rs1, _, _, _, rs2, _, rfl⟩ := h
    exact .rType f7 f3 rd rs1 rs2
  | ctz =>
    simp only [encode, bind_eq_ok, pure_eq_ok] at h
    obtain ⟨_, _, rd, _, _, _, rs1, _, rfl⟩ := h
    exact .ctz rd rs1
  | iType f3 shift =>
    simp only [encode, bind_eq_ok] at h
    obtain ⟨_, _, rd, _, _, _, rs1, _, tok, _, h⟩ := h
    cases shift with
    | none =>
      simp only [Tools.iType, bind_eq_ok, pure_eq_ok] at h
      obtain ⟨v, -, rfl⟩ := h
      exact .iType f3 rd rs1 v
    | some alt =>
      simp only [Tools.iType, bind_eq_ok, pure_eq_ok] at h
      obtain ⟨v, hv, rfl⟩ := h
      rcases shiftImm_eq_ok hv with ⟨hx, shamt, rfl⟩ | ⟨hx, shamt, rfl⟩
      · exact .shift64 f3 alt rd rs1 shamt hx
      · exact .shift32 f3 alt rd rs1 shamt hx
  | rTypeW f7 f3 =>
    simp only [encode, bind_eq_ok, pure_eq_ok] at h
    obtain ⟨_, _, rd, _, _, _, rs1, _, _, _, rs2, _, rfl⟩ := h
    exact .rTypeW f7 f3 rd rs1 rs2
  | iTypeW f3 shift =>
    simp only [encode, bind_eq_ok] at h
    obtain ⟨_, _, rd, _, _, _, rs1, _, tok, _, h⟩ := h
    cases shift with
    | none =>
      simp only [Tools.iTypeW, bind_eq_ok, pure_eq_ok] at h
      obtain ⟨v, -, rfl⟩ := h
      exact .iTypeW f3 rd rs1 v
    | some alt =>
      simp only [Tools.iTypeW, bind_eq_ok, pure_eq_ok] at h
      obtain ⟨v, hv, rfl⟩ := h
      rcases shiftImm_eq_ok hv with ⟨hx, _⟩ | ⟨-, shamt, rfl⟩
      · exact absurd hx (by decide)
      · exact .shiftW f3 alt rd rs1 shamt
  | load f3 =>
    simp only [encode, bind_eq_ok, pure_eq_ok] at h
    obtain ⟨m, _, rfl⟩ := h
    exact .load f3 m.1 m.2.1 m.2.2
  | store f3 =>
    simp only [encode, bind_eq_ok, pure_eq_ok] at h
    obtain ⟨m, _, rfl⟩ := h
    exact .store f3 m.2.1 m.1 m.2.2
  | branch f3 =>
    simp only [encode, Tools.branch, bind_eq_ok] at h
    obtain ⟨_, _, rs1, _, _, _, rs2, _, _, _, _, _, v, _, h⟩ := h
    split_ifs at h with hodd
    cases h
    exact .branch f3 rs1 rs2 v (by simpa using hodd)
  | jal =>
    simp only [encode, Tools.jal, bind_eq_ok] at h
    obtain ⟨_, _, rd, _, _, _, _, _, v, _, h⟩ := h
    split_ifs at h with hodd
    cases h
    exact .jal rd v (by simpa using hodd)
  | jalr =>
    simp only [encode, bind_eq_ok, pure_eq_ok] at h
    obtain ⟨m, _, rfl⟩ := h
    exact .jalr m.1 m.2.1 m.2.2
  | lui =>
    simp only [encode, bind_eq_ok, pure_eq_ok] at h
    obtain ⟨_, _, rd, _, _, _, v, _, rfl⟩ := h
    exact .lui rd v
  | auipc =>
    simp only [encode, bind_eq_ok, pure_eq_ok] at h
    obtain ⟨_, _, rd, _, _, _, v, _, rfl⟩ := h
    exact .auipc rd v
  | csrReg f3 =>
    simp only [encode, bind_eq_ok, pure_eq_ok] at h
    obtain ⟨_, _, rd, _, csr, hcsr, _, _, rs1, _, addr, haddr, rfl⟩ := h
    rw [← csrArg_of_lookup hcsr haddr]
    exact .csrReg f3 rd rs1
  | csrImm f3 =>
    simp only [encode, bind_eq_ok, pure_eq_ok] at h
    obtain ⟨_, _, rd, _, csr, hcsr, _, _, addr, haddr, uimm, _, rfl⟩ := h
    rw [← csrArg_of_lookup hcsr haddr]
    exact .csrImm f3 rd uimm
  | system v =>
    cases h
    exact .system v
  | sfenceVma =>
    simp only [encode, bind_eq_ok, pure_eq_ok] at h
    obtain ⟨rs1, _, rs2, _, rfl⟩ := h
    exact .sfenceVma rs1 rs2
  | fence =>
    cases h
    exact .fence
  | word => exact .word w
  | flw =>
    simp only [encode, bind_eq_ok, pure_eq_ok] at h
    obtain ⟨m, _, rfl⟩ := h
    exact .flw m.1 m.2.1 m.2.2
  | fsw =>
    simp only [encode, bind_eq_ok, pure_eq_ok] at h
    obtain ⟨m, _, rfl⟩ := h
    exact .fsw m.2.1 m.1 m.2.2
  | fpArith f5 =>
    simp only [encode, bind_eq_ok, pure_eq_ok] at h
    obtain ⟨_, _, rd, _, _, _, rs1, _, _, _, rs2, _, rm, hrm, rfl⟩ := h
    exact .fpArith f5 rm rd rs1 rs2 (parseRm_mem hrm)
  | fsqrt =>
    simp only [encode, bind_eq_ok, pure_eq_ok] at h
    obtain ⟨_, _, rd, _, _, _, rs1, _, rm, hrm, rfl⟩ := h
    exact .fsqrt rm rd rs1 (parseRm_mem hrm)
  | fpSgnj f3 =>
    simp only [encode, bind_eq_ok, pure_eq_ok] at h
    obtain ⟨_, _, rd, _, _, _, rs1, _, _, _, rs2, _, rfl⟩ := h
    exact .fpSgnj f3 rd rs1 rs2
  | fpMinmax f3 =>
    simp only [encode, bind_eq_ok, pure_eq_ok] at h
    obtain ⟨_, _, rd, _, _, _, rs1, _, _, _, rs2, _, rfl⟩ := h
    exact .fpMinmax f3 rd rs1 rs2
  | fpCmp f3 =>
    simp only [encode, bind_eq_ok, pure_eq_ok] at h
    obtain ⟨_, _, rd, _, _, _, rs1, _, _, _, rs2, _, rfl⟩ := h
    exact .fpCmp f3 rd rs1 rs2
  | fcvtWS u =>
    simp only [encode, bind_eq_ok, pure_eq_ok] at h
    obtain ⟨_, _, rd, _, _, _, rs1, _, rm, hrm, rfl⟩ := h
    exact .fcvtWS u rm rd rs1 (parseRm_mem hrm)
  | fcvtSW u =>
    simp only [encode, bind_eq_ok, pure_eq_ok] at h
    obtain ⟨_, _, rd, _, _, _, rs1, _, rm, hrm, rfl⟩ := h
    exact .fcvtSW u rm rd rs1 (parseRm_mem hrm)
  | fmvXW =>
    simp only [encode, bind_eq_ok, pure_eq_ok] at h
    obtain ⟨_, _, rd, _, _, _, rs1, _, rfl⟩ := h
    exact .fmvXW rd rs1
  | fclass =>
    simp only [encode, bind_eq_ok, pure_eq_ok] at h
    obtain ⟨_, _, rd, _, _, _, rs1, _, rfl⟩ := h
    exact .fclass rd rs1
  | fmvWX =>
    simp only [encode, bind_eq_ok, pure_eq_ok] at h
    obtain ⟨_, _, rd, _, _, _, rs1, _, rfl⟩ := h
    exact .fmvWX rd rs1
  | madd o =>
    simp only [encode, bind_eq_ok, pure_eq_ok] at h
    obtain ⟨_, _, rd, _, _, _, rs1, _, _, _, rs2, _, _, _, rs3, _, rm, hrm, rfl⟩ := h
    exact .madd o rs3 rm rd rs1 rs2 (parseRm_mem hrm)

/-! ## The two copies of the tables -/

/-- The mnemonic the disassembler prints for the words of a form. -/
def Form.printed : Form → Str
  | .nop => "nop".toList
  | .rType f7 f3 => rName f7 f3
  | .ctz => "ctz".toList
  | .iType f3 none => (iNames.lookup f3).getD "i-type?".toList
  | .iType f3 (some alt) => shiftName f3 "slli".toList "srli".toList "srai".toList alt
  | .rTypeW f7 f3 => rWName f7 f3
  | .iTypeW f3 none => if f3 = 0#3 then "addiw".toList else "opimm32?".toList
  | .iTypeW f3 (some alt) => shiftName f3 "slliw".toList "srliw".toList "sraiw".toList alt
  | .load f3 => (loadNames.lookup f3).getD "load?".toList
  | .store f3 => (storeNames.lookup f3).getD "store?".toList
  | .branch f3 => (branchNames.lookup f3).getD "branch?".toList
  | .jal => "jal".toList
  | .jalr => "jalr".toList
  | .lui => "lui".toList
  | .auipc => "auipc".toList
  | .csrReg f3 => (csrOpNames.lookup f3).getD "csr?".toList
  | .csrImm f3 => (csrOpNames.lookup f3).getD "csr?".toList
  | .system v => (systemNames.lookup v).getD []
  | .sfenceVma => []
  | .fence => []
  | .word => []
  | .flw => "flw".toList
  | .fsw => "fsw".toList
  | .fpArith f5 => (fpArithNames.lookup f5).getD []
  | .fsqrt => "fsqrt.s".toList
  | .fpSgnj f3 => (sgnjNames.lookup f3).getD "fsgnj?".toList
  | .fpMinmax f3 => (minmaxNames.lookup f3).getD "fminmax?".toList
  | .fpCmp f3 => (cmpNames.lookup f3).getD "fcmp?".toList
  | .fcvtWS u => if u then "fcvt.wu.s".toList else "fcvt.w.s".toList
  | .fcvtSW u => if u then "fcvt.s.wu".toList else "fcvt.s.w".toList
  | .fmvXW => "fmv.x.w".toList
  | .fclass => "fclass.s".toList
  | .fmvWX => "fmv.w.x".toList
  | .madd o => (maddNames.lookup o).getD []

/-- The tests by which the disassembler tells the forms of one opcode apart. -/
def Form.apart : Form → Bool
  | .rType f7 f3 => !(f7 == funct7Alt && f3 == 0b111#3)
  | .iType f3 shift => shift.isSome == (f3 == 1#3 || f3 == 5#3)
  | .iTypeW f3 shift => shift.isSome == (f3 == 1#3 || f3 == 5#3)
  | .csrReg f3 => f3 != 0#3 && !f3.getLsbD 2
  | .csrImm f3 => f3 != 0#3 && f3.getLsbD 2
  | .system v => (systemNames.lookup v).isSome
  | .fpArith f5 => [0b00000#5, 0b00001#5, 0b00010#5, 0b00011#5].contains f5
  | .madd o => (maddOpcodes.map Prod.snd).contains o
  | _ => true

/-- The forms the disassembler has no name for. -/
def Form.unnamed (f : Form) : Bool :=
  f == .system 0x102#12 || f == .sfenceVma || f == .fence || f == .word

theorem tables_agree : ∀ e ∈ forms, e.2.unnamed = false → e.2.printed = e.1 ∧ e.2.apart = true := by
  decide +kernel

theorem known_printed {mn : Str} {f : Form} (hmem : (mn, f) ∈ forms) (hf : f.unnamed = false) :
    Known f.printed f ∧ f.apart = true := by
  obtain ⟨hname, hapart⟩ := tables_agree _ hmem hf
  obtain ⟨htok, hlow, hlook⟩ := known_of_mem _ hmem
  rw [hname]
  exact ⟨⟨htok, hlow, hlook⟩, hapart⟩

/-! ## One form at a time -/

/-- The word comes back from the line it is printed as. -/
def RoundTrips (U : Unicode) (xlen : ℕ) (w : BitVec 32) : Prop :=
  assemble U xlen [disasm w xlen] = .ok [w]

theorem roundTrips_of_line {w : BitVec 32} {f : Form} (ops : List Str) (hk : Known f.printed f)
    (hdis : disasm w xlen = line f.printed ops) (hne : ops ≠ []) (hops : ∀ o ∈ ops, IsToken o)
    (henc : encode U xlen [] 0 f ops = .ok w) : RoundTrips U xlen w := by
  rw [RoundTrips, hdis, statement_line hk hne hops, henc]
  rfl

@[simp] theorem ok_bind {ε α β : Type} (a : α) (f : α → Except ε β) :
    (Except.ok a >>= f) = f a := rfl

@[simp] theorem arg_zero (a : Str) (l : List Str) : arg (a :: l) 0 = .ok a := rfl

@[simp] theorem arg_succ (a : Str) (l : List Str) (n : ℕ) : arg (a :: l) (n + 1) = arg l n := rfl

@[simp] theorem regMem_memOp {first : Str → Except AsmError (BitVec 5)} {t : Str} {r : BitVec 5}
    (hr : first t = .ok r) (v : BitVec 12) (rs1 : BitVec 5) :
    regMem U first [t, Disasm.memOp v.toInt rs1] = .ok (r, rs1, v) := by
  simp only [regMem, arg_zero, arg_succ, ok_bind, hr, memOperand_memOp, reg_xReg, imm_decInt]
  rfl

section Opcodes

variable {w : BitVec 32}

theorem disasm_of_op {o : BitVec 7} (h : op w = o) (ho : o ≠ 0 ∧ o ≠ opI) :
    disasm w xlen = disasmOpcode w xlen := by
  unfold disasm
  rw [if_neg, if_neg]
  · rintro rfl
    exact ho.1 (h ▸ by decide)
  · rintro rfl
    exact ho.2 (h ▸ by decide)

theorem disasm_opR (h : op w = opR) : disasm w xlen = disasmR w := by
  rw [disasm_of_op h (by decide), disasmOpcode, h]
  rfl

theorem disasm_opI (h : op w = opI) (hnop : w ≠ 0x00000013#32) : disasm w xlen = disasmI w xlen := by
  rw [disasm, if_neg hnop, if_neg, disasmOpcode, h]
  · rfl
  · rintro rfl
    exact absurd h (by decide)

theorem disasm_op32 (h : op w = op32) : disasm w xlen = disasmOp32 w := by
  rw [disasm_of_op h (by decide), disasmOpcode, h]
  rfl

theorem disasm_opImm32 (h : op w = opImm32) : disasm w xlen = disasmOpImm32 w := by
  rw [disasm_of_op h (by decide), disasmOpcode, h]
  rfl

theorem disasm_opLoad (h : op w = opLoad) :
    disasm w xlen = line (Form.load (f3 w)).printed
      [xReg (rd w), Disasm.memOp (imm12 w).toInt (rs1 w)] := by
  rw [disasm_of_op h (by decide), disasmOpcode, h]
  rfl

theorem disasm_opStore (h : op w = opStore) :
    disasm w xlen = line (Form.store (f3 w)).printed
      [xReg (rs2 w), Disasm.memOp (immS w).toInt (rs1 w)] := by
  rw [disasm_of_op h (by decide), disasmOpcode, h]
  rfl

theorem disasm_opBranch (h : op w = opBranch) :
    disasm w xlen = line (Form.branch (f3 w)).printed
      [xReg (rs1 w), xReg (rs2 w), decSigned (branchOff w).toInt] := by
  rw [disasm_of_op h (by decide), disasmOpcode, h]
  rfl

theorem disasm_opJal (h : op w = opJal) :
    disasm w xlen = line Form.jal.printed [xReg (rd w), decSigned (jalOff w).toInt] := by
  rw [disasm_of_op h (by decide), disasmOpcode, h]
  rfl

theorem disasm_opJalr (h : op w = opJalr) :
    disasm w xlen = line Form.jalr.printed [xReg (rd w), Disasm.memOp (imm12 w).toInt (rs1 w)] := by
  rw [disasm_of_op h (by decide), disasmOpcode, h]
  rfl

theorem disasm_opLui (h : op w = opLui) :
    disasm w xlen = line Form.lui.printed
      [xReg (rd w), '0' :: 'x' :: hex 1 (w.extractLsb' 12 20).toNat] := by
  rw [disasm_of_op h (by decide), disasmOpcode, h]
  rfl

theorem disasm_opAuipc (h : op w = opAuipc) :
    disasm w xlen = line Form.auipc.printed
      [xReg (rd w), '0' :: 'x' :: hex 1 (w.extractLsb' 12 20).toNat] := by
  rw [disasm_of_op h (by decide), disasmOpcode, h]
  rfl

theorem disasm_opCustom (h : op w = opCustom) :
    disasm w xlen = line Form.ctz.printed [xReg (rd w), xReg (rs1 w)] := by
  rw [disasm_of_op h (by decide), disasmOpcode, h]
  rfl

theorem disasm_opSystem (h : op w = opSystem) : disasm w xlen = disasmSystem w := by
  rw [disasm_of_op h (by decide), disasmOpcode, h]
  rfl

theorem disasm_opLoadFp (h : op w = opLoadFp) :
    disasm w xlen = line Form.flw.printed [fReg (rd w), Disasm.memOp (imm12 w).toInt (rs1 w)] := by
  rw [disasm_of_op h (by decide), disasmOpcode, h]
  rfl

theorem disasm_opStoreFp (h : op w = opStoreFp) :
    disasm w xlen = line Form.fsw.printed [fReg (rs2 w), Disasm.memOp (immS w).toInt (rs1 w)] := by
  rw [disasm_of_op h (by decide), disasmOpcode, h]
  rfl

theorem disasm_opFp (h : op w = opFp) : disasm w xlen = disasmFp w := by
  rw [disasm_of_op h (by decide), disasmOpcode, h]
  rfl

theorem disasm_opMadd {o : BitVec 7} (ho : o ∈ maddOpcodes.map Prod.snd) (h : op w = o) :
    disasm w xlen = line (Form.madd o).printed
      [fReg (rd w), fReg (rs1 w), fReg (rs2 w), fReg (rs3 w), rmName (f3 w)] := by
  have hcases : o = opMadd ∨ o = opMsub ∨ o = opNmsub ∨ o = opNmadd := by
    simpa [maddOpcodes] using ho
  rcases hcases with rfl | rfl | rfl | rfl
  all_goals
    rw [disasm_of_op h (by decide), disasmOpcode, h]
    rfl

end Opcodes

/-! ## The forms and their lines -/

section Families

variable {f7 : BitVec 7} {f3 : BitVec 3} {csr : BitVec 12}

theorem roundTrips_rType (hk : Known (Form.rType f7 f3).printed (.rType f7 f3))
    (hapart : (Form.rType f7 f3).apart = true) (rd rs1 rs2 : BitVec 5) :
    RoundTrips U xlen (rWord opR f7 f3 rd rs1 rs2) := by
  refine roundTrips_of_line [xReg rd, xReg rs1, xReg rs2] hk ?_ (by simp) (by simp [isToken_xReg]) ?_
  · have hctz : ¬ (f7 ≠ funct7Muldiv ∧ f7 = funct7Alt ∧ f3 = 0b111#3) := by
      rintro ⟨-, rfl, rfl⟩
      exact absurd hapart (by decide)
    rw [disasm_opR (op_rWord ..)]
    simp only [disasmR, f7_rWord, f3_rWord, rd_rWord, rs1_rWord, rs2_rWord]
    rw [if_neg hctz]
    rfl
  · simp only [encode, arg_zero, arg_succ, ok_bind, reg_xReg]
    rfl

theorem roundTrips_ctz (hk : Known Form.ctz.printed .ctz) (rd rs1 : BitVec 5) :
    RoundTrips U xlen (ctz rd rs1) := by
  refine roundTrips_of_line [xReg rd, xReg rs1] hk ?_ (by simp) (by simp [isToken_xReg]) ?_
  · rw [ctz, disasm_opCustom (op_rWord ..), rd_rWord, rs1_rWord]
  · simp only [encode, arg_zero, arg_succ, ok_bind, reg_xReg]
    rfl

theorem roundTrips_nop : RoundTrips U xlen 0x00000013#32 := by
  have hdis : disasm 0x00000013#32 xlen = "nop".toList := rfl
  rw [RoundTrips, hdis, statement_token (by decide) (by decide)]
  rfl

/-- The word of `addi x0,x0,0` is printed as `nop`; any other word of the opcode goes by its
fields. -/
theorem roundTrips_opI {f : Form} {w : BitVec 32} (ops : List Str) (hop : op w = opI)
    (hk : Known f.printed f) (hdis : disasmI w xlen = line f.printed ops) (hne : ops ≠ [])
    (hops : ∀ o ∈ ops, IsToken o) (henc : encode U xlen [] 0 f ops = .ok w) :
    RoundTrips U xlen w := by
  by_cases hnop : w = 0x00000013#32
  · rw [hnop]
    exact roundTrips_nop
  · exact roundTrips_of_line ops hk ((disasm_opI hop hnop).trans hdis) hne hops henc

theorem roundTrips_iType (hk : Known (Form.iType f3 none).printed (.iType f3 none))
    (hapart : (Form.iType f3 none).apart = true) (rd rs1 : BitVec 5) (v : BitVec 12) :
    RoundTrips U xlen (iWord opI v f3 rd rs1) := by
  refine roundTrips_opI [xReg rd, xReg rs1, decInt v.toInt] (op_iWord ..) hk ?_ (by simp)
    (by simp [isToken_xReg, isToken_decInt]) ?_
  · have hshift : ¬ (f3 = 1#3 ∨ f3 = 5#3) := by
      rintro (rfl | rfl) <;> exact absurd hapart (by decide)
    simp only [disasmI, f3_iWord, rd_iWord, rs1_iWord, imm12_iWord]
    rw [if_neg hshift]
    rfl
  · simp only [encode, Tools.iType, arg_zero, arg_succ, ok_bind, reg_xReg, imm_decInt]
    rfl

theorem shift_of_apart {alt : Bool} (hapart : (Form.iType f3 (some alt)).apart = true) :
    f3 = 1#3 ∨ f3 = 5#3 := by
  simpa [Form.apart] using hapart

theorem roundTrips_shift64 {alt : Bool}
    (hk : Known (Form.iType f3 (some alt)).printed (.iType f3 (some alt)))
    (hapart : (Form.iType f3 (some alt)).apart = true) (rd rs1 : BitVec 5) (shamt : BitVec 6)
    (hx : 64 ≤ xlen) :
    RoundTrips U xlen
      (iWord opI ((if alt then 0b010000#6 else 0b000000#6) ++ shamt) f3 rd rs1) := by
  refine roundTrips_opI [xReg rd, xReg rs1, dec shamt.toNat] (op_iWord ..) hk ?_ (by simp)
    (by simp [isToken_xReg, isToken_dec]) ?_
  · have hfunct6 := extract_iWord opI f3 rd rs1
      ((if alt then 0b010000#6 else 0b000000#6) ++ shamt) 6 6
    have hshamt := extract_iWord opI f3 rd rs1
      ((if alt then 0b010000#6 else 0b000000#6) ++ shamt) 0 6
    rw [BitVec.extractLsb'_append_eq_of_le (by decide), BitVec.extractLsb'_eq_self] at hfunct6
    rw [BitVec.extractLsb'_append_eq_of_add_le (by decide), BitVec.extractLsb'_eq_self] at hshamt
    simp only [disasmI, f3_iWord, rd_iWord, rs1_iWord, hfunct6, hshamt]
    rw [if_pos (shift_of_apart hapart), if_pos hx]
    cases alt <;> rfl
  · simp only [encode, Tools.iType, arg_zero, arg_succ, ok_bind, reg_xReg, shiftImm, if_pos hx,
      imm_dec]
    rfl

theorem f7_iWord_append (o t : BitVec 7) (c : BitVec 3) (x y s : BitVec 5) :
    Disasm.f7 (iWord o (t ++ s) c x y) = t := by
  have h := extract_iWord o c x y (t ++ s) 5 7
  rw [BitVec.extractLsb'_append_eq_of_le (by decide), BitVec.extractLsb'_eq_self] at h
  exact h

theorem rs2_iWord_append (o t : BitVec 7) (c : BitVec 3) (x y s : BitVec 5) :
    rs2 (iWord o (t ++ s) c x y) = s := by
  have h := extract_iWord o c x y (t ++ s) 0 5
  rw [BitVec.extractLsb'_append_eq_of_add_le (by decide), BitVec.extractLsb'_eq_self] at h
  exact h

theorem roundTrips_shift32 {alt : Bool}
    (hk : Known (Form.iType f3 (some alt)).printed (.iType f3 (some alt)))
    (hapart : (Form.iType f3 (some alt)).apart = true) (rd rs1 shamt : BitVec 5)
    (hx : ¬ 64 ≤ xlen) :
    RoundTrips U xlen
      (iWord opI ((if alt then funct7Alt else funct7Base) ++ shamt) f3 rd rs1) := by
  refine roundTrips_opI [xReg rd, xReg rs1, dec shamt.toNat] (op_iWord ..) hk ?_ (by simp)
    (by simp [isToken_xReg, isToken_dec]) ?_
  · simp only [disasmI, f3_iWord, rd_iWord, rs1_iWord, f7_iWord_append, rs2_iWord_append]
    rw [if_pos (shift_of_apart hapart), if_neg hx]
    cases alt <;> rfl
  · simp only [encode, Tools.iType, arg_zero, arg_succ, ok_bind, reg_xReg, shiftImm, if_neg hx,
      imm_dec]
    rfl

theorem roundTrips_rTypeW (hk : Known (Form.rTypeW f7 f3).printed (.rTypeW f7 f3))
    (rd rs1 rs2 : BitVec 5) : RoundTrips U xlen (rWord op32 f7 f3 rd rs1 rs2) := by
  refine roundTrips_of_line [xReg rd, xReg rs1, xReg rs2] hk ?_ (by simp) (by simp [isToken_xReg]) ?_
  · rw [disasm_op32 (op_rWord ..)]
    simp only [disasmOp32, f7_rWord, f3_rWord, rd_rWord, rs1_rWord, rs2_rWord]
    rfl
  · simp only [encode, arg_zero, arg_succ, ok_bind, reg_xReg]
    rfl

theorem roundTrips_iTypeW (hk : Known (Form.iTypeW f3 none).printed (.iTypeW f3 none))
    (hapart : (Form.iTypeW f3 none).apart = true) (rd rs1 : BitVec 5) (v : BitVec 12) :
    RoundTrips U xlen (iWord opImm32 v f3 rd rs1) := by
  refine roundTrips_of_line [xReg rd, xReg rs1, decInt v.toInt] hk ?_ (by simp)
    (by simp [isToken_xReg, isToken_decInt]) ?_
  · have hshift : ¬ (f3 = 1#3 ∨ f3 = 5#3) := by
      rintro (rfl | rfl) <;> exact absurd hapart (by decide)
    rw [disasm_opImm32 (op_iWord ..)]
    simp only [disasmOpImm32, f3_iWord, rd_iWord, rs1_iWord, imm12_iWord]
    rw [if_neg hshift]
    rfl
  · simp only [encode, Tools.iTypeW, arg_zero, arg_succ, ok_bind, reg_xReg, imm_decInt]
    rfl

theorem roundTrips_shiftW {alt : Bool}
    (hk : Known (Form.iTypeW f3 (some alt)).printed (.iTypeW f3 (some alt)))
    (hapart : (Form.iTypeW f3 (some alt)).apart = true) (rd rs1 shamt : BitVec 5) :
    RoundTrips U xlen
      (iWord opImm32 ((if alt then funct7Alt else funct7Base) ++ shamt) f3 rd rs1) := by
  refine roundTrips_of_line [xReg rd, xReg rs1, dec shamt.toNat] hk ?_ (by simp)
    (by simp [isToken_xReg, isToken_dec]) ?_
  · rw [disasm_opImm32 (op_iWord ..)]
    simp only [disasmOpImm32, f3_iWord, rd_iWord, rs1_iWord, f7_iWord_append, rs2_iWord_append]
    rw [if_pos (shift_of_apart hapart)]
    cases alt <;> rfl
  · simp only [encode, Tools.iTypeW, arg_zero, arg_succ, ok_bind, reg_xReg, shiftImm, imm_dec]
    rfl

theorem roundTrips_load (hk : Known (Form.load f3).printed (.load f3)) (rd rs1 : BitVec 5)
    (v : BitVec 12) : RoundTrips U xlen (iWord opLoad v f3 rd rs1) := by
  refine roundTrips_of_line [xReg rd, Disasm.memOp v.toInt rs1] hk ?_ (by simp)
    (by simp [isToken_xReg, isToken_memOp]) ?_
  · rw [disasm_opLoad (op_iWord ..), f3_iWord, rd_iWord, rs1_iWord, imm12_iWord]
  · rw [encode, regMem_memOp (reg_xReg rd)]
    rfl

theorem roundTrips_store (hk : Known (Form.store f3).printed (.store f3)) (rs1 rs2 : BitVec 5)
    (v : BitVec 12) : RoundTrips U xlen (sWord opStore v f3 rs1 rs2) := by
  refine roundTrips_of_line [xReg rs2, Disasm.memOp v.toInt rs1] hk ?_ (by simp)
    (by simp [isToken_xReg, isToken_memOp]) ?_
  · rw [disasm_opStore (op_sWord ..), f3_sWord, rs1_sWord, rs2_sWord, immS_sWord]
  · rw [encode, regMem_memOp (reg_xReg rs2)]
    rfl

theorem roundTrips_branch (hk : Known (Form.branch f3).printed (.branch f3)) (rs1 rs2 : BitVec 5)
    {v : BitVec 13} (hv : v.getLsbD 0 = false) :
    RoundTrips U xlen (branchWord v f3 rs1 rs2) := by
  refine roundTrips_of_line [xReg rs1, xReg rs2, decSigned v.toInt] hk ?_ (by simp)
    (by simp [isToken_xReg, isToken_decSigned]) ?_
  · rw [disasm_opBranch (op_branchWord ..), f3_branchWord, rs1_branchWord, rs2_branchWord,
      branchOff_branchWord _ _ _ _ hv]
  · simp only [encode, Tools.branch, arg_zero, arg_succ, ok_bind, reg_xReg, resolve_decSigned,
      immOf_toInt, hv]
    rfl

theorem roundTrips_jal (hk : Known Form.jal.printed .jal) (rd : BitVec 5) {v : BitVec 21}
    (hv : v.getLsbD 0 = false) : RoundTrips U xlen (jalWord v rd) := by
  refine roundTrips_of_line [xReg rd, decSigned v.toInt] hk ?_ (by simp)
    (by simp [isToken_xReg, isToken_decSigned]) ?_
  · rw [disasm_opJal (op_jalWord ..), rd_jalWord, jalOff_jalWord _ _ hv]
  · simp only [encode, Tools.jal, arg_zero, arg_succ, ok_bind, reg_xReg, resolve_decSigned,
      immOf_toInt, hv]
    rfl

theorem roundTrips_jalr (hk : Known Form.jalr.printed .jalr) (rd rs1 : BitVec 5) (v : BitVec 12) :
    RoundTrips U xlen (iWord opJalr v 0 rd rs1) := by
  refine roundTrips_of_line [xReg rd, Disasm.memOp v.toInt rs1] hk ?_ (by simp)
    (by simp [isToken_xReg, isToken_memOp]) ?_
  · rw [disasm_opJalr (op_iWord ..), rd_iWord, rs1_iWord, imm12_iWord]
  · rw [encode, regMem_memOp (reg_xReg rd)]
    rfl

theorem roundTrips_lui (hk : Known Form.lui.printed .lui) (rd : BitVec 5) (v : BitVec 20) :
    RoundTrips U xlen (uWord opLui v rd) := by
  refine roundTrips_of_line [xReg rd, '0' :: 'x' :: hex 1 v.toNat] hk ?_ (by simp)
    (by simp [isToken_xReg, isToken_hex]) ?_
  · rw [disasm_opLui (op_uWord ..), rd_uWord, imm20_uWord]
  · simp only [encode, arg_zero, arg_succ, ok_bind, reg_xReg, imm_hex]
    rfl

theorem roundTrips_auipc (hk : Known Form.auipc.printed .auipc) (rd : BitVec 5) (v : BitVec 20) :
    RoundTrips U xlen (uWord opAuipc v rd) := by
  refine roundTrips_of_line [xReg rd, '0' :: 'x' :: hex 1 v.toNat] hk ?_ (by simp)
    (by simp [isToken_xReg, isToken_hex]) ?_
  · rw [disasm_opAuipc (op_uWord ..), rd_uWord, imm20_uWord]
  · simp only [encode, arg_zero, arg_succ, ok_bind, reg_xReg, imm_hex]
    rfl

theorem roundTrips_flw (hk : Known Form.flw.printed .flw) (rd rs1 : BitVec 5) (v : BitVec 12) :
    RoundTrips U xlen (iWord opLoadFp v 0b010#3 rd rs1) := by
  refine roundTrips_of_line [fReg rd, Disasm.memOp v.toInt rs1] hk ?_ (by simp)
    (by simp [isToken_fReg, isToken_memOp]) ?_
  · rw [disasm_opLoadFp (op_iWord ..), rd_iWord, rs1_iWord, imm12_iWord]
  · rw [encode, regMem_memOp (freg_fReg rd)]
    rfl

theorem roundTrips_fsw (hk : Known Form.fsw.printed .fsw) (rs1 rs2 : BitVec 5) (v : BitVec 12) :
    RoundTrips U xlen (sWord opStoreFp v 0b010#3 rs1 rs2) := by
  refine roundTrips_of_line [fReg rs2, Disasm.memOp v.toInt rs1] hk ?_ (by simp)
    (by simp [isToken_fReg, isToken_memOp]) ?_
  · rw [disasm_opStoreFp (op_sWord ..), rs1_sWord, rs2_sWord, immS_sWord]
  · rw [encode, regMem_memOp (freg_fReg rs2)]
    rfl

section Float

variable {o : BitVec 7} {t : BitVec 5} {c rm : BitVec 3} {x y z : BitVec 5}

@[simp] theorem op_fpWord : op (fpWord o t c x y z) = o := op_rWord ..

@[simp] theorem rd_fpWord : rd (fpWord o t c x y z) = x := rd_rWord ..

@[simp] theorem f3_fpWord : Disasm.f3 (fpWord o t c x y z) = c := f3_rWord ..

@[simp] theorem rs1_fpWord : rs1 (fpWord o t c x y z) = y := rs1_rWord ..

@[simp] theorem rs2_fpWord : rs2 (fpWord o t c x y z) = z := rs2_rWord ..

theorem roundTrips_fpArith (hk : Known (Form.fpArith t).printed (.fpArith t))
    (hapart : (Form.fpArith t).apart = true) (hrm : rm ∈ Tools.rmNames.map Prod.snd) :
    RoundTrips U xlen (fpWord opFp t rm x y z) := by
  refine roundTrips_of_line [fReg x, fReg y, fReg z, rmName rm] hk ?_ (by simp)
    (by simp [isToken_fReg, isToken_rmName]) ?_
  · have hmem : t ∈ [0b00000#5, 0b00001#5, 0b00010#5, 0b00011#5] := by
      simpa [Form.apart] using hapart
    rw [disasm_opFp op_fpWord]
    simp only [disasmFp, rs3_fpWord, rd_fpWord, rs1_fpWord, rs2_fpWord, f3_fpWord]
    rw [if_pos hmem]
    rfl
  · simp only [encode, arg_zero, arg_succ, ok_bind, freg_fReg, parseRm_succ,
      parseRm_rmName hrm]
    rfl

theorem roundTrips_fsqrt (hk : Known Form.fsqrt.printed .fsqrt)
    (hrm : rm ∈ Tools.rmNames.map Prod.snd) :
    RoundTrips U xlen (fpWord opFp funct5Fsqrt rm x y 0) := by
  refine roundTrips_of_line [fReg x, fReg y, rmName rm] hk ?_ (by simp)
    (by simp [isToken_fReg, isToken_rmName]) ?_
  · rw [disasm_opFp op_fpWord]
    simp only [disasmFp, rs3_fpWord, rd_fpWord, rs1_fpWord, rs2_fpWord, f3_fpWord]
    rfl
  · simp only [encode, arg_zero, arg_succ, ok_bind, freg_fReg, parseRm_succ,
      parseRm_rmName hrm]
    rfl

theorem roundTrips_fpSgnj (hk : Known (Form.fpSgnj c).printed (.fpSgnj c)) :
    RoundTrips U xlen (fpWord opFp funct5Fsgnj c x y z) := by
  refine roundTrips_of_line [fReg x, fReg y, fReg z] hk ?_ (by simp) (by simp [isToken_fReg]) ?_
  · rw [disasm_opFp op_fpWord]
    simp only [disasmFp, rs3_fpWord, rd_fpWord, rs1_fpWord, rs2_fpWord, f3_fpWord]
    rfl
  · simp only [encode, arg_zero, arg_succ, ok_bind, freg_fReg]
    rfl

theorem roundTrips_fpMinmax (hk : Known (Form.fpMinmax c).printed (.fpMinmax c)) :
    RoundTrips U xlen (fpWord opFp funct5Fminmax c x y z) := by
  refine roundTrips_of_line [fReg x, fReg y, fReg z] hk ?_ (by simp) (by simp [isToken_fReg]) ?_
  · rw [disasm_opFp op_fpWord]
    simp only [disasmFp, rs3_fpWord, rd_fpWord, rs1_fpWord, rs2_fpWord, f3_fpWord]
    rfl
  · simp only [encode, arg_zero, arg_succ, ok_bind, freg_fReg]
    rfl

theorem roundTrips_fpCmp (hk : Known (Form.fpCmp c).printed (.fpCmp c)) :
    RoundTrips U xlen (fpWord opFp funct5Fcmp c x y z) := by
  refine roundTrips_of_line [xReg x, fReg y, fReg z] hk ?_ (by simp)
    (by simp [isToken_xReg, isToken_fReg]) ?_
  · rw [disasm_opFp op_fpWord]
    simp only [disasmFp, rs3_fpWord, rd_fpWord, rs1_fpWord, rs2_fpWord, f3_fpWord]
    rfl
  · simp only [encode, arg_zero, arg_succ, ok_bind, reg_xReg, freg_fReg]
    rfl

theorem roundTrips_fcvtWS {u : Bool} (hk : Known (Form.fcvtWS u).printed (.fcvtWS u))
    (hrm : rm ∈ Tools.rmNames.map Prod.snd) :
    RoundTrips U xlen (fpWord opFp funct5FcvtWS rm x y (if u then 1 else 0)) := by
  refine roundTrips_of_line [xReg x, fReg y, rmName rm] hk ?_ (by simp)
    (by simp [isToken_xReg, isToken_fReg, isToken_rmName]) ?_
  · rw [disasm_opFp op_fpWord]
    simp only [disasmFp, rs3_fpWord, rd_fpWord, rs1_fpWord, rs2_fpWord, f3_fpWord]
    cases u <;> rfl
  · simp only [encode, arg_zero, arg_succ, ok_bind, reg_xReg, freg_fReg, parseRm_succ,
      parseRm_rmName hrm]
    rfl

theorem roundTrips_fcvtSW {u : Bool} (hk : Known (Form.fcvtSW u).printed (.fcvtSW u))
    (hrm : rm ∈ Tools.rmNames.map Prod.snd) :
    RoundTrips U xlen (fpWord opFp funct5FcvtSW rm x y (if u then 1 else 0)) := by
  refine roundTrips_of_line [fReg x, xReg y, rmName rm] hk ?_ (by simp)
    (by simp [isToken_xReg, isToken_fReg, isToken_rmName]) ?_
  · rw [disasm_opFp op_fpWord]
    simp only [disasmFp, rs3_fpWord, rd_fpWord, rs1_fpWord, rs2_fpWord, f3_fpWord]
    cases u <;> rfl
  · simp only [encode, arg_zero, arg_succ, ok_bind, reg_xReg, freg_fReg, parseRm_succ,
      parseRm_rmName hrm]
    rfl

theorem roundTrips_fmvXW (hk : Known Form.fmvXW.printed .fmvXW) :
    RoundTrips U xlen (fpWord opFp funct5FmvXWFclass 0 x y 0) := by
  refine roundTrips_of_line [xReg x, fReg y] hk ?_ (by simp) (by simp [isToken_xReg, isToken_fReg]) ?_
  · rw [disasm_opFp op_fpWord]
    simp only [disasmFp, rs3_fpWord, rd_fpWord, rs1_fpWord, rs2_fpWord, f3_fpWord]
    rfl
  · simp only [encode, arg_zero, arg_succ, ok_bind, reg_xReg, freg_fReg]
    rfl

theorem roundTrips_fclass (hk : Known Form.fclass.printed .fclass) :
    RoundTrips U xlen (fpWord opFp funct5FmvXWFclass 1 x y 0) := by
  refine roundTrips_of_line [xReg x, fReg y] hk ?_ (by simp) (by simp [isToken_xReg, isToken_fReg]) ?_
  · rw [disasm_opFp op_fpWord]
    simp only [disasmFp, rs3_fpWord, rd_fpWord, rs1_fpWord, rs2_fpWord, f3_fpWord]
    rfl
  · simp only [encode, arg_zero, arg_succ, ok_bind, reg_xReg, freg_fReg]
    rfl

theorem roundTrips_fmvWX (hk : Known Form.fmvWX.printed .fmvWX) :
    RoundTrips U xlen (fpWord opFp funct5FmvWX 0 x y 0) := by
  refine roundTrips_of_line [fReg x, xReg y] hk ?_ (by simp) (by simp [isToken_xReg, isToken_fReg]) ?_
  · rw [disasm_opFp op_fpWord]
    simp only [disasmFp, rs3_fpWord, rd_fpWord, rs1_fpWord, rs2_fpWord, f3_fpWord]
    rfl
  · simp only [encode, arg_zero, arg_succ, ok_bind, reg_xReg, freg_fReg]
    rfl

theorem roundTrips_madd (hk : Known (Form.madd o).printed (.madd o))
    (hapart : (Form.madd o).apart = true) (hrm : rm ∈ Tools.rmNames.map Prod.snd) :
    RoundTrips U xlen (fpWord o t rm x y z) := by
  have ho : o ∈ maddOpcodes.map Prod.snd := by
    simpa [Form.apart] using hapart
  refine roundTrips_of_line [fReg x, fReg y, fReg z, fReg t, rmName rm] hk ?_ (by simp)
    (by simp [isToken_fReg, isToken_rmName]) ?_
  · rw [disasm_opMadd ho op_fpWord, rd_fpWord, rs1_fpWord, rs2_fpWord, rs3_fpWord, f3_fpWord]
  · simp only [encode, arg_zero, arg_succ, ok_bind, freg_fReg, parseRm_succ,
      parseRm_rmName hrm]
    rfl

end Float

theorem disasmSystem_csr (hf3 : f3 ≠ 0#3) (rd rs1 : BitVec 5) :
    disasmSystem (iWord opSystem csr f3 rd rs1) =
      line ((csrOpNames.lookup f3).getD "csr?".toList)
        [xReg rd, csrName csr, if f3.getLsbD 2 then dec rs1.toNat else xReg rs1] := by
  simp only [disasmSystem, f3_iWord, rd_iWord, rs1_iWord, imm12_iWord]
  rw [if_neg hf3]

/-- A CSR line comes back when the assembler knows the name the disassembler gives the register. -/
theorem roundTrips_csrReg (hk : Known (Form.csrReg f3).printed (.csrReg f3))
    (hapart : (Form.csrReg f3).apart = true) (rd rs1 : BitVec 5) :
    RoundTrips U xlen (iWord opSystem csr f3 rd rs1) ↔ floatCsr csr = false := by
  simp only [Form.apart, Bool.and_eq_true, bne_iff_ne, Bool.not_eq_true'] at hapart
  have hdis : disasm (iWord opSystem csr f3 rd rs1) xlen =
      line (Form.csrReg f3).printed [xReg rd, csrName csr, xReg rs1] := by
    rw [disasm_opSystem (op_iWord ..), disasmSystem_csr hapart.1, hapart.2]
    rfl
  have hops : ∀ o ∈ [xReg rd, csrName csr, xReg rs1], IsToken o := by
    simp [isToken_xReg, isToken_csrName]
  cases hcsr : floatCsr csr with
  | false =>
    obtain ⟨a, ha, hof⟩ := csrLookup_csrName (U := U) hcsr
    refine iff_of_true (roundTrips_of_line _ hk hdis (by simp) hops ?_) rfl
    simp only [encode, arg_zero, arg_succ, ok_bind, reg_xReg, ha, hof]
    rfl
  | true =>
    refine iff_of_false ?_ (by simp)
    rw [RoundTrips, hdis, statement_line hk (by simp) hops]
    simp only [encode, arg_zero, arg_succ, ok_bind, reg_xReg, csrLookup_floatCsr hcsr]
    exact nofun

theorem roundTrips_csrImm (hk : Known (Form.csrImm f3).printed (.csrImm f3))
    (hapart : (Form.csrImm f3).apart = true) (rd uimm : BitVec 5) :
    RoundTrips U xlen (iWord opSystem csr f3 rd uimm) ↔ floatCsr csr = false := by
  simp only [Form.apart, Bool.and_eq_true, bne_iff_ne] at hapart
  have hdis : disasm (iWord opSystem csr f3 rd uimm) xlen =
      line (Form.csrImm f3).printed [xReg rd, csrName csr, dec uimm.toNat] := by
    rw [disasm_opSystem (op_iWord ..), disasmSystem_csr hapart.1, hapart.2]
    rfl
  have hops : ∀ o ∈ [xReg rd, csrName csr, dec uimm.toNat], IsToken o := by
    simp [isToken_xReg, isToken_csrName, isToken_dec]
  cases hcsr : floatCsr csr with
  | false =>
    obtain ⟨a, ha, hof⟩ := csrLookup_csrName (U := U) hcsr
    refine iff_of_true (roundTrips_of_line _ hk hdis (by simp) hops ?_) rfl
    simp only [encode, arg_zero, arg_succ, ok_bind, reg_xReg, ha, imm_dec, hof]
    rfl
  | true =>
    refine iff_of_false ?_ (by simp)
    rw [RoundTrips, hdis, statement_line hk (by simp) hops]
    simp only [encode, arg_zero, arg_succ, ok_bind, reg_xReg, csrLookup_floatCsr hcsr]
    exact nofun

theorem roundTrips_system {v : BitVec 12} (hk : Known (Form.system v).printed (.system v))
    (hapart : (Form.system v).apart = true) : RoundTrips U xlen (systemNoarg v) := by
  have hdis : disasm (systemNoarg v) xlen = (Form.system v).printed := by
    rw [systemNoarg, disasm_opSystem (op_iWord ..)]
    simp only [disasmSystem, f3_iWord, imm12_iWord]
    obtain ⟨name, hname⟩ := Option.isSome_iff_exists.1 hapart
    rw [if_pos (show (0 : BitVec 3) = 0#3 from rfl), hname]
    change name = (systemNames.lookup v).getD []
    rw [hname]
    rfl
  rw [RoundTrips, hdis, statement_token hk.token hk.lower, hk.lookup]
  rfl

/-- A word printed as one token that is no mnemonic does not come back. -/
theorem not_roundTrips {w : BitVec 32} {t : Str} (hdis : disasm w xlen = t) (htok : IsToken t)
    (hlow : t.map Char.toLower = t) (hnone : forms.lookup t = none) : ¬ RoundTrips U xlen w := by
  rw [RoundTrips, hdis, statement_token htok hlow, hnone]
  exact nofun

/-- No mnemonic has a question mark. -/
theorem lookup_of_unknown {t : Str} (h : '?' ∈ t) : forms.lookup t = none := by
  have hplain : ∀ e ∈ forms, '?' ∉ e.1 := by decide +kernel
  rw [List.lookup_eq_none_iff]
  intro e he
  rw [bne_iff_ne]
  rintro rfl
  exact hplain e he h

theorem not_roundTrips_sret : ¬ RoundTrips U xlen (systemNoarg 0x102#12) := by
  have hdis : disasm (systemNoarg 0x102#12) xlen = "system?(imm12=0x102)".toList := by
    rw [systemNoarg, disasm_opSystem (op_iWord ..)]
    simp only [disasmSystem, f3_iWord, imm12_iWord]
    rfl
  exact not_roundTrips hdis (by decide) (by decide) (lookup_of_unknown (by decide))

theorem not_roundTrips_sfenceVma (rs1 rs2 : BitVec 5) :
    ¬ RoundTrips U xlen (sfenceVma rs1 rs2) := by
  have hall : ∀ r : BitVec 5, systemNames.lookup (funct7SfenceVma ++ r) = none ∧
      IsToken ("system?(imm12=0x".toList ++ hex 1 (funct7SfenceVma ++ r).toNat ++ [')']) ∧
      ("system?(imm12=0x".toList ++ hex 1 (funct7SfenceVma ++ r).toNat ++ [')']).map Char.toLower =
        "system?(imm12=0x".toList ++ hex 1 (funct7SfenceVma ++ r).toNat ++ [')'] := by
    decide +kernel
  obtain ⟨hsys, htok, hlow⟩ := hall rs2
  have hmark : '?' ∈ "system?(imm12=0x".toList := by decide
  refine not_roundTrips ?_ htok hlow (lookup_of_unknown
    (List.mem_append_left _ (List.mem_append_left _ hmark)))
  rw [sfenceVma, disasm_opSystem (op_rWord ..)]
  simp only [disasmSystem, f3_rWord, imm12_rWord]
  rw [if_pos (show (0 : BitVec 3) = 0#3 from rfl), hsys]
  rfl

theorem not_roundTrips_fence : ¬ RoundTrips U xlen fence := by
  have hdis : disasm fence xlen = "0x0ff0000f?".toList := by
    have hop : op fence = opMiscMem := op_iWord ..
    rw [disasm_of_op hop (by decide), disasmOpcode, hop]
    change '0' :: 'x' :: (hex 8 fence.toNat ++ ['?']) = _
    decide
  exact not_roundTrips hdis (by decide) (by decide) (lookup_of_unknown (by decide))

end Families

/-- The forms whose words come back, given whether the CSR operand is a float one. -/
def Form.reversible (float : Bool) : Form → Bool
  | .csrReg _ => !float
  | .csrImm _ => !float
  | f => !f.unnamed

theorem Words.roundTrips_iff {csr : BitVec 12} {f : Form} {w : BitVec 32} (h : Words xlen csr f w)
    {mn : Str} (hmem : (mn, f) ∈ forms) (hword : f ≠ .word) :
    RoundTrips U xlen w ↔ f.reversible (floatCsr csr) = true := by
  by_cases hun : f.unnamed = true
  · have hcases : f = .system 0x102#12 ∨ f = .sfenceVma ∨ f = .fence ∨ f = .word := by
      simpa [Form.unnamed, or_assoc] using hun
    rcases hcases with rfl | rfl | rfl | rfl
    · cases h
      exact iff_of_false not_roundTrips_sret nofun
    · cases h
      exact iff_of_false (not_roundTrips_sfenceVma _ _) nofun
    · cases h
      exact iff_of_false not_roundTrips_fence nofun
    · exact absurd rfl hword
  · have hun' : f.unnamed = false := by simpa using hun
    obtain ⟨hk, hapart⟩ := known_printed hmem hun'
    cases h with
    | csrReg f3 rd rs1 => simpa [Form.reversible] using roundTrips_csrReg hk hapart rd rs1
    | csrImm f3 rd uimm => simpa [Form.reversible] using roundTrips_csrImm hk hapart rd uimm
    | nop => exact iff_of_true roundTrips_nop rfl
    | rType f7 f3 rd rs1 rs2 => exact iff_of_true (roundTrips_rType hk hapart rd rs1 rs2) rfl
    | ctz rd rs1 => exact iff_of_true (roundTrips_ctz hk rd rs1) rfl
    | iType f3 rd rs1 v => exact iff_of_true (roundTrips_iType hk hapart rd rs1 v) rfl
    | shift64 f3 alt rd rs1 s hx =>
      exact iff_of_true (roundTrips_shift64 hk hapart rd rs1 s hx) rfl
    | shift32 f3 alt rd rs1 s hx =>
      exact iff_of_true (roundTrips_shift32 hk hapart rd rs1 s hx) rfl
    | rTypeW f7 f3 rd rs1 rs2 => exact iff_of_true (roundTrips_rTypeW hk rd rs1 rs2) rfl
    | iTypeW f3 rd rs1 v => exact iff_of_true (roundTrips_iTypeW hk hapart rd rs1 v) rfl
    | shiftW f3 alt rd rs1 s => exact iff_of_true (roundTrips_shiftW hk hapart rd rs1 s) rfl
    | load f3 rd rs1 v => exact iff_of_true (roundTrips_load hk rd rs1 v) rfl
    | store f3 rs1 rs2 v => exact iff_of_true (roundTrips_store hk rs1 rs2 v) rfl
    | branch f3 rs1 rs2 v hv => exact iff_of_true (roundTrips_branch hk rs1 rs2 hv) rfl
    | jal rd v hv => exact iff_of_true (roundTrips_jal hk rd hv) rfl
    | jalr rd rs1 v => exact iff_of_true (roundTrips_jalr hk rd rs1 v) rfl
    | lui rd v => exact iff_of_true (roundTrips_lui hk rd v) rfl
    | auipc rd v => exact iff_of_true (roundTrips_auipc hk rd v) rfl
    | system v => exact iff_of_true (roundTrips_system hk hapart) (by simp [Form.reversible, hun'])
    | sfenceVma => exact absurd hun' (by decide)
    | fence => exact absurd hun' (by decide)
    | word => exact absurd rfl hword
    | flw rd rs1 v => exact iff_of_true (roundTrips_flw hk rd rs1 v) rfl
    | fsw rs1 rs2 v => exact iff_of_true (roundTrips_fsw hk rs1 rs2 v) rfl
    | fpArith f5 rm rd rs1 rs2 hrm => exact iff_of_true (roundTrips_fpArith hk hapart hrm) rfl
    | fsqrt rm rd rs1 hrm => exact iff_of_true (roundTrips_fsqrt hk hrm) rfl
    | fpSgnj f3 rd rs1 rs2 => exact iff_of_true (roundTrips_fpSgnj hk) rfl
    | fpMinmax f3 rd rs1 rs2 => exact iff_of_true (roundTrips_fpMinmax hk) rfl
    | fpCmp f3 rd rs1 rs2 => exact iff_of_true (roundTrips_fpCmp hk) rfl
    | fcvtWS u rm rd rs1 hrm => exact iff_of_true (roundTrips_fcvtWS hk hrm) rfl
    | fcvtSW u rm rd rs1 hrm => exact iff_of_true (roundTrips_fcvtSW hk hrm) rfl
    | fmvXW rd rs1 => exact iff_of_true (roundTrips_fmvXW hk) rfl
    | fclass rd rs1 => exact iff_of_true (roundTrips_fclass hk) rfl
    | fmvWX rd rs1 => exact iff_of_true (roundTrips_fmvWX hk) rfl
    | madd o rs3 rm rd rs1 rs2 hrm => exact iff_of_true (roundTrips_madd hk hapart hrm) rfl

/-! ## Lines -/

/-- The lines whose word comes back. -/
def Reversible (U : Unicode) (line : Str) : Prop :=
  mnemonic U line ∉ ["sret".toList, "sfence.vma".toList, "fence".toList] ∧
    (mnemonic U line ∈ csrRegTable.map Prod.fst ++ csrImmTable.map Prod.fst →
      floatCsr (csrArg U (parts U line).tail) = false)

theorem reversible_forms : ∀ e ∈ forms, e.2 ≠ .word → ∀ float : Bool,
    (e.2.reversible float = true ↔
      e.1 ∉ ["sret".toList, "sfence.vma".toList, "fence".toList] ∧
        (e.1 ∈ csrRegTable.map Prod.fst ++ csrImmTable.map Prod.fst → float = false)) := by
  decide +kernel

theorem statement_roundTrips_iff {labels : List (Str × ℕ)} {cur : ℕ} {line : Str} {w : BitVec 32}
    (h : statement U xlen labels cur line = .ok w) (hword : mnemonic U line ≠ "word".toList) :
    RoundTrips U xlen w ↔ Reversible U line := by
  unfold statement at h
  cases hlook : forms.lookup (mnemonic U line) with
  | none =>
    rw [hlook] at h
    exact nomatch h
  | some f =>
    rw [hlook] at h
    have hmem := mem_of_lookup hlook
    have hf : f ≠ .word := by
      rintro rfl
      have hname : ∀ e ∈ forms, e.2 = .word → e.1 = "word".toList := by decide +kernel
      exact hword (hname _ hmem rfl)
    rw [(encode_words h).roundTrips_iff hmem hf, reversible_forms _ hmem hf, Reversible]

/-- In a list of statements each word is its own statement's. -/
theorem getElem?_mapM {ε α β : Type} {f : α → Except ε β} {l : List α} {r : List β}
    (h : l.mapM f = .ok r) {j : ℕ} {a : α} (ha : l[j]? = some a) :
    ∃ b, f a = .ok b ∧ r[j]? = some b := by
  induction l generalizing r j with
  | nil => simp at ha
  | cons x l ih =>
    simp only [List.mapM_cons, bind_eq_ok, pure_eq_ok] at h
    obtain ⟨b, hb, bs, hbs, rfl⟩ := h
    cases j with
    | zero =>
      simp only [List.getElem?_cons_zero, Option.some.injEq] at ha
      subst ha
      exact ⟨b, hb, rfl⟩
    | succ j => exact ih hbs (by simpa using ha)

/-- In every program the assembler accepts, the word of a line other than a `word` line is printed
as a line that assembles to that word again, exactly when the line is no `sret`, `sfence.vma` or
`fence` and names none of the float CSRs. -/
theorem roundTrips_iff_reversible (U : Unicode) (xlen : ℕ) {lines : List Str}
    {words : List (BitVec 32)} (hasm : assemble U xlen lines = .ok words) {j cur : ℕ} {line : Str}
    {w : BitVec 32} (hline : (pass1 U lines).stmts[j]? = some (cur, line))
    (hw : words[j]? = some w) (hword : mnemonic U line ≠ "word".toList) :
    assemble U xlen [disasm w xlen] = .ok [w] ↔ Reversible U line := by
  obtain ⟨b, hb, hj⟩ := getElem?_mapM hasm hline
  obtain rfl : b = w := by
    rw [hj] at hw
    exact Option.some.inj hw
  exact statement_roundTrips_iff hb hword

theorem roundTrips_addi :
    assemble .ascii 32 [disasm 0xffb10093#32 32] = .ok [0xffb10093#32] ∧
      Reversible .ascii "addi x1, x2, -5".toList := by
  have hrev : Reversible .ascii "addi x1, x2, -5".toList := by
    unfold Reversible
    decide +kernel
  refine ⟨(roundTrips_iff_reversible .ascii 32
    (show assemble .ascii 32 ["  addi x1, x2, -5 # low".toList] = .ok [0xffb10093#32] by
      decide +kernel)
    (show (pass1 .ascii ["  addi x1, x2, -5 # low".toList]).stmts[0]? =
        some (0, "addi x1, x2, -5".toList) by decide +kernel)
    rfl (by decide +kernel)).2 hrev, hrev⟩

theorem not_roundTrips_sret_line :
    ¬ ∀ (U : Unicode) (xlen : ℕ) (line : Str) (w : BitVec 32), xlen = 32 ∨ xlen = 64 →
      assemble U xlen [line] = .ok [w] → mnemonic U line ≠ "word".toList →
        assemble U xlen [disasm w xlen] = .ok [w] := by
  intro h
  exact not_roundTrips_sret (h .ascii 32 "sret".toList (systemNoarg 0x102#12) (.inl rfl)
    (by decide +kernel) (by decide +kernel))

end RvPipeline.Tools
