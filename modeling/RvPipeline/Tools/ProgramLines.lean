import RvPipeline.Tools.Emitted

/-!
# The pieces of a random program

The prefixes, the seeds and the body of a text of `gen_program`: how many words each has, and what
each needs to assemble.
-/

namespace RvPipeline.Tools

open Py

variable {U : Unicode} {xlen : ℕ}

/-! ## Lines that assemble in place -/

/-- Every statement of the lines has a word where it is. -/
def Placed (U : Unicode) (xlen : ℕ) (labels : List (Str × ℕ)) (addr : ℕ) (ls : List Line) : Prop :=
  ∀ e ∈ place addr ls, ∃ w, encodeLine U xlen labels e.1 e.2 = .ok w

theorem placed_append {labels : List (Str × ℕ)} {addr : ℕ} {ls ls' : List Line} :
    Placed U xlen labels addr (ls ++ ls') ↔
      Placed U xlen labels addr ls ∧ Placed U xlen labels (addr + 4 * instrCount ls) ls' := by
  simp only [Placed, place_append, List.mem_append, or_imp, forall_and]

theorem placed_cons {labels : List (Str × ℕ)} {addr : ℕ} {l : Line} {ls : List Line}
    (h : l.isStmt = true) : Placed U xlen labels addr (l :: ls) ↔
      (∃ w, encodeLine U xlen labels addr l = .ok w) ∧ Placed U xlen labels (addr + 4) ls := by
  simp only [Placed, place_cons h, List.forall_mem_cons]

theorem exists_forall₂ {α β : Type} {R : α → β → Prop} {l : List α} :
    (∃ bs, List.Forall₂ R l bs) ↔ ∀ a ∈ l, ∃ b, R a b := by
  constructor
  · rintro ⟨bs, h⟩
    induction h with
    | nil => simp
    | cons hab _ ih =>
      intro a ha
      rcases List.mem_cons.mp ha with rfl | ha
      · exact ⟨_, hab⟩
      · exact ih a ha
  · intro h
    induction l with
    | nil => exact ⟨[], .nil⟩
    | cons a l ih =>
      obtain ⟨b, hb⟩ := h a List.mem_cons_self
      obtain ⟨bs, hbs⟩ := ih fun a' ha' ↦ h a' (List.mem_cons_of_mem a ha')
      exact ⟨b :: bs, .cons hb hbs⟩

/-- Lines of which each has a word of its own. -/
def Plain (U : Unicode) (xlen : ℕ) (ls : List Line) : Prop := ∀ l ∈ ls, ∃ w, Encodes U xlen l w

theorem plain_append {ls ls' : List Line} :
    Plain U xlen (ls ++ ls') ↔ Plain U xlen ls ∧ Plain U xlen ls' := by
  simp only [Plain, List.mem_append, or_imp, forall_and]

theorem plain_cons {l : Line} {ls : List Line} :
    Plain U xlen (l :: ls) ↔ (∃ w, Encodes U xlen l w) ∧ Plain U xlen ls := by
  simp only [Plain, List.forall_mem_cons]

theorem plain_nil : Plain U xlen [] := by simp [Plain]

theorem plain_of_forall₂ {ls : List Line} {ws : List (BitVec 32)}
    (h : List.Forall₂ (Encodes U xlen) ls ws) : Plain U xlen ls :=
  exists_forall₂.mp ⟨ws, h⟩

theorem mem_place {e : ℕ × Line} {addr : ℕ} {ls : List Line} (h : e ∈ place addr ls) :
    e.2 ∈ ls ∧ e.2.isStmt = true := by
  induction ls generalizing addr with
  | nil => cases h
  | cons l ls ih =>
    cases l with
    | label n =>
      obtain ⟨hmem, hstmt⟩ := ih h
      exact ⟨List.mem_cons_of_mem _ hmem, hstmt⟩
    | stmt mn pad ops =>
      rcases List.mem_cons.mp h with rfl | h
      · exact ⟨List.mem_cons_self, rfl⟩
      · obtain ⟨hmem, hstmt⟩ := ih h
        exact ⟨List.mem_cons_of_mem _ hmem, hstmt⟩

namespace Plain

variable {ls : List Line}

theorem placed (h : Plain U xlen ls) (labels : List (Str × ℕ)) (addr : ℕ) :
    Placed U xlen labels addr ls := by
  intro e he
  obtain ⟨w, -, -, hw⟩ := h e.2 (mem_place he).1
  exact ⟨w, hw labels e.1⟩

theorem good (h : Plain U xlen ls) : ∀ l ∈ ls, l.Good := fun l hl ↦ by
  obtain ⟨w, hgood, -⟩ := h l hl
  exact hgood

theorem label_not_mem (h : Plain U xlen ls) (name : Str) : Line.label name ∉ ls := by
  intro hmem
  obtain ⟨w, -, hstmt, -⟩ := h _ hmem
  cases hstmt

end Plain

/-- Blanks behind the mnemonic change nothing. -/
theorem encodes_pad {mn : Str} {pad : ℕ} {ops : List Str} {w : BitVec 32}
    (h : Encodes U xlen (.stmt mn 0 ops) w) : Encodes U xlen (.stmt mn pad ops) w := by
  obtain ⟨⟨⟨f, hmn⟩, hops⟩, -, hw⟩ := h
  refine encodes_stmt hmn hops fun labels addr ↦ ?_
  rw [← hw labels addr, encodeLine, statement_text hmn hops]

/-- From 64 on the width makes no difference to the assembler. -/
theorem encodes_wide (hx : 64 ≤ xlen) {l : Line} {w : BitVec 32} (h : Encodes U 64 l w) :
    Encodes U xlen l w := by
  have hshift : ∀ alt tok, shiftImm U xlen alt tok = shiftImm U 64 alt tok := by
    intro alt tok
    rw [shiftImm, shiftImm, if_pos hx, if_pos (le_refl 64)]
  have hencode : ∀ labels addr f args, encode U xlen labels addr f args =
      encode U 64 labels addr f args := by
    intro labels addr f args
    cases f <;> try rfl
    simp only [encode, Tools.iType, hshift]
  obtain ⟨hgood, hstmt, hw⟩ := h
  refine ⟨hgood, hstmt, fun labels addr ↦ ?_⟩
  rw [← hw labels addr, encodeLine, encodeLine, statement, statement]
  simp only [hencode]

namespace RandomGen

open Disasm

/-! ## Constants and operands -/

/-- The instructions of `const_to_reg_instrs`. -/
def constLines (bits32 : ℕ) : ℕ := if bits32 % 4096 = 0 then 1 else 2

theorem instrCount_constToReg (rd : BitVec 5) (bits32 : ℕ) :
    instrCount (constToRegInstrs rd bits32) = constLines bits32 := by
  have hzero : BitVec.ofNat 12 bits32 = 0 ↔ bits32 % 4096 = 0 := by
    rw [← BitVec.toNat_inj, BitVec.toNat_ofNat]
    rfl
  have hwords : List.Forall₂ (Encodes .ascii 32) _ _ := constToReg_encodes rd bits32
  rw [instrCount_of_encodes hwords, constWords, constLines]
  by_cases h : bits32 % 4096 = 0
  · rw [if_pos h, if_pos (hzero.mpr h)]
    rfl
  · rw [if_neg h, if_neg (mt hzero.mp h)]
    rfl

theorem plain_constToReg (rd : BitVec 5) (bits32 : ℕ) : Plain U xlen (constToRegInstrs rd bits32) :=
  plain_of_forall₂ (constToReg_encodes rd bits32)

theorem plain_const64ToReg (hx : 64 ≤ xlen) (rd rdScratch : BitVec 5) (bits64 : ℕ) :
    Plain U xlen (const64ToRegInstrs rd rdScratch bits64) := by
  intro l hl
  obtain ⟨w, hw⟩ := plain_of_forall₂ (const64ToReg_encodes (U := U) rd rdScratch bits64) l hl
  exact ⟨w, encodes_wide hx hw⟩

theorem encodes_lui_text (pad : ℕ) (rd : BitVec 5) {t : Str} {n : ℕ} (ht : t = hexLit n)
    (hn : n < 2 ^ 20) : ∃ w, Encodes U xlen (.stmt "lui".toList pad [xReg rd, t]) w := by
  subst ht
  exact ⟨_, encodes_pad (encodes_lui rd hn)⟩

theorem encodes_addi_text (pad : ℕ) (rd rs1 : BitVec 5) {t : Str} {v : ℤ} (ht : t = decInt v)
    (hlo : -2048 ≤ v) (hhi : v ≤ 2047) :
    ∃ w, Encodes U xlen (.stmt "addi".toList pad [xReg rd, xReg rs1, t]) w := by
  subst ht
  have h : Encodes U xlen _ _ := encodes_addi pad rd rs1 (BitVec.ofInt 12 v)
  rw [toInt_ofInt_of_range hlo hhi (by decide)] at h
  exact ⟨_, h⟩

theorem encodes_sw (pad : ℕ) (rs2 rs1 : BitVec 5) {off : ℤ} (hlo : -2048 ≤ off) (hhi : off ≤ 2047) :
    ∃ w, Encodes U xlen (.stmt "sw".toList pad [xReg rs2, offBase off rs1]) w := by
  have hsw : "sw".toList ∈ GenParams.storeMnemonics {} := by simp [GenParams.storeMnemonics, names]
  obtain ⟨f3, -, hmem⟩ := store_forms hsw
  exact ⟨_, encodes_store hmem pad rs2 rs1 hlo hhi⟩

theorem csrLookup_named {csr : Str} {z : ℤ} (h : (csr, z) ∈ csrAddr) :
    IsToken csr ∧ ∃ a : BitVec 12, csrLookup U csr = .ok (a.toNat : ℤ) := by
  have haddr : ∀ e ∈ csrAddr, e.2 = ((BitVec.ofInt 12 e.2).toNat : ℤ) := by decide
  obtain ⟨htok, hlook⟩ := csrAddr_lookup _ h
  refine ⟨htok, BitVec.ofInt 12 z, ?_⟩
  rw [← haddr _ h]
  simp only [csrLookup, hlook]

theorem csrLookup_satp : IsToken "0x180".toList ∧
    ∃ a : BitVec 12, csrLookup U "0x180".toList = .ok (a.toNat : ℤ) := by
  have hhex : "0x180".toList = '0' :: 'x' :: hex 1 0x180 := by decide
  have hnone : csrAddr.lookup "0x180".toList = none := by decide
  refine ⟨by decide, 0x180#12, ?_⟩
  rw [hhex] at hnone ⊢
  simp only [csrLookup, hnone, pyInt, int0_hex]
  rfl

theorem encodes_csrrw {csr : Str}
    (h : IsToken csr ∧ ∃ a : BitVec 12, csrLookup U csr = .ok (a.toNat : ℤ)) (rd rs1 : BitVec 5) :
    ∃ w, Encodes U xlen (stmt "csrrw" [xReg rd, csr, xReg rs1]) w := by
  have hcsrrw : "csrrw".toList ∈ csrRegOp := by simp [csrRegOp, names]
  obtain ⟨f3, -, hmem⟩ := csrRegOp_forms hcsrrw
  obtain ⟨htok, a, hcsr⟩ := h
  exact ⟨_, encodes_csrReg hmem htok hcsr rd rs1⟩

theorem encodes_csrrsi {csr t : Str} {v : ℤ}
    (h : IsToken csr ∧ ∃ a : BitVec 12, csrLookup U csr = .ok (a.toNat : ℤ)) (rd : BitVec 5)
    (ht : t = decInt v) (hlo : 0 ≤ v) (hhi : v ≤ 31) :
    ∃ w, Encodes U xlen (stmt "csrrsi" [xReg rd, csr, t]) w := by
  have hcsrrsi : "csrrsi".toList ∈ csrImmOp := by simp [csrImmOp, names]
  obtain ⟨f3, -, hmem⟩ := csrImmOp_forms hcsrrsi
  obtain ⟨htok, a, hcsr⟩ := h
  subst ht
  exact ⟨_, encodes_csrImm hmem htok hcsr rd hlo hhi⟩

/-! ## The pieces of a program -/

variable {P : GenParams}

theorem plain_seedLines : Plain U P.xlen (seedLines P) := by
  rw [seedLines, plain_append]
  constructor
  · intro l hl
    obtain ⟨e, -, hl⟩ := List.mem_flatMap.mp hl
    rcases List.mem_append.mp hl with hl | hl
    · exact plain_constToReg 30 e.1 l hl
    · obtain rfl := List.mem_singleton.mp hl
      exact ⟨_, encodes_fmvWX _ _⟩
  · split
    · exact plain_const64ToReg ‹_› 29 30 _
    · exact plain_nil

theorem instrCount_seedLines : instrCount (seedLines P) = 12 + if 64 ≤ P.xlen then 8 else 0 := by
  have hfloat : ∀ l : List (ℕ × ℕ), (∀ e ∈ l, e.1 % 4096 = 0) → instrCount (l.flatMap fun e ↦
      constToRegInstrs 30 e.1 ++ [stmt "fmv.w.x" [fReg (BitVec.ofNat 5 (e.2 + 1)), xReg 30]]) =
        2 * l.length := by
    intro l hl
    induction l with
    | nil => rfl
    | cons e l ih =>
      have he : constLines e.1 = 1 := if_pos (hl e List.mem_cons_self)
      rw [List.flatMap_cons, instrCount_append, instrCount_append, instrCount_constToReg, he,
        ih fun e' he' ↦ hl e' (List.mem_cons_of_mem _ he'), List.length_cons, stmt, instrCount_stmt,
        instrCount_nil]
      ring
  rw [seedLines, instrCount_append, hfloat _ (by decide)]
  congr 1
  split
  · simp only [const64ToRegInstrs, instrCount_append, instrCount_constToReg, stmt, instrCount_stmt,
      instrCount_nil]
    decide
  · rfl

theorem decInt_natCast (n : ℕ) : dec n = decInt n := by
  rw [decInt, if_neg (by omega), Int.natAbs_natCast]

/-- The lines behind the page table of either mode. -/
theorem plain_toUser {m : ℕ} (hm : m ≤ 2047) :
    Plain U xlen [stmt "addi" [xReg 1, xReg 0, dec m], stmt "csrrw" [xReg 0, "mepc".toList, xReg 1],
      stmt "mret" []] := by
  simp only [plain_cons, plain_nil, and_true]
  exact ⟨encodes_addi_text 0 1 0 (decInt_natCast m) (by omega) (by omega),
    encodes_csrrw (csrLookup_named (z := 0x341) (by simp [csrAddr])) 0 1, _, encodes_mret⟩

theorem plain_prefix39 (hx : 64 ≤ xlen) {m : ℕ} (hm : m ≤ 2047) :
    Plain U xlen (prefix39 (dec m)) := by
  simp only [prefix39, plain_append, plain_cons, plain_nil, plain_constToReg,
    plain_const64ToReg hx, plain_toUser hm, and_true, true_and, and_assoc]
  exact ⟨encodes_sw 0 1 0 (by decide) (by decide), encodes_lui_text 0 4 (n := 1) (by decide)
    (by decide), encodes_sw 0 2 4 (by decide) (by decide), encodes_lui_text 0 5 (n := 2)
    (by decide) (by decide), encodes_sw 0 3 5 (by decide) (by decide), ⟨_, encodes_fence⟩,
    encodes_csrrw csrLookup_satp 0 1⟩

theorem plain_prefix32 {m : ℕ} (hm : m ≤ 2047) : Plain U xlen (prefix32 (dec m)) := by
  simp only [prefix32, plain_append, plain_cons, plain_nil, plain_constToReg, plain_toUser hm,
    and_true, true_and, and_assoc]
  exact ⟨encodes_sw 0 1 0 (by decide) (by decide), encodes_lui_text 0 3 (n := 1) (by decide)
    (by decide), encodes_sw 0 2 3 (by decide) (by decide), ⟨_, encodes_fence⟩,
    encodes_csrrw csrLookup_satp 0 1⟩

theorem instrCount_prefix39 (mepc : Str) : instrCount (prefix39 mepc) = 22 := by
  simp only [prefix39, const64ToRegInstrs, instrCount_append, instrCount_constToReg, stmt,
    instrCount_stmt, instrCount_nil]
  decide

theorem instrCount_prefix32 (mepc : Str) : instrCount (prefix32 mepc) = 13 := by
  simp only [prefix32, instrCount_append, instrCount_constToReg, stmt, instrCount_stmt,
    instrCount_nil]
  decide

theorem addi_forms : ∃ f3, ("addi".toList, Form.iType f3 none) ∈ forms := by
  have hmem : "addi".toList ∈ iType := by simp [iType, names]
  obtain ⟨f3, -, hf3⟩ := iType_forms (List.mem_append_left shiftI hmem)
  rw [shiftKind_drawn.1 _ hmem] at hf3
  exact ⟨f3, hf3⟩

/-- The line that gets the address of the handler. -/
def mtvecLine (v : Str) : Line := .stmt "addi".toList 1 [xReg 5, xReg 0, v]

theorem encodeLine_mtvecLine (labels : List (Str × ℕ)) (addr v : ℕ) :
    (∃ w, encodeLine U xlen labels addr (mtvecLine (dec v)) = .ok w) ↔ v ≤ 2047 := by
  obtain ⟨f3, hmem⟩ := addi_forms
  have himm : imm U (dec v) 12 true = if ((v : ℕ) : ℤ) ≤ 2047 then .ok (BitVec.ofInt 12 v)
      else .error (.immediateOutOfRange v (-2048) 2047) := by
    have hlo : (-2048 : ℤ) ≤ v := by omega
    simp only [imm, pyInt, int0_dec, ok_bind, immOf]
    norm_num [hlo]
  have hline : encodeLine U xlen labels addr (mtvecLine (dec v)) =
      if ((v : ℕ) : ℤ) ≤ 2047 then .ok (iWord opI (BitVec.ofInt 12 v) f3 5 0)
      else .error (.immediateOutOfRange v (-2048) 2047) := by
    rw [encodeLine, mtvecLine, statement_text (known_of_forms hmem)
      (by simp [isToken_xReg, isToken_dec])]
    simp only [encode, Tools.iType, arg_zero, arg_succ, ok_bind, reg_xReg, himm]
    by_cases h : ((v : ℕ) : ℤ) ≤ 2047
    · rw [if_pos h, if_pos h]
      rfl
    · rw [if_neg h, if_neg h]
      rfl
  rw [hline]
  by_cases h : ((v : ℕ) : ℤ) ≤ 2047
  · rw [if_pos h]
    exact ⟨fun _ ↦ by omega, fun _ ↦ ⟨_, rfl⟩⟩
  · rw [if_neg h]
    constructor
    · rintro ⟨w, hw⟩
      cases hw
    · intro hv
      exact absurd (by omega) h

theorem interruptPrefix_split (U : Unicode) (xlen k : ℕ) (source : IntSource) :
    ∃ pre post, Plain U xlen pre ∧ Plain U xlen post ∧
      ∀ v, (interruptPrefix k v source).1 = pre ++ mtvecLine v :: post := by
  have hmtvec : ∃ w, Encodes U xlen (stmt "csrrw" [xReg 0, "mtvec".toList, xReg 5]) w :=
    encodes_csrrw (csrLookup_named (z := 0x305) (by simp [csrAddr])) 0 5
  have hmie : ∃ w, Encodes U xlen (stmt "csrrw" [xReg 0, "mie".toList, xReg 6]) w :=
    encodes_csrrw (csrLookup_named (z := 0x304) (by simp [csrAddr])) 0 6
  have henable : ∃ w, Encodes U xlen (stmt "csrrsi" [xReg 0, "mstatus".toList, "8".toList]) w :=
    encodes_csrrsi (csrLookup_named (z := 0x300) (by simp [csrAddr])) 0 (v := 8)
      (by decide) (by decide) (by decide)
  have hconst : Plain U xlen (constToRegInstrs 7 (100 + k * 10)) := plain_constToReg _ _
  cases source with
  | timer =>
    refine ⟨[.stmt "lui".toList 2 [xReg 2, "0x10104".toList]],
      [stmt "csrrw" [xReg 0, "mtvec".toList, xReg 5],
        .stmt "addi".toList 1 [xReg 6, xReg 0, "128".toList],
        stmt "csrrw" [xReg 0, "mie".toList, xReg 6]] ++ constToRegInstrs 7 (100 + k * 10) ++
      [.stmt "sw".toList 3 [xReg 7, offBase 0 2],
        stmt "csrrsi" [xReg 0, "mstatus".toList, "8".toList]], ?_, ?_, fun v ↦ rfl⟩
    · exact plain_cons.mpr ⟨encodes_lui_text 2 2 (n := 0x10104) (by decide) (by decide),
        plain_nil⟩
    · simp only [plain_append, plain_cons, plain_nil, hmtvec, hmie, henable, hconst, and_true,
        true_and]
      exact ⟨encodes_addi_text 1 6 0 (v := 128) (by decide) (by decide) (by decide),
        encodes_sw 3 7 2 (by decide) (by decide)⟩
  | uart =>
    refine ⟨[.stmt "lui".toList 2 [xReg 1, "0x10000".toList]],
      [stmt "csrrw" [xReg 0, "mtvec".toList, xReg 5],
        .stmt "addi".toList 1 [xReg 6, xReg 0, "-2048".toList],
        stmt "csrrw" [xReg 0, "mie".toList, xReg 6],
        .stmt "addi".toList 1 [xReg 8, xReg 0, "1".toList],
        .stmt "sw".toList 3 [xReg 8, offBase 4 1],
        stmt "csrrsi" [xReg 0, "mstatus".toList, "8".toList]], ?_, ?_, fun v ↦ rfl⟩
    · exact plain_cons.mpr ⟨encodes_lui_text 2 1 (n := 0x10000) (by decide) (by decide),
        plain_nil⟩
    · simp only [plain_cons, plain_nil, hmtvec, hmie, henable, and_true, true_and]
      exact ⟨encodes_addi_text 1 6 0 (v := -2048) (by decide) (by decide) (by decide),
        encodes_addi_text 1 8 0 (v := 1) (by decide) (by decide) (by decide),
        encodes_sw 3 8 1 (by decide) (by decide)⟩
  | msi =>
    refine ⟨[.stmt "lui".toList 2 [xReg 2, "0x10100".toList]],
      [stmt "csrrw" [xReg 0, "mtvec".toList, xReg 5],
        .stmt "addi".toList 1 [xReg 6, xReg 0, "8".toList],
        stmt "csrrw" [xReg 0, "mie".toList, xReg 6],
        .stmt "addi".toList 1 [xReg 7, xReg 0, "1".toList],
        .stmt "sw".toList 3 [xReg 7, offBase 0 2],
        stmt "csrrsi" [xReg 0, "mstatus".toList, "8".toList]], ?_, ?_, fun v ↦ rfl⟩
    · exact plain_cons.mpr ⟨encodes_lui_text 2 2 (n := 0x10100) (by decide) (by decide),
        plain_nil⟩
    · simp only [plain_cons, plain_nil, hmtvec, hmie, henable, and_true, true_and]
      exact ⟨encodes_addi_text 1 6 0 (v := 8) (by decide) (by decide) (by decide),
        encodes_addi_text 1 7 0 (v := 1) (by decide) (by decide) (by decide),
        encodes_sw 3 7 2 (by decide) (by decide)⟩
  | both =>
    refine ⟨[.stmt "lui".toList 2 [xReg 1, "0x10000".toList],
        .stmt "lui".toList 2 [xReg 2, "0x10104".toList]],
      [stmt "csrrw" [xReg 0, "mtvec".toList, xReg 5],
        .stmt "addi".toList 1 [xReg 6, xReg 0, "-1920".toList],
        stmt "csrrw" [xReg 0, "mie".toList, xReg 6]] ++ constToRegInstrs 7 (100 + k * 10) ++
      [.stmt "sw".toList 3 [xReg 7, offBase 0 2], .stmt "addi".toList 1 [xReg 8, xReg 0, "1".toList],
        .stmt "sw".toList 3 [xReg 8, offBase 4 1],
        stmt "csrrsi" [xReg 0, "mstatus".toList, "8".toList]], ?_, ?_, fun v ↦ rfl⟩
    · exact plain_cons.mpr ⟨encodes_lui_text 2 1 (n := 0x10000) (by decide) (by decide),
        plain_cons.mpr ⟨encodes_lui_text 2 2 (n := 0x10104) (by decide) (by decide),
          plain_nil⟩⟩
    · simp only [plain_append, plain_cons, plain_nil, hmtvec, hmie, henable, hconst, and_true,
        true_and]
      exact ⟨encodes_addi_text 1 6 0 (v := -1920) (by decide) (by decide) (by decide),
        encodes_sw 3 7 2 (by decide) (by decide),
        encodes_addi_text 1 8 0 (v := 1) (by decide) (by decide) (by decide),
        encodes_sw 3 8 1 (by decide) (by decide)⟩

/-! ## The body -/

/-- The words in front of the items. -/
def GenParams.setupWords (P : GenParams) : ℕ := 13 + if 64 ≤ P.xlen then 8 else 0

/-- The lines in front of the items. -/
def setup (P : GenParams) : List Line :=
  stmt "addi" [xReg baseReg, xReg 0, decInt baseAddr] :: seedLines P

/-- The lines behind the items. -/
def halt : List Line := [stmt "fence" [], .label haltLabel, stmt "jal" [xReg 0, haltLabel]]

theorem body_eq (items : List Item) :
    body P items = setup P ++ (emit items.length 1 [] items ++ halt) := by
  simp [body, setup, halt]

theorem plain_setup : Plain U P.xlen (setup P) :=
  plain_cons.mpr ⟨encodes_addi_text 0 baseReg 0 rfl (by decide) (by decide), plain_seedLines⟩

theorem instrCount_setup : instrCount (setup P) = P.setupWords := by
  rw [setup, stmt, instrCount_stmt, instrCount_seedLines, GenParams.setupWords]
  ring

theorem instrCount_body (items : List Item) :
    instrCount (body P items) = P.setupWords + items.length + 2 := by
  rw [body_eq, instrCount_append, instrCount_append, instrCount_setup, instrCount_emit, halt, stmt,
    stmt]
  simp
  ring

theorem isToken_haltLabel : IsToken haltLabel := by decide

theorem targetLabel_ne_haltLabel (t : ℕ) : targetLabel t ≠ haltLabel := by
  have hhalt : haltLabel = '_' :: '_' :: 'h' :: "alt".toList := by decide
  rw [hhalt, targetLabel]
  simp

theorem labelAddr_halt (addr : ℕ) : labelAddr haltLabel addr halt = some (addr + 4) := by
  simp [halt, stmt, labelAddr]

theorem labelAddr_body_halt (items : List Item) (addr : ℕ) :
    labelAddr haltLabel addr (body P items) =
      some (addr + 4 * (P.setupWords + items.length + 1)) := by
  rw [body_eq, labelAddr_append, labelAddr_append, labelAddr_halt, instrCount_setup, instrCount_emit,
    Option.some_or, Option.some_or]
  congr 1
  ring

theorem labelAddr_body_target (items : List Item) (t addr : ℕ) :
    labelAddr (targetLabel t) addr (body P items) =
      labelAddr (targetLabel t) (addr + 4 * P.setupWords) (emit items.length 1 [] items) := by
  have hhalt : ∀ a, labelAddr (targetLabel t) a halt = none := by
    refine labelAddr_eq_none fun hmem ↦ targetLabel_ne_haltLabel t ?_
    simpa [halt, stmt] using hmem
  have hsetup : labelAddr (targetLabel t) addr (setup P) = none :=
    labelAddr_eq_none (plain_setup (U := .ascii).label_not_mem _) addr
  rw [body_eq, labelAddr_append, labelAddr_append, hhalt, hsetup, instrCount_setup, Option.none_or,
    Option.or_none]

theorem good_body {items : List Item} (hdrawn : ∀ (k : ℕ) (item : Item), items[k]? = some item →
    item.Drawn P (k + 1) items.length) : ∀ l ∈ body P items, l.Good := by
  have hitems : ∀ item ∈ items, item.line.Good := by
    intro item hmem
    obtain ⟨k, hk⟩ := List.getElem?_of_mem hmem
    exact Item.good (hdrawn k item hk)
  have hhalt : ∀ l ∈ halt, l.Good := by
    have hfence : Encodes .ascii 32 _ _ := encodes_fence
    simp only [halt, List.forall_mem_cons]
    refine ⟨hfence.1, isToken_haltLabel, ?_, by simp⟩
    exact ⟨⟨.jal, known_of_forms jal_forms⟩, by simp [isToken_xReg, isToken_haltLabel]⟩
  intro l hl
  rw [body_eq, List.mem_append, List.mem_append] at hl
  rcases hl with hl | hl | hl
  · exact plain_setup (U := .ascii).good l hl
  · exact good_emit hitems l hl
  · exact hhalt l hl

/-- The items that do not reach their label are the only lines that fail to assemble. -/
theorem placed_body {items : List Item} {labels : List (Str × ℕ)} {addr : ℕ}
    (hdrawn : ∀ (k : ℕ) (item : Item), items[k]? = some item →
      item.Drawn P (k + 1) items.length)
    (hlabels : ∀ t, labels.lookup (targetLabel t) = labelAddr (targetLabel t) addr (body P items))
    (hhalt : labels.lookup haltLabel = labelAddr haltLabel addr (body P items)) :
    Placed U P.xlen labels addr (body P items) ↔
      ∀ (k : ℕ) (item : Item), items[k]? = some item → item.Reaches items.length (k + 1) := by
  have hplaced : Placed U P.xlen labels (addr + 4 * P.setupWords + 4 * items.length) halt := by
    have hlook : labels.lookup haltLabel =
        some (addr + 4 * P.setupWords + 4 * items.length + 4 + 4 * 0) := by
      rw [hhalt, labelAddr_body_halt]
      congr 1
      ring
    have hjal : encodeLine U P.xlen labels _ _ = _ := encodeLine_jal 0 isToken_haltLabel hlook
    rw [if_pos (by decide)] at hjal
    obtain ⟨-, -, hfence⟩ : Encodes U P.xlen _ _ := encodes_fence
    intro e he
    simp only [halt, stmt, place, List.mem_cons, List.not_mem_nil, or_false] at he
    rcases he with rfl | rfl
    · exact ⟨_, hfence labels _⟩
    · exact ⟨_, hjal⟩
  rw [body_eq, placed_append, placed_append, instrCount_setup, instrCount_emit]
  rw [and_iff_right (plain_setup.placed labels addr), and_iff_left hplaced, Placed, place_emit]
  have hline : ∀ (k : ℕ) (item : Item), items[k]? = some item →
      ((∃ w, encodeLine U P.xlen labels (addr + 4 * P.setupWords + 4 * k) item.line = .ok w) ↔
        item.Reaches items.length (k + 1)) := by
    intro k item hk
    have hlook : ∀ t, item.target = some t → labels.lookup (targetLabel t) =
        some (addr + 4 * P.setupWords + 4 * k + 4 * item.ahead items.length (k + 1)) := by
      intro t ht
      rw [hlabels, labelAddr_body_target, labelAddr_emit hdrawn hk ht]
    rcases Item.encodeLine_iff (U := U) (hdrawn k item hk) hlook with ⟨⟨w, -, hw⟩, hreach⟩ | ⟨hw, hreach⟩
    · exact ⟨fun _ ↦ hreach, fun _ ↦ ⟨w, hw⟩⟩
    · refine ⟨?_, fun h ↦ absurd h hreach⟩
      rintro ⟨w, hw'⟩
      exact absurd hw' (hw w)
  constructor
  · intro h k item hk
    rw [← hline k item hk]
    obtain ⟨hlt, rfl⟩ := List.getElem?_eq_some_iff.mp hk
    exact h (_, _) (List.mem_mapIdx.mpr ⟨k, hlt, rfl⟩)
  · intro h e he
    obtain ⟨k, hlt, rfl⟩ := List.mem_mapIdx.mp he
    have hk := List.getElem?_eq_getElem hlt
    exact (hline k _ hk).mpr (h k _ hk)

end RandomGen

end RvPipeline.Tools
