import RvPipeline.Tools.Asm
import RvPipeline.Tools.Disasm

/-!
# Printed lines

What the assembler reads in a line the disassembler printed: the mnemonic and the operands between
the separators, each operand back as the field it was printed from, and the fields of a word the
encoders put together.
-/

namespace RvPipeline.Tools

open Py Disasm

variable {U : Unicode} {xlen : ℕ}

/-! ## Printed lines -/

/-- A character of a printed token. -/
def tokenChar (c : Char) : Bool := graphic c && c != ',' && c != '#' && c != ':'

/-- What is printed between separators. -/
structure IsToken (t : Str) : Prop where
  ne_nil : t ≠ []
  all : ∀ c ∈ t, tokenChar c = true

instance (t : Str) : Decidable (IsToken t) :=
  decidable_of_iff (t ≠ [] ∧ t.all tokenChar = true)
    ⟨fun h ↦ ⟨h.1, List.all_eq_true.1 h.2⟩, fun h ↦ ⟨h.1, List.all_eq_true.2 h.2⟩⟩

theorem graphic_of_tokenChar {c : Char} (h : tokenChar c = true) : graphic c = true := by
  simp only [tokenChar, Bool.and_eq_true] at h
  exact h.1.1.1

theorem IsToken.graphic {t : Str} (h : IsToken t) : ∀ c ∈ t, graphic c = true :=
  fun c hc ↦ graphic_of_tokenChar (h.all c hc)

/-- The separators of `parts`. -/
abbrev isSep (U : Unicode) (c : Char) : Bool := c == ',' || U.isSpace c

theorem IsToken.not_sep {t : Str} (h : IsToken t) : ∀ c ∈ t, isSep U c = false := by
  intro c hc
  have htok := h.all c hc
  simp only [tokenChar, Bool.and_eq_true, bne_iff_ne] at htok
  simp [isSep, htok.1.1.2, isSpace_of_graphic htok.1.1.1]

theorem isSpace_blank : U.isSpace ' ' = true := by
  rw [U.isSpace_ascii ' ' (by decide)]
  decide

theorem intercalate_cons {a b : Str} {l : List Str} :
    [','].intercalate (a :: b :: l) = a ++ ',' :: [','].intercalate (b :: l) := by
  simp [List.intercalate]

theorem splitRuns_intercalate {ops : List Str} (hne : ops ≠ []) (hops : ∀ o ∈ ops, IsToken o)
    (prev : Bool) : splitRuns (isSep U) prev ([','].intercalate ops) = ops := by
  induction ops generalizing prev with
  | nil => exact absurd rfl hne
  | cons a l ih =>
    have ha := hops a (by simp)
    cases l with
    | nil =>
      simp only [List.intercalate, List.intersperse_singleton, List.flatten_cons, List.flatten_nil,
        List.append_nil]
      exact splitRuns_single prev ha.not_sep ha.ne_nil
    | cons b l =>
      rw [intercalate_cons, splitRuns_append prev ha.not_sep ha.ne_nil (by simp [isSep]),
        ih (by simp) (fun o ho ↦ hops o (by simp [ho]))]

theorem splitRuns_line {mn : Str} {ops : List Str} (hmn : IsToken mn) (hne : ops ≠ [])
    (hops : ∀ o ∈ ops, IsToken o) : splitRuns (isSep U) false (line mn ops) = mn :: ops := by
  rw [line, splitRuns_append false hmn.not_sep hmn.ne_nil (by simp [isSep, isSpace_blank]),
    splitRuns_intercalate hne hops]

/-- The characters of a printed line, none of which starts a comment or ends a label. -/
theorem mem_line {mn : Str} {ops : List Str} (hmn : IsToken mn) (hops : ∀ o ∈ ops, IsToken o) :
    ∀ c ∈ line mn ops, c ≠ '#' := by
  have hcomma : ∀ c ∈ [','].intercalate ops, c = ',' ∨ tokenChar c = true := by
    induction ops with
    | nil => simp [List.intercalate]
    | cons a l ih =>
      intro c hc
      cases l with
      | nil =>
        right
        exact (hops a (by simp)).all c (by simpa [List.intercalate] using hc)
      | cons b l =>
        rw [intercalate_cons, List.mem_append, List.mem_cons] at hc
        rcases hc with hc | hc | hc
        · exact .inr ((hops a (by simp)).all c hc)
        · exact .inl hc
        · exact ih (fun o ho ↦ hops o (by simp [ho])) c hc
  intro c hc
  have hall : c = ' ' ∨ c = ',' ∨ tokenChar c = true := by
    rw [line, List.mem_append, List.mem_cons] at hc
    rcases hc with hc | hc | hc
    · exact .inr (.inr (hmn.all c hc))
    · exact .inl hc
    · exact .inr (hcomma c hc)
  rcases hall with rfl | rfl | hc
  · decide
  · decide
  · simp only [tokenChar, Bool.and_eq_true, bne_iff_ne] at hc
    exact hc.1.2

/-- A printed line ends in the last character of its last operand. -/
theorem getLast_line (mn : Str) {ops : List Str} (hne : ops ≠ []) (hops : ∀ o ∈ ops, IsToken o) :
    ∃ c, (line mn ops).getLast? = some c ∧ tokenChar c = true := by
  have hlast : ∃ c, ([','].intercalate ops).getLast? = some c ∧ tokenChar c = true := by
    induction ops with
    | nil => exact absurd rfl hne
    | cons a l ih =>
      cases l with
      | nil =>
        have ha := hops a (by simp)
        refine ⟨a.getLast ha.ne_nil, ?_, ha.all _ (List.getLast_mem _)⟩
        simp [List.intercalate, List.getLast?_eq_getLast_of_ne_nil ha.ne_nil]
      | cons b l =>
        obtain ⟨c, hc, htok⟩ := ih (by simp) (fun o ho ↦ hops o (by simp [ho]))
        refine ⟨c, ?_, htok⟩
        rw [intercalate_cons, List.getLast?_append, List.getLast?_cons, hc]
        rfl
  obtain ⟨c, hc, htok⟩ := hlast
  refine ⟨c, ?_, htok⟩
  rw [line, List.getLast?_append, List.getLast?_cons, hc]
  rfl

theorem strip_line {mn : Str} {ops : List Str} (hmn : IsToken mn) (hne : ops ≠ [])
    (hops : ∀ o ∈ ops, IsToken o) : strip U (line mn ops) = line mn ops := by
  obtain ⟨d, hlast, hd⟩ := getLast_line mn hne hops
  obtain ⟨a, l, rfl⟩ := List.exists_cons_of_ne_nil hmn.ne_nil
  exact strip_of_ends rfl (hmn.graphic a (by simp)) hlast (graphic_of_tokenChar hd)

theorem ne_colon_of_tokenChar {c : Char} (h : tokenChar c = true) : c ≠ ':' := by
  rintro rfl
  exact absurd h (by decide)

theorem pass1_single {text : Str} (hne : text ≠ []) (hstrip : strip U text = text)
    (hhash : ∀ c ∈ text, c ≠ '#') (hcolon : text.getLast? ≠ some ':') :
    pass1 U [text] = { addr := 4, labels := [], stmts := [(0, text)] } := by
  have hall : text.takeWhile (· ≠ '#') = text := by
    rw [List.takeWhile_eq_self_iff]
    simpa using hhash
  simp only [pass1, List.foldl_cons, List.foldl_nil, Pass1.scan, hall, hstrip]
  rw [if_neg hne, if_neg hcolon]
  rfl

theorem assemble_single {text : Str} (hne : text ≠ []) (hstrip : strip U text = text)
    (hhash : ∀ c ∈ text, c ≠ '#') (hcolon : text.getLast? ≠ some ':') :
    assemble U xlen [text] = (statement U xlen [] 0 text).map fun w ↦ [w] := by
  rw [assemble, pass1_single hne hstrip hhash hcolon]
  simp only [List.mapM_cons, List.mapM_nil]
  cases statement U xlen [] 0 text <;> rfl

/-- A mnemonic the assembler knows, as it is printed. -/
structure Known (mn : Str) (f : Form) : Prop where
  token : IsToken mn
  lower : mn.map Char.toLower = mn
  lookup : forms.lookup mn = some f

theorem lower_of_token {mn : Str} (h : IsToken mn) (hlow : mn.map Char.toLower = mn) :
    U.lower mn = mn := by
  rw [U.lower_ascii mn, hlow]
  intro c hc
  have := lt_of_graphic (h.graphic c hc)
  omega

theorem known_of_mem : ∀ e ∈ forms, IsToken e.1 ∧ e.1.map Char.toLower = e.1 ∧
    forms.lookup e.1 = some e.2 := by
  decide +kernel

theorem statement_line {mn : Str} {ops : List Str} {f : Form} (hmn : Known mn f) (hne : ops ≠ [])
    (hops : ∀ o ∈ ops, IsToken o) :
    assemble U xlen [line mn ops] = (encode U xlen [] 0 f ops).map fun w ↦ [w] := by
  obtain ⟨d, hlast, hd⟩ := getLast_line mn hne hops
  have hcolon : (line mn ops).getLast? ≠ some ':' := by
    rw [hlast]
    simpa using ne_colon_of_tokenChar hd
  have hstrip := strip_line (U := U) hmn.token hne hops
  have hparts : parts U (line mn ops) = mn :: ops := by
    rw [parts, hstrip]
    exact splitRuns_line hmn.token hne hops
  rw [assemble_single (by simp [line]) hstrip (mem_line hmn.token hops) hcolon]
  simp only [statement, mnemonic, hparts, List.headD_cons, List.tail_cons,
    lower_of_token hmn.token hmn.lower, hmn.lookup]

theorem statement_token {t : Str} (ht : IsToken t) (hlow : t.map Char.toLower = t) :
    assemble U xlen [t] =
      match forms.lookup t with
      | some f => (encode U xlen [] 0 f []).map fun w ↦ [w]
      | none => .error (.unknownMnemonic t t) := by
  have hstrip := strip_of_graphic (U := U) ht.graphic
  have hparts : parts U t = [t] := by
    rw [parts, hstrip]
    exact splitRuns_single false ht.not_sep ht.ne_nil
  have hhash : ∀ c ∈ t, c ≠ '#' := by
    rintro c hc rfl
    exact absurd (ht.all _ hc) (by decide)
  have hcolon : t.getLast? ≠ some ':' := by
    rw [List.getLast?_eq_getLast_of_ne_nil ht.ne_nil]
    simpa using ne_colon_of_tokenChar (ht.all _ (List.getLast_mem ht.ne_nil))
  rw [assemble_single ht.ne_nil hstrip hhash hcolon]
  simp only [statement, mnemonic, hparts, List.headD_cons, List.tail_cons, lower_of_token ht hlow]
  cases forms.lookup t <;> rfl

/-! ## Printed operands -/

theorem mem_of_lookup {α β : Type} [BEq α] [LawfulBEq α] {l : List (α × β)} {a : α} {b : β}
    (h : l.lookup a = some b) : (a, b) ∈ l := by
  obtain ⟨l₁, l₂, rfl, -⟩ := List.lookup_eq_some_iff.1 h
  simp

theorem tokenChar_digitChar (d : ℕ) : tokenChar d.digitChar = true := by
  rcases Nat.lt_or_ge d 16 with h | h
  · revert h
    revert d
    decide
  · rw [Nat.digitChar_eq_star.2 h]
    decide

theorem tokenChar_toDigits {b n : ℕ} (hb : 1 < b) : ∀ c ∈ Nat.toDigits b n, tokenChar c = true := by
  obtain ⟨ds, hds, -⟩ := exists_toDigits hb n
  rw [hds]
  intro c hc
  obtain ⟨d, -, rfl⟩ := List.mem_map.1 hc
  exact tokenChar_digitChar d

theorem IsToken.append {s t : Str} (hs : ∀ c ∈ s, tokenChar c = true) (ht : IsToken t) :
    IsToken (s ++ t) := by
  refine ⟨by simp [ht.ne_nil], fun c hc ↦ ?_⟩
  rcases List.mem_append.1 hc with h | h
  · exact hs c h
  · exact ht.all c h

theorem isToken_dec (n : ℕ) : IsToken (dec n) :=
  ⟨Nat.toDigits_ne_nil, tokenChar_toDigits (by decide)⟩

theorem isToken_decInt (z : ℤ) : IsToken (decInt z) := by
  unfold decInt
  split_ifs
  · exact IsToken.append (s := ['-']) (List.all_eq_true.1 (by decide)) (isToken_dec _)
  · exact isToken_dec _

theorem isToken_decSigned (z : ℤ) : IsToken (decSigned z) := by
  unfold decSigned
  split_ifs
  · exact IsToken.append (s := ['-']) (List.all_eq_true.1 (by decide)) (isToken_dec _)
  · exact IsToken.append (s := ['+']) (List.all_eq_true.1 (by decide)) (isToken_dec _)

theorem isToken_hex (width n : ℕ) : IsToken ('0' :: 'x' :: hex width n) := by
  refine IsToken.append (s := ['0', 'x']) (List.all_eq_true.1 (by decide)) (IsToken.append ?_ ⟨?_, ?_⟩)
  · intro c hc
    rw [(List.mem_replicate.1 hc).2]
    decide
  · exact Nat.toDigits_ne_nil
  · exact tokenChar_toDigits (by decide)

theorem isToken_xReg : ∀ r : BitVec 5, IsToken (xReg r) := by decide

theorem isToken_fReg : ∀ r : BitVec 5, IsToken (fReg r) := by decide

theorem isToken_memOp (z : ℤ) (r : BitVec 5) : IsToken (Disasm.memOp z r) :=
  IsToken.append (isToken_decInt z).all
    (IsToken.append (s := ['(']) (List.all_eq_true.1 (by decide))
      (IsToken.append (isToken_xReg r).all (by decide)))

theorem isToken_rmName : ∀ rm : BitVec 3, IsToken (rmName rm) := by decide

theorem isToken_csrName (a : BitVec 12) : IsToken (csrName a) := by
  have hnames : ∀ e ∈ csrNames, IsToken e.2 := by decide
  unfold csrName
  cases h : csrNames.lookup a with
  | none => exact isToken_hex 3 _
  | some name => exact hnames _ (mem_of_lookup h)

theorem regMatch_dec (letter : Char) (hl : graphic letter = true) (n : ℕ) :
    regMatch U letter (letter :: dec n) = some n := by
  have hg : ∀ c ∈ letter :: dec n, graphic c = true := by
    intro c hc
    rcases List.mem_cons.1 hc with rfl | h
    · exact hl
    · exact graphic_dec n c h
  have hdec : (dec n).all (fun d ↦ (U.decimal d).isSome) = true := by
    rw [List.all_eq_true]
    exact isDecimal_dec n
  simp only [regMatch, strip_of_graphic hg]
  rw [if_pos ⟨trivial, Nat.toDigits_ne_nil, hdec⟩, intDecimal_dec]

@[simp] theorem reg_xReg (r : BitVec 5) : reg U (xReg r) = .ok r := by
  have hr := r.isLt
  simp only [reg, xReg, regMatch_dec (U := U) 'x' (by decide)]
  rw [if_pos (by omega), BitVec.ofNat_toNat, BitVec.setWidth_eq]

@[simp] theorem freg_fReg (r : BitVec 5) : freg U (fReg r) = .ok r := by
  have hr := r.isLt
  simp only [freg, fReg, regMatch_dec (U := U) 'f' (by decide)]
  rw [if_pos (by omega), BitVec.ofNat_toNat, BitVec.setWidth_eq]

theorem immOf_toInt {n : ℕ} (v : BitVec n) : immOf v.toInt n true = .ok v := by
  have hlo : -2 ^ (n - 1) ≤ v.toInt := BitVec.le_toInt v
  have hhi : v.toInt ≤ 2 ^ (n - 1) - 1 := by
    have := BitVec.toInt_lt (x := v)
    omega
  simp only [immOf, if_true]
  rw [if_pos ⟨hlo, hhi⟩, BitVec.ofInt_toInt]

theorem immOf_toNat {n : ℕ} (v : BitVec n) : immOf (v.toNat : ℤ) n false = .ok v := by
  have hlt := v.isLt
  have hle : (v.toNat : ℤ) ≤ 2 ^ n - 1 := by
    have : ((v.toNat : ℕ) : ℤ) < ((2 ^ n : ℕ) : ℤ) := by exact_mod_cast hlt
    push_cast at this
    omega
  simp only [immOf, Bool.false_eq_true, if_false]
  rw [if_pos ⟨by positivity, hle⟩, BitVec.ofInt_natCast, BitVec.ofNat_toNat, BitVec.setWidth_eq]

@[simp] theorem imm_decInt {n : ℕ} (v : BitVec n) : imm U (decInt v.toInt) n true = .ok v := by
  simp only [imm, pyInt, int0_decInt]
  exact immOf_toInt v

@[simp] theorem imm_dec {n : ℕ} (v : BitVec n) : imm U (dec v.toNat) n false = .ok v := by
  simp only [imm, pyInt, int0_dec]
  exact immOf_toNat v

@[simp] theorem imm_hex {n : ℕ} (width : ℕ) (v : BitVec n) :
    imm U ('0' :: 'x' :: hex width v.toNat) n false = .ok v := by
  simp only [imm, pyInt, int0_hex]
  exact immOf_toNat v

@[simp] theorem resolve_decSigned (z : ℤ) : resolve U [] 0 (decSigned z) = .ok z := by
  simp [resolve, pyInt, int0_decSigned]

theorem takeWhile_stop {p : Char → Bool} {s t : Str} {c : Char} (hs : ∀ x ∈ s, p x = true)
    (hc : p c = false) :
    (s ++ c :: t).takeWhile p = s ∧ (s ++ c :: t).dropWhile p = c :: t := by
  constructor
  · rw [List.takeWhile_append_of_pos hs, List.takeWhile_cons_of_neg (by simp [hc]),
      List.append_nil]
  · rw [List.dropWhile_append_of_pos hs, List.dropWhile_cons_of_neg (by simp [hc])]

theorem isWord_paren : U.isWord '(' = false := by
  rw [U.isWord_ascii '(' (by decide)]
  decide

theorem decimal_paren : (U.decimal ')').isSome = false := by
  rw [U.decimal_ascii ')' (by decide)]
  decide

/-- The register part of a memory operand, after the digits of the offset. -/
theorem memMatch_tail (sign : Str) (n : ℕ) (r : BitVec 5) :
    (match (dec n ++ '(' :: (xReg r ++ [')'])).dropWhile U.isWord with
      | '(' :: 'x' :: tail =>
        if (dec n ++ '(' :: (xReg r ++ [')'])).takeWhile U.isWord ≠ [] ∧
            tail.takeWhile (fun d ↦ (U.decimal d).isSome) ≠ [] ∧
            (tail.dropWhile fun d ↦ (U.decimal d).isSome).head? = some ')' then
          some (sign ++ (dec n ++ '(' :: (xReg r ++ [')'])).takeWhile U.isWord,
            'x' :: tail.takeWhile fun d ↦ (U.decimal d).isSome)
        else none
      | _ => none) = some (sign ++ dec n, xReg r) := by
  obtain ⟨htake, hdrop⟩ := takeWhile_stop (t := xReg r ++ [')']) (isWord_dec (U := U) n) isWord_paren
  obtain ⟨htake', hdrop'⟩ :=
    takeWhile_stop (t := []) (isDecimal_dec (U := U) r.toNat) decimal_paren
  rw [htake, hdrop]
  simp only [xReg, List.cons_append, htake', hdrop', List.head?_cons]
  rw [if_pos ⟨Nat.toDigits_ne_nil, Nat.toDigits_ne_nil, trivial⟩]

@[simp] theorem memOperand_memOp (z : ℤ) (r : BitVec 5) :
    memOperand U (Disasm.memOp z r) = .ok (decInt z, xReg r) := by
  have hmatch : memMatch U (Disasm.memOp z r) = some (decInt z, xReg r) := by
    unfold Disasm.memOp decInt
    split_ifs with hz
    · exact memMatch_tail ['-'] z.natAbs r
    · obtain ⟨d, l, hd⟩ := head_dec z.natAbs
      have hne : (dec z.natAbs ++ '(' :: (xReg r ++ [')'])).head? ≠ some '-' := by
        rw [hd]
        simp
      unfold memMatch
      rw [if_neg hne, if_neg hne]
      exact memMatch_tail [] z.natAbs r
  rw [memOperand, hmatch]

/-- The rounding modes the assembler writes. -/
theorem parseRm_rmName {rm : BitVec 3} (hrm : rm ∈ Tools.rmNames.map Prod.snd) :
    parseRm U [rmName rm] 0 = .ok rm := by
  have hall : ∀ rm ∈ Tools.rmNames.map Prod.snd, (rmName rm).map Char.toLower = rmName rm ∧
      Tools.rmNames.lookup (rmName rm) = some rm := by decide
  obtain ⟨hlow, hlook⟩ := hall rm hrm
  have htok := isToken_rmName rm
  have hstrip := strip_of_graphic (U := U) htok.graphic
  simp only [parseRm, List.getElem?_cons_zero, hstrip, if_neg htok.ne_nil,
    lower_of_token htok hlow, hlook]

@[simp] theorem parseRm_succ (a : Str) (l : List Str) (n : ℕ) :
    parseRm U (a :: l) (n + 1) = parseRm U l n := rfl

theorem parseRm_mem {args : List Str} {idx : ℕ} {rm : BitVec 3} (h : parseRm U args idx = .ok rm) :
    rm ∈ Tools.rmNames.map Prod.snd := by
  unfold parseRm at h
  split at h
  · cases h
    decide
  · split_ifs at h
    · cases h
      decide
    · split at h
      · rename_i hlook
        cases h
        exact List.mem_map.2 ⟨_, mem_of_lookup hlook, rfl⟩
      · cases h

/-- The CSRs the disassembler names and the assembler does not. -/
def floatCsr (a : BitVec 12) : Bool := a == 0x001#12 || a == 0x002#12 || a == 0x003#12

theorem csrLookup_csrName {a : BitVec 12} (h : floatCsr a = false) :
    ∃ z, csrLookup U (csrName a) = .ok z ∧ BitVec.ofInt 12 z = a := by
  have hnames : ∀ e ∈ csrNames, floatCsr e.1 = false →
      ∃ z ∈ (csrAddr.lookup e.2), BitVec.ofInt 12 z = e.1 := by decide
  unfold csrName
  cases hlook : csrNames.lookup a with
  | some name =>
    obtain ⟨z, hz, ha⟩ := hnames _ (mem_of_lookup hlook) h
    refine ⟨z, ?_, ha⟩
    simp only [Option.getD_some, csrLookup, Option.mem_def.1 hz]
  | none =>
    have hnone : csrAddr.lookup ('0' :: 'x' :: hex 3 a.toNat) = none := by
      rw [List.lookup_eq_none_iff]
      have hhead : ∀ e ∈ csrAddr, e.1.head? ≠ some '0' := by decide
      intro e he
      have hne := hhead e he
      rw [bne_iff_ne]
      rintro heq
      rw [← heq] at hne
      exact hne rfl
    refine ⟨a.toNat, ?_, ?_⟩
    · simp only [Option.getD_none, csrLookup, hnone, pyInt, int0_hex]
    · rw [BitVec.ofInt_natCast, BitVec.ofNat_toNat, BitVec.setWidth_eq]

/-- The names of the float CSRs are no integers. -/
theorem csrLookup_floatCsr {a : BitVec 12} (h : floatCsr a = true) :
    csrLookup U (csrName a) = .error (.notAnInteger (csrName a)) := by
  have hall : ∀ a ∈ [0x001#12, 0x002#12, 0x003#12], csrAddr.lookup (csrName a) = none ∧
      signedVal (csrName a) = none := by decide
  have hmem : a ∈ [0x001#12, 0x002#12, 0x003#12] := by
    simpa [floatCsr, or_assoc] using h
  obtain ⟨hlook, hval⟩ := hall a hmem
  simp only [csrLookup, hlook, pyInt, int0_of_graphic (isToken_csrName a).graphic, hval]

/-! ## Fields of a word -/

section Fields

variable (o a b : BitVec 7) (c : BitVec 3) (x y z : BitVec 5) (v : BitVec 12)

@[simp] theorem op_rWord : op (rWord o a c x y z) = o := by
  unfold op rWord
  rw [BitVec.extractLsb'_append_eq_of_add_le (by decide), BitVec.extractLsb'_eq_self]

@[simp] theorem rd_rWord : rd (rWord o a c x y z) = x := by
  unfold rd rWord
  rw [BitVec.extractLsb'_append_eq_of_le (by decide),
    BitVec.extractLsb'_append_eq_of_add_le (by decide), BitVec.extractLsb'_eq_self]

@[simp] theorem f3_rWord : f3 (rWord o a c x y z) = c := by
  unfold f3 rWord
  repeat rw [BitVec.extractLsb'_append_eq_of_le (by decide)]
  rw [BitVec.extractLsb'_append_eq_of_add_le (by decide), BitVec.extractLsb'_eq_self]

@[simp] theorem rs1_rWord : rs1 (rWord o a c x y z) = y := by
  unfold rs1 rWord
  repeat rw [BitVec.extractLsb'_append_eq_of_le (by decide)]
  rw [BitVec.extractLsb'_append_eq_of_add_le (by decide), BitVec.extractLsb'_eq_self]

@[simp] theorem rs2_rWord : rs2 (rWord o a c x y z) = z := by
  unfold rs2 rWord
  repeat rw [BitVec.extractLsb'_append_eq_of_le (by decide)]
  rw [BitVec.extractLsb'_append_eq_of_add_le (by decide), BitVec.extractLsb'_eq_self]

@[simp] theorem f7_rWord : f7 (rWord o a c x y z) = a := by
  unfold f7 rWord
  repeat rw [BitVec.extractLsb'_append_eq_of_le (by decide)]
  rw [BitVec.extractLsb'_eq_self]

theorem rs3_rWord : rs3 (rWord o a c x y z) = a.extractLsb' 2 5 := by
  unfold rs3 rWord
  repeat rw [BitVec.extractLsb'_append_eq_of_le (by decide)]

@[simp] theorem rs3_fpWord (t : BitVec 5) : rs3 (fpWord o t c x y z) = t := by
  rw [fpWord, rs3_rWord, BitVec.extractLsb'_append_eq_of_le (by decide), BitVec.extractLsb'_eq_self]

theorem imm12_rWord : imm12 (rWord o a c x y z) = a ++ z := by
  unfold imm12 rWord
  repeat rw [BitVec.extractLsb'_append_eq_of_le (by decide)]
  rw [BitVec.extractLsb'_eq_self]

@[simp] theorem op_iWord : op (iWord o v c x y) = o := by
  unfold op iWord
  rw [BitVec.extractLsb'_append_eq_of_add_le (by decide), BitVec.extractLsb'_eq_self]

@[simp] theorem rd_iWord : rd (iWord o v c x y) = x := by
  unfold rd iWord
  repeat rw [BitVec.extractLsb'_append_eq_of_le (by decide)]
  rw [BitVec.extractLsb'_append_eq_of_add_le (by decide), BitVec.extractLsb'_eq_self]

@[simp] theorem f3_iWord : f3 (iWord o v c x y) = c := by
  unfold f3 iWord
  repeat rw [BitVec.extractLsb'_append_eq_of_le (by decide)]
  rw [BitVec.extractLsb'_append_eq_of_add_le (by decide), BitVec.extractLsb'_eq_self]

@[simp] theorem rs1_iWord : rs1 (iWord o v c x y) = y := by
  unfold rs1 iWord
  repeat rw [BitVec.extractLsb'_append_eq_of_le (by decide)]
  rw [BitVec.extractLsb'_append_eq_of_add_le (by decide), BitVec.extractLsb'_eq_self]

/-- What lies in the upper twelve bits of an I-format word. -/
theorem extract_iWord (s l : ℕ) : (iWord o v c x y).extractLsb' (20 + s) l = v.extractLsb' s l := by
  unfold iWord
  repeat rw [BitVec.extractLsb'_append_eq_of_le (by omega)]
  congr 1
  omega

@[simp] theorem imm12_iWord : imm12 (iWord o v c x y) = v :=
  (extract_iWord o c x y v 0 12).trans BitVec.extractLsb'_eq_self

@[simp] theorem op_sWord : op (sWord o v c x y) = o := by
  unfold op sWord
  rw [BitVec.extractLsb'_append_eq_of_add_le (by decide), BitVec.extractLsb'_eq_self]

@[simp] theorem f3_sWord : f3 (sWord o v c x y) = c := by
  unfold f3 sWord
  repeat rw [BitVec.extractLsb'_append_eq_of_le (by decide)]
  rw [BitVec.extractLsb'_append_eq_of_add_le (by decide), BitVec.extractLsb'_eq_self]

@[simp] theorem rs1_sWord : rs1 (sWord o v c x y) = x := by
  unfold rs1 sWord
  repeat rw [BitVec.extractLsb'_append_eq_of_le (by decide)]
  rw [BitVec.extractLsb'_append_eq_of_add_le (by decide), BitVec.extractLsb'_eq_self]

@[simp] theorem rs2_sWord : rs2 (sWord o v c x y) = y := by
  unfold rs2 sWord
  repeat rw [BitVec.extractLsb'_append_eq_of_le (by decide)]
  rw [BitVec.extractLsb'_append_eq_of_add_le (by decide), BitVec.extractLsb'_eq_self]

@[simp] theorem immS_sWord : immS (sWord o v c x y) = v := by
  apply BitVec.eq_of_getLsbD_eq
  intro i hi
  simp only [immS, sWord, BitVec.getLsbD_append, BitVec.getLsbD_extractLsb']
  interval_cases i <;> simp

@[simp] theorem op_uWord (u : BitVec 20) : op (uWord o u x) = o := by
  unfold op uWord
  rw [BitVec.extractLsb'_append_eq_of_add_le (by decide), BitVec.extractLsb'_eq_self]

@[simp] theorem rd_uWord (u : BitVec 20) : rd (uWord o u x) = x := by
  unfold rd uWord
  repeat rw [BitVec.extractLsb'_append_eq_of_le (by decide)]
  rw [BitVec.extractLsb'_append_eq_of_add_le (by decide), BitVec.extractLsb'_eq_self]

@[simp] theorem imm20_uWord (u : BitVec 20) : (uWord o u x).extractLsb' 12 20 = u := by
  unfold uWord
  repeat rw [BitVec.extractLsb'_append_eq_of_le (by decide)]
  rw [BitVec.extractLsb'_eq_self]

variable (e : BitVec 13) (j : BitVec 21)

@[simp] theorem op_branchWord : op (branchWord e c x y) = opBranch := by
  unfold op branchWord
  rw [BitVec.extractLsb'_append_eq_of_add_le (by decide), BitVec.extractLsb'_eq_self]

@[simp] theorem f3_branchWord : f3 (branchWord e c x y) = c := by
  unfold f3 branchWord
  repeat rw [BitVec.extractLsb'_append_eq_of_le (by decide)]
  rw [BitVec.extractLsb'_append_eq_of_add_le (by decide), BitVec.extractLsb'_eq_self]

@[simp] theorem rs1_branchWord : rs1 (branchWord e c x y) = x := by
  unfold rs1 branchWord
  repeat rw [BitVec.extractLsb'_append_eq_of_le (by decide)]
  rw [BitVec.extractLsb'_append_eq_of_add_le (by decide), BitVec.extractLsb'_eq_self]

@[simp] theorem rs2_branchWord : rs2 (branchWord e c x y) = y := by
  unfold rs2 branchWord
  repeat rw [BitVec.extractLsb'_append_eq_of_le (by decide)]
  rw [BitVec.extractLsb'_append_eq_of_add_le (by decide), BitVec.extractLsb'_eq_self]

/-- The five pieces of a branch offset come back in their places. -/
theorem branchOff_branchWord (he : e.getLsbD 0 = false) : branchOff (branchWord e c x y) = e := by
  apply BitVec.eq_of_getLsbD_eq
  intro i hi
  have he' : e[0] = false := he
  simp only [branchOff, branchWord, BitVec.getLsbD_append, BitVec.getLsbD_extractLsb']
  interval_cases i <;> simp [he']

@[simp] theorem op_jalWord : op (jalWord j x) = opJal := by
  unfold op jalWord
  rw [BitVec.extractLsb'_append_eq_of_add_le (by decide), BitVec.extractLsb'_eq_self]

@[simp] theorem rd_jalWord : rd (jalWord j x) = x := by
  unfold rd jalWord
  repeat rw [BitVec.extractLsb'_append_eq_of_le (by decide)]
  rw [BitVec.extractLsb'_append_eq_of_add_le (by decide), BitVec.extractLsb'_eq_self]

theorem jalOff_jalWord (hj : j.getLsbD 0 = false) : jalOff (jalWord j x) = j := by
  apply BitVec.eq_of_getLsbD_eq
  intro i hi
  have hj' : j[0] = false := hj
  simp only [jalOff, jalWord, BitVec.getLsbD_append, BitVec.getLsbD_extractLsb']
  interval_cases i <;> simp [hj']

end Fields

end RvPipeline.Tools
