import Mathlib

/-!
# Text as Python's `str`

Stripping, splitting, `int(s, 0)` and number formatting.  What the Unicode tables decide outside
ASCII is a parameter; what the formatter prints, `int` reads back.
-/

namespace Py

/-- A string as its code points. -/
abbrev Str := List Char

/-- `x in l`, by comparison with one element after another. -/
abbrev decideMem {α : Type} [DecidableEq α] (x : α) (l : List α) : Decidable (x ∈ l) :=
  decidable_of_iff (l.any (x == ·) = true) (by simp)

def asciiSpace (c : Char) : Bool :=
  (9 ≤ c.toNat && c.toNat ≤ 13) || (28 ≤ c.toNat && c.toNat ≤ 32)

def asciiWord (c : Char) : Bool := c.isAlphanum || c == '_'

def asciiDecimal (c : Char) : Option ℕ := if c.isDigit then some (c.toNat - 48) else none

/-- The interpreter's character tables: `str.isspace` (also `\s`), `\w`, the value of a decimal
digit (also `\d`), and `str.lower`. -/
structure Unicode where
  isSpace : Char → Bool
  isWord : Char → Bool
  decimal : Char → Option ℕ
  lower : Str → Str
  isSpace_ascii : ∀ c, c.toNat < 128 → isSpace c = asciiSpace c
  isWord_ascii : ∀ c, c.toNat < 128 → isWord c = asciiWord c
  decimal_ascii : ∀ c, c.toNat < 128 → decimal c = asciiDecimal c
  lower_ascii : ∀ s, (∀ c ∈ s, c.toNat < 128) → lower s = s.map Char.toLower

/-- Tables that know nothing outside ASCII. -/
def Unicode.ascii : Unicode where
  isSpace := asciiSpace
  isWord := asciiWord
  decimal := asciiDecimal
  lower s := s.map Char.toLower
  isSpace_ascii _ _ := rfl
  isWord_ascii _ _ := rfl
  decimal_ascii _ _ := rfl
  lower_ascii _ _ := rfl

variable (U : Unicode)

/-! ## Strings -/

def strip (s : Str) : Str := (s.dropWhile U.isSpace).rdropWhile U.isSpace

/-- `re.split` at runs of separators; `prev` says whether the last character was one. -/
def splitRuns (sep : Char → Bool) : Bool → Str → List Str
  | _, [] => [[]]
  | prev, c :: cs =>
    if sep c then if prev then splitRuns sep true cs else [] :: splitRuns sep true cs
    else match splitRuns sep false cs with
      | [] => [[c]]
      | t :: ts => (c :: t) :: ts

/-! ## Integers -/

/-- The value of an ASCII digit or letter. -/
def digitVal (c : Char) : Option ℕ :=
  if c.isDigit then some (c.toNat - 48)
  else if c.isLower then some (c.toNat - 87)
  else if c.isUpper then some (c.toNat - 55)
  else none

/-- Digits with single underscores between them; `prev` says whether the last one was a digit. -/
def digitsVal (base : ℕ) : ℕ → Bool → Str → Option ℕ
  | acc, prev, [] => if prev then some acc else none
  | acc, prev, c :: cs =>
    if c = '_' then if prev then digitsVal base acc false cs else none
    else match digitVal c with
      | some d => if d < base then digitsVal base (acc * base + d) true cs else none
      | none => none

/-- The digits after a base prefix, where one underscore may come first. -/
def prefixedVal (base : ℕ) (s : Str) : Option ℕ :=
  match s with
  | '_' :: r => digitsVal base 0 false r
  | _ => digitsVal base 0 false s

/-- An unsigned literal in base 0: a prefix selects the base, and a plain decimal that starts
with a zero must be zero. -/
def literalVal (s : Str) : Option ℕ :=
  match s with
  | '0' :: c :: r =>
    if c = 'x' ∨ c = 'X' then prefixedVal 16 r
    else if c = 'o' ∨ c = 'O' then prefixedVal 8 r
    else if c = 'b' ∨ c = 'B' then prefixedVal 2 r
    else (digitsVal 10 0 false s).filter (· == 0)
  | _ => digitsVal 10 0 false s

def signedVal (s : Str) : Option ℤ :=
  match s with
  | '-' :: r => (literalVal r).map fun n : ℕ ↦ -(n : ℤ)
  | '+' :: r => (literalVal r).map fun n : ℕ ↦ (n : ℤ)
  | _ => (literalVal s).map fun n : ℕ ↦ (n : ℤ)

/-- Decimal digits of any script become ASCII digits before a number is read. -/
def toAsciiDigits (s : Str) : Str :=
  s.map fun c ↦ match U.decimal c with
    | some d => d.digitChar
    | none => c

/-- `int(s, 0)`. -/
def int0 (s : Str) : Option ℤ := signedVal (toAsciiDigits U (strip U s))

/-- An unsigned literal in base 2, with or without its prefix. -/
def binaryVal (s : Str) : Option ℕ :=
  match s with
  | '0' :: c :: r => if c = 'b' ∨ c = 'B' then prefixedVal 2 r else digitsVal 2 0 false s
  | _ => digitsVal 2 0 false s

/-- `int(s, 2)`. -/
def int2 (s : Str) : Option ℤ :=
  match toAsciiDigits U (strip U s) with
  | '-' :: r => (binaryVal r).map fun n : ℕ ↦ -(n : ℤ)
  | '+' :: r => (binaryVal r).map fun n : ℕ ↦ (n : ℤ)
  | r => (binaryVal r).map fun n : ℕ ↦ (n : ℤ)

/-- `int(s)` of a string of decimal digits. -/
def intDecimal (s : Str) : Option ℕ := digitsVal 10 0 false (toAsciiDigits U s)

/-! ## Formatting -/

def dec (n : ℕ) : Str := Nat.toDigits 10 n

/-- `f"{z}"`. -/
def decInt (z : ℤ) : Str := if z < 0 then '-' :: dec z.natAbs else dec z.natAbs

/-- `f"{z:+d}"`. -/
def decSigned (z : ℤ) : Str := (if z < 0 then '-' else '+') :: dec z.natAbs

/-- `f"{n:x}"` at least `width` digits wide, the rest zeros. -/
def hex (width n : ℕ) : Str :=
  List.replicate (width - (Nat.toDigits 16 n).length) '0' ++ Nat.toDigits 16 n

/-- `f"{n:b}"` at least `width` digits wide. -/
def bin (width n : ℕ) : Str :=
  List.replicate (width - (Nat.toDigits 2 n).length) '0' ++ Nat.toDigits 2 n

/-! ## Printable ASCII -/

/-- A printable ASCII character other than the space. -/
def graphic (c : Char) : Bool := 33 ≤ c.toNat && c.toNat < 127

variable {U} {s t : Str} {sep : Char → Bool}

theorem lt_of_graphic {c : Char} (h : graphic c = true) : 33 ≤ c.toNat ∧ c.toNat < 127 := by
  simpa [graphic] using h

theorem isSpace_of_graphic {c : Char} (h : graphic c = true) : U.isSpace c = false := by
  obtain ⟨hlo, hhi⟩ := lt_of_graphic h
  rw [U.isSpace_ascii c (by omega), asciiSpace]
  simp
  omega

theorem strip_of_ends {c d : Char} (hhead : s.head? = some c) (hc : graphic c = true)
    (hlast : s.getLast? = some d) (hd : graphic d = true) : strip U s = s := by
  have hdrop : s.dropWhile U.isSpace = s := by
    cases s with
    | nil => rfl
    | cons a s =>
      obtain rfl : a = c := by simpa using hhead
      rw [List.dropWhile_cons_of_neg]
      simp [isSpace_of_graphic hc]
  rw [strip, hdrop, List.rdropWhile_eq_self_iff]
  intro hne
  rw [List.getLast?_eq_getLast_of_ne_nil hne, Option.some.injEq] at hlast
  simp [hlast, isSpace_of_graphic hd]

theorem strip_of_graphic (h : ∀ c ∈ s, graphic c = true) : strip U s = s := by
  cases s with
  | nil => rfl
  | cons a s =>
    have hne : a :: s ≠ [] := by simp
    exact strip_of_ends rfl (h a (by simp)) (List.getLast?_eq_getLast_of_ne_nil hne)
      (h _ (List.getLast_mem hne))

theorem digitChar_of_isDigit {c : Char} (h : c.isDigit = true) : (c.toNat - 48).digitChar = c := by
  have hrange : 48 ≤ c.toNat ∧ c.toNat ≤ 57 := by
    simp only [Char.isDigit, Bool.and_eq_true, decide_eq_true_eq] at h
    exact ⟨UInt32.le_iff_toNat_le.1 h.1, UInt32.le_iff_toNat_le.1 h.2⟩
  apply Char.ext
  apply UInt32.toNat_inj.1
  change (c.toNat - 48).digitChar.toNat = c.toNat
  rw [Nat.toNat_digitChar_of_lt_ten (by omega)]
  omega

theorem toAsciiDigits_of_graphic (h : ∀ c ∈ s, graphic c = true) : toAsciiDigits U s = s := by
  unfold toAsciiDigits
  conv_rhs => rw [← List.map_id s]
  apply List.map_congr_left
  intro c hc
  have := lt_of_graphic (h c hc)
  rw [U.decimal_ascii c (by omega), asciiDecimal]
  split_ifs with hd
  · exact digitChar_of_isDigit hd
  · rfl

theorem int0_of_graphic (h : ∀ c ∈ s, graphic c = true) : int0 U s = signedVal s := by
  rw [int0, strip_of_graphic h, toAsciiDigits_of_graphic h]

theorem splitRuns_append (prev : Bool) (ht : ∀ c ∈ t, sep c = false) (hne : t ≠ []) {c : Char}
    (hc : sep c = true) : splitRuns sep prev (t ++ c :: s) = t :: splitRuns sep true s := by
  induction t generalizing prev with
  | nil => exact absurd rfl hne
  | cons a t ih =>
    have ha := ht a (by simp)
    cases t with
    | nil => simp [splitRuns, ha, hc]
    | cons b t =>
      have hrest := ih false (fun x hx ↦ ht x (by simp [hx])) (by simp)
      rw [List.cons_append, splitRuns, if_neg (by simp [ha]), hrest]

theorem splitRuns_single (prev : Bool) (ht : ∀ c ∈ t, sep c = false) (hne : t ≠ []) :
    splitRuns sep prev t = [t] := by
  induction t generalizing prev with
  | nil => exact absurd rfl hne
  | cons a t ih =>
    have ha := ht a (by simp)
    cases t with
    | nil => simp [splitRuns, ha]
    | cons b t =>
      have hrest := ih false (fun x hx ↦ ht x (by simp [hx])) (by simp)
      rw [splitRuns, if_neg (by simp [ha]), hrest]

/-! ## Numbers that were printed -/

theorem digitVal_digitChar {d : ℕ} (h : d < 16) : digitVal d.digitChar = some d := by
  revert h
  revert d
  decide

theorem digitChar_ne_underscore (d : ℕ) : d.digitChar ≠ '_' :=
  Nat.digitChar_ne '_' (by decide)

theorem graphic_digitChar (d : ℕ) : graphic d.digitChar = true := by
  rcases Nat.lt_or_ge d 16 with h | h
  · revert h
    revert d
    decide
  · rw [Nat.digitChar_eq_star.2 h]
    decide

theorem digitsVal_map {base : ℕ} (hb : base ≤ 16) {ds : List ℕ} (hds : ∀ d ∈ ds, d < base)
    (acc : ℕ) {prev : Bool} (hne : ds ≠ [] ∨ prev = true) :
    digitsVal base acc prev (ds.map Nat.digitChar) =
      some (ds.foldl (fun a d ↦ a * base + d) acc) := by
  induction ds generalizing acc prev with
  | nil => simpa [digitsVal] using hne
  | cons d ds ih =>
    have hd := hds d (by simp)
    rw [List.map_cons, digitsVal, if_neg (digitChar_ne_underscore d),
      digitVal_digitChar (by omega)]
    simp only [hd, if_true]
    exact ih (fun x hx ↦ hds x (by simp [hx])) _ (.inr rfl)

/-- The digits of a number, most significant first. -/
theorem exists_toDigits {b : ℕ} (hb : 1 < b) (n : ℕ) :
    ∃ ds : List ℕ, Nat.toDigits b n = ds.map Nat.digitChar ∧ ds ≠ [] ∧ (∀ d ∈ ds, d < b) ∧
      (n ≠ 0 → ds.head? ≠ some 0) ∧ ds.foldl (fun a d ↦ a * b + d) 0 = n := by
  induction n using Nat.strong_induction_on with
  | _ n ih =>
    rw [Nat.toDigits_eq_if hb]
    split_ifs with hlt
    · exact ⟨[n], rfl, by simp, by simpa using hlt, by simp, by simp⟩
    · obtain ⟨ds, hds, hne, hall, hhead, hval⟩ := ih (n / b) (Nat.div_lt_self (by omega) hb)
      refine ⟨ds ++ [n % b], by simp [hds], by simp, ?_, ?_, ?_⟩
      · intro d hd
        rcases List.mem_append.1 hd with h | h
        · exact hall d h
        · rw [List.mem_singleton.1 h]
          exact Nat.mod_lt _ (by omega)
      · intro _
        rw [List.head?_append_of_ne_nil _ hne]
        exact hhead (Nat.div_pos (by omega) (by omega)).ne'
      · rw [List.foldl_append, hval]
        simpa [mul_comm] using Nat.div_add_mod n b

theorem graphic_toDigits (base n : ℕ) (hb : 1 < base) : ∀ c ∈ Nat.toDigits base n, graphic c = true := by
  obtain ⟨ds, hds, -⟩ := exists_toDigits hb n
  rw [hds]
  intro c hc
  obtain ⟨d, -, rfl⟩ := List.mem_map.1 hc
  exact graphic_digitChar d

theorem digitsVal_toDigits {b : ℕ} (hb : 1 < b) (hle : b ≤ 16) (n : ℕ) :
    digitsVal b 0 false (Nat.toDigits b n) = some n := by
  obtain ⟨ds, hds, hne, hall, -, hval⟩ := exists_toDigits hb n
  rw [hds, digitsVal_map hle hall 0 (.inl hne), hval]

theorem literalVal_dec (n : ℕ) : literalVal (dec n) = some n := by
  have hval := digitsVal_toDigits (b := 10) (by decide) (by decide) n
  obtain ⟨ds, hds, hne, -, hhead, -⟩ := exists_toDigits (b := 10) (by decide) n
  unfold dec
  rcases Nat.eq_zero_or_pos n with rfl | hpos
  · rfl
  · rw [hds] at hval ⊢
    obtain ⟨d, ds, rfl⟩ := List.exists_cons_of_ne_nil hne
    have hd : d.digitChar ≠ '0' := by
      intro h0
      rw [Nat.digitChar_eq_zero] at h0
      exact hhead hpos.ne' (by simp [h0])
    rw [List.map_cons] at hval ⊢
    unfold literalVal
    split
    · rename_i heq
      exact absurd (List.cons.inj heq).1 hd
    · exact hval

theorem foldl_zeros (base k : ℕ) : (List.replicate k 0).foldl (fun a d ↦ a * base + d) 0 = 0 := by
  induction k with
  | zero => rfl
  | succ k ih => simpa [List.replicate_succ] using ih

theorem prefixedVal_hex (width n : ℕ) : prefixedVal 16 (hex width n) = some n := by
  obtain ⟨ds, hds, hne, hall, -, hval⟩ := exists_toDigits (b := 16) (by decide) n
  have hmap : hex width n =
      (List.replicate (width - (Nat.toDigits 16 n).length) 0 ++ ds).map Nat.digitChar := by
    simp [hex, hds]
  have hlt : ∀ d ∈ List.replicate (width - (Nat.toDigits 16 n).length) 0 ++ ds, d < 16 := by
    intro d hd
    rcases List.mem_append.1 hd with h | h
    · rw [(List.mem_replicate.1 h).2]
      decide
    · exact hall d h
  have hdigits : digitsVal 16 0 false (hex width n) = some n := by
    rw [hmap, digitsVal_map (by decide) hlt 0 (.inl (by simp [hne])), List.foldl_append,
      foldl_zeros, hval]
  unfold prefixedVal
  split
  · rename_i heq
    rw [hmap] at heq
    obtain ⟨d, l, hdl⟩ := List.exists_cons_of_ne_nil (l := List.replicate
      (width - (Nat.toDigits 16 n).length) 0 ++ ds) (by simp [hne])
    rw [hdl, List.map_cons] at heq
    exact absurd (List.cons.inj heq).1 (digitChar_ne_underscore d)
  · exact hdigits

theorem graphic_dec (n : ℕ) : ∀ c ∈ dec n, graphic c = true := graphic_toDigits 10 n (by decide)

theorem graphic_hex (width n : ℕ) : ∀ c ∈ hex width n, graphic c = true := by
  intro c hc
  rcases List.mem_append.1 hc with h | h
  · rw [(List.mem_replicate.1 h).2]
    decide
  · exact graphic_toDigits 16 n (by decide) c h

theorem head_dec (n : ℕ) : ∃ d : ℕ, ∃ l, dec n = d.digitChar :: l := by
  obtain ⟨ds, hds, hne, -⟩ := exists_toDigits (b := 10) (by decide) n
  obtain ⟨d, ds, rfl⟩ := List.exists_cons_of_ne_nil hne
  exact ⟨d, _, by rw [dec, hds, List.map_cons]⟩

theorem signedVal_dec (n : ℕ) : signedVal (dec n) = some (n : ℤ) := by
  obtain ⟨d, l, hd⟩ := head_dec n
  unfold signedVal
  split
  · rename_i heq
    rw [hd] at heq
    exact absurd (List.cons.inj heq).1 (Nat.digitChar_ne '-' (by decide))
  · rename_i heq
    rw [hd] at heq
    exact absurd (List.cons.inj heq).1 (Nat.digitChar_ne '+' (by decide))
  · rw [literalVal_dec]
    rfl

theorem graphic_decInt (z : ℤ) : ∀ c ∈ decInt z, graphic c = true := by
  intro c hc
  unfold decInt at hc
  split_ifs at hc
  · rcases List.mem_cons.1 hc with rfl | h
    · decide
    · exact graphic_dec _ c h
  · exact graphic_dec _ c hc

theorem graphic_decSigned (z : ℤ) : ∀ c ∈ decSigned z, graphic c = true := by
  intro c hc
  rcases List.mem_cons.1 hc with rfl | h
  · split_ifs <;> decide
  · exact graphic_dec _ c h

theorem int0_dec (n : ℕ) : int0 U (dec n) = some (n : ℤ) := by
  rw [int0_of_graphic (graphic_dec n), signedVal_dec]

theorem int0_decInt (z : ℤ) : int0 U (decInt z) = some z := by
  rw [int0_of_graphic (graphic_decInt z)]
  unfold decInt
  split_ifs with hz
  · have habs : -((z.natAbs : ℕ) : ℤ) = z := by omega
    simp only [signedVal, literalVal_dec, Option.map_some, habs]
  · have habs : ((z.natAbs : ℕ) : ℤ) = z := by omega
    rw [signedVal_dec, habs]

theorem int0_decSigned (z : ℤ) : int0 U (decSigned z) = some z := by
  rw [int0_of_graphic (graphic_decSigned z)]
  unfold decSigned
  split_ifs with hz
  · have habs : -((z.natAbs : ℕ) : ℤ) = z := by omega
    simp only [signedVal, literalVal_dec, Option.map_some, habs]
  · have habs : ((z.natAbs : ℕ) : ℤ) = z := by omega
    simp only [signedVal, literalVal_dec, Option.map_some, habs]

theorem int0_hex (width n : ℕ) : int0 U ('0' :: 'x' :: hex width n) = some (n : ℤ) := by
  rw [int0_of_graphic]
  · simp only [signedVal, literalVal, prefixedVal_hex]
    rfl
  · intro c hc
    rcases List.mem_cons.1 hc with rfl | hc
    · decide
    · rcases List.mem_cons.1 hc with rfl | hc
      · decide
      · exact graphic_hex width n c hc

/-- A decimal number is a run of word characters, all of them digits. -/
theorem isDecimal_dec (n : ℕ) : ∀ c ∈ dec n, (U.decimal c).isSome = true := by
  intro c hc
  have hdigit : c.isDigit = true := Nat.isDigit_of_mem_toDigits (by decide) (by decide) hc
  have hlt := lt_of_graphic (graphic_dec n c hc)
  rw [U.decimal_ascii c (by omega), asciiDecimal, if_pos hdigit]
  rfl

theorem isWord_dec (n : ℕ) : ∀ c ∈ dec n, U.isWord c = true := by
  intro c hc
  have hdigit : c.isDigit = true := Nat.isDigit_of_mem_toDigits (by decide) (by decide) hc
  have hlt := lt_of_graphic (graphic_dec n c hc)
  rw [U.isWord_ascii c (by omega), asciiWord, Char.isAlphanum, hdigit]
  simp

theorem intDecimal_dec (n : ℕ) : intDecimal U (dec n) = some n := by
  rw [intDecimal, toAsciiDigits_of_graphic (graphic_dec n)]
  exact digitsVal_toDigits (by decide) (by decide) n

/-! ## Strings of bits -/

theorem foldl_digits (base : ℕ) (ds : List ℕ) (acc : ℕ) :
    ds.foldl (fun a d ↦ a * base + d) acc =
      acc * base ^ ds.length + ds.foldl (fun a d ↦ a * base + d) 0 := by
  induction ds generalizing acc with
  | nil => simp
  | cons d ds ih =>
    rw [List.foldl_cons, ih, List.foldl_cons, ih (0 * base + d), List.length_cons, pow_succ]
    ring

/-- A number that fits prints as exactly `width` binary digits. -/
theorem exists_bin {width n : ℕ} (hw : 0 < width) (hn : n < 2 ^ width) :
    ∃ ds : List ℕ, bin width n = ds.map Nat.digitChar ∧ ds.length = width ∧ (∀ d ∈ ds, d < 2) ∧
      ∀ acc, ds.foldl (fun a d ↦ a * 2 + d) acc = acc * 2 ^ width + n := by
  obtain ⟨ds, hds, -, hlt, -, hval⟩ := exists_toDigits (b := 2) (by decide) n
  have hlen : ds.length ≤ width := by
    simpa [hds] using Nat.toDigits_length 2 n width hw hn
  have hall : (List.replicate (width - ds.length) 0 ++ ds).length = width := by simp [hlen]
  refine ⟨List.replicate (width - ds.length) 0 ++ ds, ?_, hall, ?_, fun acc ↦ ?_⟩
  · simp [bin, hds]
  · intro d hd
    rcases List.mem_append.1 hd with h | h
    · rw [(List.mem_replicate.1 h).2]
      decide
    · exact hlt d h
  · rw [foldl_digits, hall, List.foldl_append, foldl_zeros, hval]

theorem binaryVal_map {ds : List ℕ} (hds : ∀ d ∈ ds, d < 2) (hne : ds ≠ []) :
    binaryVal (ds.map Nat.digitChar) = some (ds.foldl (fun a d ↦ a * 2 + d) 0) := by
  have hplain : digitsVal 2 0 false (ds.map Nat.digitChar) = _ :=
    digitsVal_map (by decide) hds 0 (.inl hne)
  unfold binaryVal
  split
  · rename_i c r heq
    have hmem : c ∈ ds.map Nat.digitChar := by simp [heq]
    obtain ⟨d, hd, rfl⟩ := List.mem_map.1 hmem
    have hbit : d = 0 ∨ d = 1 := by have := hds d hd; omega
    rw [if_neg (by rcases hbit with rfl | rfl <;> decide), hplain]
  · exact hplain

theorem graphic_digits (ds : List ℕ) : ∀ c ∈ ds.map Nat.digitChar, graphic c = true := by
  intro c hc
  obtain ⟨d, -, rfl⟩ := List.mem_map.1 hc
  exact graphic_digitChar d

theorem int2_map {ds : List ℕ} (hds : ∀ d ∈ ds, d < 2) (hne : ds ≠ []) :
    int2 U (ds.map Nat.digitChar) = some ((ds.foldl (fun a d ↦ a * 2 + d) 0 : ℕ) : ℤ) := by
  have hgraphic := graphic_digits ds
  unfold int2
  rw [strip_of_graphic hgraphic, toAsciiDigits_of_graphic hgraphic]
  split
  · rename_i heq
    obtain ⟨d, -, hd⟩ := List.mem_map.1 (heq ▸ List.mem_cons_self : '-' ∈ ds.map Nat.digitChar)
    exact absurd hd (Nat.digitChar_ne '-' (by decide))
  · rename_i heq
    obtain ⟨d, -, hd⟩ := List.mem_map.1 (heq ▸ List.mem_cons_self : '+' ∈ ds.map Nat.digitChar)
    exact absurd hd (Nat.digitChar_ne '+' (by decide))
  · rw [binaryVal_map hds hne]
    rfl

end Py
