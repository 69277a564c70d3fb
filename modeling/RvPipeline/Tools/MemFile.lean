import RvPipeline.Tools.Source
import RvPipeline.Design.Memory

/-!
# Memory files

The `.mem` format: one byte a line, as eight binary digits.  `asm.py` and `elf2mem.py` write it,
`$readmemb`, `read_mem` and the harness's `load_words` read it.
-/

namespace RvPipeline.Tools

open Py

/-! ## The writers -/

/-- `f"{b:08b}\n"`. -/
def byteLine (b : BitVec 8) : Str := bin 8 b.toNat ++ ['\n']

/-- `write_mem` of `elf2mem.py`. -/
def writeData (data : List (BitVec 8)) : Str := data.flatMap byteLine

/-- The four stores of one word, its low byte first. -/
def placeWord (data : List (BitVec 8)) (off : ℕ) (w : BitVec 32) : List (BitVec 8) :=
  (((data.set off (w.extractLsb' 0 8)).set (off + 1) (w.extractLsb' 8 8)).set (off + 2)
    (w.extractLsb' 16 8)).set (off + 3) (w.extractLsb' 24 8)

/-- The loop over the words, from word `i` on; `none` for a program that exceeds the memory. -/
def fillWords (sizeBytes : ℕ) :
    ℕ → List (BitVec 32) → List (BitVec 8) → Option (List (BitVec 8))
  | _, [], data => some data
  | i, w :: ws, data =>
    if i * 4 + 4 > sizeBytes then none else fillWords sizeBytes (i + 1) ws (placeWord data (i * 4) w)

/-- `write_mem` of `asm.py`. -/
def writeMem (words : List (BitVec 32)) (sizeBytes : ℕ) : Option Str :=
  (fillWords sizeBytes 0 words (List.replicate sizeBytes 0)).map writeData

/-! ## The readers -/

/-- What separates the numbers of a `$readmemb` file. -/
def memSpace (c : Char) : Bool := c = ' ' || c = '\n' || c = '\t' || c = '\r' || c.toNat = 12

/-- `$readmemb`, of a file of plain binary numbers. -/
def readmemb (text : Str) : Option (List (BitVec 8)) :=
  ((splitRuns memSpace true text).filter (· ≠ [])).mapM fun t ↦
    (digitsVal 2 0 false t).map (BitVec.ofNat 8)

/-- `ZERO_INIT_LIMIT`. -/
def zeroInitLimit (sizeBytes override : ℕ) : ℕ :=
  if override = 0 then if sizeBytes < 65536 then sizeBytes else 65536 else override

/-- What the `initial` block leaves in `insts`: zeros up to the limit, and over them the words of the
file. -/
def initInsts (limit : ℕ) (file : List (BitVec 8)) : ℕ → BitVec 8 := fun a ↦
  if a < limit then file.getD a 0 else 0

/-- The lines of a file, stripped, that are not blank. -/
def textLines (U : Unicode) (text : Str) : List Str :=
  ((readlines text).map (strip U)).filter (· ≠ [])

/-- The loop of `load_words`: the bits of four lines one after another, the first line on top. -/
def wordsOf (U : Unicode) : List Str → Option (List ℤ)
  | b0 :: b1 :: b2 :: b3 :: rest => do
    let w ← int2 U (b0 ++ b1 ++ b2 ++ b3)
    let ws ← wordsOf U rest
    pure (w :: ws)
  | _ => some []

def loadWords (U : Unicode) (text : Str) : Option (List ℤ) := wordsOf U (textLines U text)

/-- One line of `read_mem`; `none` for an index or a value out of range. -/
def readMemLine (U : Unicode) (buf : List (BitVec 8)) (line : Str × ℕ) : Option (List (BitVec 8)) :=
  if strip U line.1 = [] then some buf
  else do
    let v ← int2 U (strip U line.1)
    if line.2 < buf.length ∧ 0 ≤ v ∧ v < 256 then some (buf.set line.2 (BitVec.ofInt 8 v)) else none

/-- `read_mem`. -/
def readMem (U : Unicode) (text : Str) (size : ℕ) : Option (List (BitVec 8)) :=
  (readlines text).zipIdx.foldlM (readMemLine U) (List.replicate size 0)

/-- The bytes of a word the other way round. -/
def swapBytes (w : BitVec 32) : BitVec 32 :=
  w.extractLsb' 0 8 ++ w.extractLsb' 8 8 ++ w.extractLsb' 16 8 ++ w.extractLsb' 24 8

section

variable {U : Unicode} {data : List (BitVec 8)} {words : List (BitVec 32)} {size : ℕ}

/-! ## One line -/

theorem exists_byteLine (b : BitVec 8) :
    ∃ ds : List ℕ, bin 8 b.toNat = ds.map Nat.digitChar ∧ ds ≠ [] ∧ (∀ d ∈ ds, d < 2) ∧
      ∀ acc, ds.foldl (fun a d ↦ a * 2 + d) acc = acc * 256 + b.toNat := by
  obtain ⟨ds, hds, hlen, hlt, hval⟩ := exists_bin (by decide : 0 < 8) b.isLt
  refine ⟨ds, hds, ?_, hlt, hval⟩
  rintro rfl
  simp at hlen

theorem graphic_byteLine (b : BitVec 8) : ∀ c ∈ bin 8 b.toNat, graphic c = true := by
  obtain ⟨ds, hds, -⟩ := exists_byteLine b
  rw [hds]
  exact graphic_digits ds

theorem byteLine_ne_nil (b : BitVec 8) : bin 8 b.toNat ≠ [] := by
  obtain ⟨ds, hds, hne, -⟩ := exists_byteLine b
  simpa [hds] using hne

theorem int2_byteLine (b : BitVec 8) : int2 U (bin 8 b.toNat) = some (b.toNat : ℤ) := by
  obtain ⟨ds, hds, hne, hlt, hval⟩ := exists_byteLine b
  rw [hds, int2_map hlt hne, hval]
  simp

theorem toNat_append_byte {n : ℕ} (x : BitVec n) (b : BitVec 8) :
    (x ++ b).toNat = x.toNat * 256 + b.toNat := by
  rw [BitVec.toNat_append, ← Nat.shiftLeft_add_eq_or_of_lt b.isLt, Nat.shiftLeft_eq]

/-- Four lines run together are one number, the first line its top byte. -/
theorem int2_four (b0 b1 b2 b3 : BitVec 8) :
    int2 U (bin 8 b0.toNat ++ bin 8 b1.toNat ++ bin 8 b2.toNat ++ bin 8 b3.toNat) =
      some ((b0 ++ b1 ++ b2 ++ b3).toNat : ℤ) := by
  obtain ⟨ds0, h0, hne, hlt0, hval0⟩ := exists_byteLine b0
  obtain ⟨ds1, h1, -, hlt1, hval1⟩ := exists_byteLine b1
  obtain ⟨ds2, h2, -, hlt2, hval2⟩ := exists_byteLine b2
  obtain ⟨ds3, h3, -, hlt3, hval3⟩ := exists_byteLine b3
  have hlt : ∀ d ∈ ds0 ++ ds1 ++ ds2 ++ ds3, d < 2 := by
    intro d hd
    simp only [List.mem_append] at hd
    rcases hd with ((h | h) | h) | h
    exacts [hlt0 d h, hlt1 d h, hlt2 d h, hlt3 d h]
  rw [h0, h1, h2, h3, ← List.map_append, ← List.map_append, ← List.map_append,
    int2_map hlt (by simp [hne])]
  simp only [List.foldl_append, hval0, hval1, hval2, hval3, toNat_append_byte, Nat.zero_mul,
    Nat.zero_add]

theorem strip_append_space {s : Str} (h : ∀ c ∈ s, graphic c = true) (hne : s ≠ []) {d : Char}
    (hd : U.isSpace d = true) : strip U (s ++ [d]) = s := by
  have hdrop : (s ++ [d]).dropWhile U.isSpace = s ++ [d] := by
    obtain ⟨c, cs, rfl⟩ := List.exists_cons_of_ne_nil hne
    rw [List.cons_append, List.dropWhile_cons_of_neg]
    simp [isSpace_of_graphic (h c (by simp))]
  rw [strip, hdrop, List.rdropWhile_concat_pos _ _ _ hd, List.rdropWhile_eq_self_iff]
  intro hne
  simp [isSpace_of_graphic (h _ (List.getLast_mem hne))]

theorem strip_byteLine (b : BitVec 8) : strip U (byteLine b) = bin 8 b.toNat := by
  refine strip_append_space (graphic_byteLine b) (byteLine_ne_nil b) ?_
  rw [U.isSpace_ascii _ (by decide)]
  decide

/-! ## The whole file, byte by byte -/

theorem readlines_writeData (data : List (BitVec 8)) :
    readlines (writeData data) = data.map byteLine := by
  induction data with
  | nil => rfl
  | cons b data ih =>
    have hline : ∀ c ∈ bin 8 b.toNat, c ≠ '\n' := by
      rintro c hc rfl
      exact absurd (graphic_byteLine b _ hc) (by decide)
    rw [writeData, List.flatMap_cons, byteLine, List.append_assoc, List.singleton_append,
      readlines_line hline, ← writeData, ih]
    rfl

theorem textLines_writeData (data : List (BitVec 8)) :
    textLines U (writeData data) = data.map fun b ↦ bin 8 b.toNat := by
  have hstrip : (data.map byteLine).map (strip U) = data.map fun b ↦ bin 8 b.toNat := by
    simp [strip_byteLine]
  rw [textLines, readlines_writeData, hstrip, List.filter_eq_self]
  intro l hl
  obtain ⟨b, -, rfl⟩ := List.mem_map.1 hl
  simpa using byteLine_ne_nil b

/-- `$readmemb` of a written file is the data. -/
theorem readmemb_writeData (data : List (BitVec 8)) : readmemb (writeData data) = some data := by
  have hsplit : (splitRuns memSpace true (writeData data)).filter (· ≠ []) =
      data.map fun b ↦ bin 8 b.toNat := by
    induction data with
    | nil => rfl
    | cons b data ih =>
      have hline : ∀ c ∈ bin 8 b.toNat, memSpace c = false := by
        intro c hc
        have := lt_of_graphic (graphic_byteLine b c hc)
        have hne : ∀ d : Char, d.toNat < 33 → c ≠ d := by
          rintro d hd rfl
          omega
        simp [memSpace, hne ' ' (by decide), hne '\n' (by decide), hne '\t' (by decide),
          hne '\r' (by decide)]
        omega
      rw [writeData, List.flatMap_cons, byteLine, List.append_assoc, List.singleton_append,
        splitRuns_append true hline (byteLine_ne_nil b) (by decide), ← writeData,
        List.filter_cons_of_pos (by simpa using byteLine_ne_nil b), ih, List.map_cons]
  have hread : ∀ b : BitVec 8,
      (digitsVal 2 0 false (bin 8 b.toNat)).map (BitVec.ofNat 8) = pure b := by
    intro b
    obtain ⟨ds, hds, hne, hlt, hval⟩ := exists_byteLine b
    rw [hds, digitsVal_map (by decide) hlt 0 (.inl hne), hval]
    simp
  have hpure := List.mapM_pure (m := Option) (l := data) (f := id)
  rw [readmemb, hsplit, List.mapM_map]
  simpa [Function.comp_def, hread] using hpure

/-- `read_mem` undoes `write_mem`, into a buffer that is long enough. -/
theorem foldlM_readMemLine (data done rest : List (BitVec 8)) (h : data.length ≤ rest.length) :
    ((data.map byteLine).zipIdx done.length).foldlM (readMemLine U) (done ++ rest) =
      some (done ++ data ++ rest.drop data.length) := by
  induction data generalizing done rest with
  | nil => simp
  | cons b data ih =>
    obtain ⟨r, rest, rfl⟩ := List.exists_cons_of_ne_nil (l := rest) (by rintro rfl; simp at h)
    have hb := b.isLt
    have hline : readMemLine U (done ++ r :: rest) (byteLine b, done.length) =
        some ((done ++ [b]) ++ rest) := by
      have hof : BitVec.ofInt 8 (b.toNat : ℤ) = b := by simp
      rw [readMemLine]
      simp only [strip_byteLine, byteLine_ne_nil, if_false, int2_byteLine, Option.bind_eq_bind,
        Option.bind_some]
      rw [if_pos (by simp; omega), hof]
      simp
    have hih := ih (done ++ [b]) rest (by simpa using h)
    rw [List.map_cons, List.zipIdx_cons, List.foldlM_cons, hline]
    simpa using hih

theorem readMem_writeData (data : List (BitVec 8)) (h : data.length ≤ size) :
    readMem U (writeData data) size = some (data ++ List.replicate (size - data.length) 0) := by
  have hfold := foldlM_readMemLine (U := U) data [] (List.replicate size 0) (by simpa using h)
  rw [readMem, readlines_writeData]
  simpa using hfold

/-! ## The bytes of a program -/

@[simp] theorem length_placeWord (off : ℕ) (w : BitVec 32) :
    (placeWord data off w).length = data.length := by simp [placeWord]

theorem getD_placeWord {off : ℕ} (h : off + 4 ≤ data.length) (w : BitVec 32) (a : ℕ) :
    (placeWord data off w).getD a 0 =
      if off ≤ a ∧ a < off + 4 then w.extractLsb' (8 * (a - off)) 8 else data.getD a 0 := by
  by_cases hin : off ≤ a ∧ a < off + 4
  · rw [if_pos hin]
    obtain h' | h' | h' | h' : a = off ∨ a = off + 1 ∨ a = off + 2 ∨ a = off + 3 := by omega
    all_goals
      subst h'
      simp only [placeWord, List.getD_eq_getElem?_getD, List.getElem?_set, List.length_set]
      simp
      rw [if_pos (by omega)]
      rfl
  · rw [if_neg hin]
    simp only [placeWord, List.getD_eq_getElem?_getD, List.getElem?_set]
    rw [if_neg (by omega), if_neg (by omega), if_neg (by omega), if_neg (by omega)]

theorem instsOfWords_cons (w : BitVec 32) (ws : List (BitVec 32)) (a : ℕ) :
    instsOfWords (w :: ws) a = if a < 4 then w.extractLsb' (8 * a) 8 else instsOfWords ws (a - 4) := by
  unfold instsOfWords
  split_ifs with h
  · rw [Nat.div_eq_of_lt h, Nat.mod_eq_of_lt h, List.getD_cons_zero]
  · have hdiv : a / 4 = (a - 4) / 4 + 1 := by omega
    have hmod : a % 4 = (a - 4) % 4 := by omega
    rw [hdiv, hmod, List.getD_cons_succ]

theorem instsOfWords_of_le {a : ℕ} (h : 4 * words.length ≤ a) : instsOfWords words a = 0 := by
  rw [instsOfWords, List.getD_eq_default _ _ (by omega)]
  simp

/-- From word `i` on: the words that are left lie from `4 * i` on, and nothing else changes. -/
theorem fillWords_some (i : ℕ) (words : List (BitVec 32)) (data : List (BitVec 8))
    (hdata : data.length = size) (h : i * 4 + 4 * words.length ≤ size) :
    ∃ filled, fillWords size i words data = some filled ∧ filled.length = size ∧
      ∀ a, filled.getD a 0 = if i * 4 ≤ a ∧ a < i * 4 + 4 * words.length then
        instsOfWords words (a - i * 4) else data.getD a 0 := by
  induction words generalizing i data with
  | nil =>
    refine ⟨data, rfl, hdata, fun a ↦ ?_⟩
    rw [if_neg (by simp)]
  | cons w ws ih =>
    rw [List.length_cons] at h
    obtain ⟨filled, hfill, hlen, hget⟩ :=
      ih (i + 1) (placeWord data (i * 4) w) (by simpa using hdata) (by omega)
    refine ⟨filled, by rw [fillWords, if_neg (by omega), hfill], hlen, fun a ↦ ?_⟩
    rw [hget, getD_placeWord (by omega), instsOfWords_cons, List.length_cons]
    by_cases hlate : (i + 1) * 4 ≤ a
    · have hsub : a - (i + 1) * 4 = a - i * 4 - 4 := by omega
      rw [if_neg (c := i * 4 ≤ a ∧ a < i * 4 + 4) (by omega), if_neg (c := a - i * 4 < 4) (by omega),
        hsub]
      exact if_congr (by omega) rfl rfl
    · rw [if_neg (by omega)]
      by_cases hin : i * 4 ≤ a
      · rw [if_pos (by omega), if_pos (by omega), if_pos (by omega)]
      · rw [if_neg (by omega), if_neg (by omega)]

theorem fillWords_none (i : ℕ) (words : List (BitVec 32)) (data : List (BitVec 8))
    (hi : i * 4 ≤ size) (h : size < i * 4 + 4 * words.length) :
    fillWords size i words data = none := by
  induction words generalizing i data with
  | nil =>
    simp only [List.length_nil] at h
    omega
  | cons w ws ih =>
    rw [fillWords]
    split_ifs with hfit
    · rfl
    · rw [List.length_cons] at h
      exact ih (i + 1) _ (by omega) (by omega)

/-- The bytes a program becomes: the memory the core fetches from, up to the size. -/
theorem fillWords_eq (h : 4 * words.length ≤ size) :
    fillWords size 0 words (List.replicate size 0) =
      some ((List.range size).map (instsOfWords words)) := by
  obtain ⟨filled, hfill, hlen, hget⟩ :=
    fillWords_some 0 words (List.replicate size 0) List.length_replicate (by omega)
  rw [hfill, Option.some.injEq]
  apply List.ext_getElem (by simpa using hlen)
  intro a ha _
  have hbyte := hget a
  rw [List.getD_eq_getElem _ _ ha] at hbyte
  rw [hbyte, List.getElem_map, List.getElem_range]
  split_ifs with hin
  · simp
  · rw [instsOfWords_of_le (by omega), List.getD_replicate _ (by omega)]

/-! ## The words read back -/

/-- Four lines make a word, the first its top byte; up to three lines at the end are dropped. -/
theorem wordsOf_range (n : ℕ) (f : ℕ → BitVec 8) :
    wordsOf U ((List.range n).map fun a ↦ bin 8 (f a).toNat) =
      some ((List.range (n / 4)).map fun i ↦
        ((f (4 * i) ++ f (4 * i + 1) ++ f (4 * i + 2) ++ f (4 * i + 3)).toNat : ℤ)) := by
  induction n using Nat.strong_induction_on generalizing f with
  | _ n ih =>
    rcases Nat.lt_or_ge n 4 with hlt | hge
    · have hnone : n / 4 = 0 := by omega
      rw [hnone]
      interval_cases n <;> rfl
    · obtain ⟨m, rfl⟩ : ∃ m, n = m + 4 := ⟨n - 4, by omega⟩
      have hih := ih m (by omega) fun a ↦ f (a + 4)
      have hdiv : (m + 4) / 4 = m / 4 + 1 := by omega
      have hrange : (List.range (m + 4)).map (fun a ↦ bin 8 (f a).toNat) =
          bin 8 (f 0).toNat :: bin 8 (f 1).toNat :: bin 8 (f 2).toNat :: bin 8 (f 3).toNat ::
            (List.range m).map fun a ↦ bin 8 (f (a + 4)).toNat := by
        simp [List.range_succ_eq_map, Function.comp_def]
      rw [hrange, wordsOf, int2_four, hih, hdiv, List.range_succ_eq_map]
      simp [Function.comp_def, Nat.mul_add]

theorem swapBytes_getD (words : List (BitVec 32)) (i : ℕ) :
    instsOfWords words (4 * i) ++ instsOfWords words (4 * i + 1) ++ instsOfWords words (4 * i + 2) ++
      instsOfWords words (4 * i + 3) = swapBytes (words.getD i 0) := by
  have h0 : 4 * i / 4 = i := by omega
  have h1 : (4 * i + 1) / 4 = i := by omega
  have h2 : (4 * i + 2) / 4 = i := by omega
  have h3 : (4 * i + 3) / 4 = i := by omega
  have m1 : (4 * i + 1) % 4 = 1 := by omega
  have m2 : (4 * i + 2) % 4 = 2 := by omega
  have m3 : (4 * i + 3) % 4 = 3 := by omega
  simp only [instsOfWords, swapBytes, h0, h1, h2, h3, m1, m2, m3, Nat.mul_mod_right, Nat.mul_zero,
    Nat.mul_one, Nat.reduceMul]

theorem loadWords_writeData (words : List (BitVec 32)) (size : ℕ) :
    loadWords U (writeData ((List.range size).map (instsOfWords words))) =
      some ((List.range (size / 4)).map fun i ↦ ((swapBytes (words.getD i 0)).toNat : ℤ)) := by
  have hread := wordsOf_range (U := U) size (instsOfWords words)
  simp only [swapBytes_getD] at hread
  rw [loadWords, textLines_writeData, List.map_map]
  exact hread

/-- The program as the assembler had it comes back exactly if every word reads the same from both
ends. -/
theorem swapBytes_eq_iff (h : 4 * words.length ≤ size) :
    ((List.range (size / 4)).map fun i ↦ ((swapBytes (words.getD i 0)).toNat : ℤ)) =
        (List.range (size / 4)).map (fun i ↦ ((words.getD i 0).toNat : ℤ)) ↔
      ∀ w ∈ words, swapBytes w = w := by
  rw [List.map_inj_left]
  constructor
  · intro hall w hw
    obtain ⟨i, hi, rfl⟩ := List.getElem_of_mem hw
    have hword := hall i (List.mem_range.2 (by omega))
    rw [List.getD_eq_getElem _ _ hi] at hword
    exact BitVec.eq_of_toNat_eq (by exact_mod_cast hword)
  · intro hall i _
    rcases Nat.lt_or_ge i words.length with hi | hi
    · rw [List.getD_eq_getElem _ _ hi, hall _ (List.getElem_mem hi)]
    · rw [List.getD_eq_default _ _ hi]
      rfl

/-- The instruction memory holds the program, as far as it is initialised. -/
theorem initInsts_program (h : 4 * words.length ≤ size) (limit a : ℕ) :
    initInsts limit ((List.range size).map (instsOfWords words)) a =
      if a < limit then instsOfWords words a else 0 := by
  rw [initInsts]
  rcases Nat.lt_or_ge a size with ha | ha
  · rw [List.getD_eq_getElem _ _ (by simpa using ha), List.getElem_map, List.getElem_range]
  · rw [List.getD_eq_default _ _ (by simpa using ha), instsOfWords_of_le (h.trans ha)]

theorem initInsts_eq (h : 4 * words.length ≤ size) {limit : ℕ} (hlimit : 4 * words.length ≤ limit) :
    initInsts limit ((List.range size).map (instsOfWords words)) = instsOfWords words := by
  funext a
  rw [initInsts_program h]
  split_ifs with ha
  · rfl
  · exact (instsOfWords_of_le (by omega)).symm

end

/-- What `asm.py` writes: nothing for a program that exceeds the memory; else a file that puts the
program's own words into the instruction memory, up to `ZERO_INIT_LIMIT`, comes back from `read_mem`
as it is, and comes back from `load_words` with the bytes of every word the other way round, so that
the words compared are the ones assembled exactly if each of them is its own reversal. -/
theorem mem_file_readers (U : Unicode) (words : List (BitVec 32)) (size : ℕ) :
    (writeMem words size = none ↔ size < 4 * words.length) ∧
      ∀ text, writeMem words size = some text →
        (∃ bytes, readmemb text = some bytes ∧ readMem U text size = some bytes ∧
          writeData bytes = text ∧ ∀ override,
            (∀ a, initInsts (zeroInitLimit size override) bytes a =
              if a < zeroInitLimit size override then instsOfWords words a else 0) ∧
            (4 * words.length ≤ zeroInitLimit size override →
              initInsts (zeroInitLimit size override) bytes = instsOfWords words)) ∧
        ∃ loaded, loadWords U text = some loaded ∧
          loaded = (List.range (size / 4)).map (fun i ↦ ((swapBytes (words.getD i 0)).toNat : ℤ)) ∧
          (loaded = (List.range (size / 4)).map (fun i ↦ ((words.getD i 0).toNat : ℤ)) ↔
            ∀ w ∈ words, swapBytes w = w) := by
  rcases Nat.lt_or_ge size (4 * words.length) with hlong | hfit
  · have hnone : writeMem words size = none := by
      rw [writeMem, fillWords_none 0 words _ (by omega) (by omega), Option.map_none]
    exact ⟨iff_of_true hnone hlong, fun text htext ↦ absurd (hnone.symm.trans htext) (by simp)⟩
  · have hsome : writeMem words size =
        some (writeData ((List.range size).map (instsOfWords words))) := by
      rw [writeMem, fillWords_eq hfit, Option.map_some]
    refine ⟨iff_of_false (by simp [hsome]) (by omega), fun text htext ↦ ?_⟩
    obtain rfl := Option.some.inj (hsome.symm.trans htext)
    have hread : readMem U (writeData ((List.range size).map (instsOfWords words))) size =
        some ((List.range size).map (instsOfWords words)) := by
      rw [readMem_writeData _ (by simp)]
      simp
    exact ⟨⟨_, readmemb_writeData _, hread, rfl, fun override ↦
      ⟨initInsts_program hfit _, initInsts_eq hfit⟩⟩, _, loadWords_writeData words size, rfl,
      swapBytes_eq_iff hfit⟩

/-- The file of a halting jump: fetched as the jump, read back as another word. -/
theorem mem_file_readers_halt : ∃ text bytes loaded, writeMem [0x0000006F] 4 = some text ∧
    readmemb text = some bytes ∧
      initInsts (zeroInitLimit 4 0) bytes = instsOfWords [0x0000006F] ∧
        loadWords Unicode.ascii text = some loaded ∧ loaded ≠ [0x0000006F] := by
  obtain ⟨hnone, hfile⟩ := mem_file_readers Unicode.ascii [0x0000006F] 4
  obtain ⟨text, htext⟩ := Option.ne_none_iff_exists'.mp (mt hnone.mp (by decide))
  obtain ⟨⟨bytes, hbytes, -, -, hinsts⟩, loaded, hload, -, hiff⟩ := hfile text htext
  refine ⟨text, bytes, loaded, htext, hbytes, (hinsts 0).2 (by decide), hload, fun h ↦ ?_⟩
  exact absurd (hiff.mp h 0x0000006F List.mem_cons_self) (by decide)

end RvPipeline.Tools
