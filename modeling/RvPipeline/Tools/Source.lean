import RvPipeline.Tools.Printed

/-!
# Source texts

A text put together line by line, read back by `readlines` and assembled: pass 1 finds the statements
at successive words and the labels between them, and pass 2 encodes each statement by itself.
-/

namespace RvPipeline.Tools

open Py

/-- Operands, separated by a comma and a blank. -/
def operands : List Str → Str
  | [] => []
  | [op] => op
  | op :: ops => op ++ ',' :: ' ' :: operands ops

/-- A line as a program writes it: a mnemonic, `pad` blanks more than one, and operands; or a
label. -/
inductive Line where
  | stmt (mn : Str) (pad : ℕ) (ops : List Str)
  | label (name : Str)

namespace Line

def text : Line → Str
  | .stmt mn pad ops =>
    if ops = [] then mn else mn ++ ' ' :: (List.replicate pad ' ' ++ operands ops)
  | .label name => name ++ [':']

/-- The line is read as it was put together. -/
def Good : Line → Prop
  | .stmt mn _ ops => (∃ f, Known mn f) ∧ ∀ o ∈ ops, IsToken o
  | .label name => IsToken name

def isStmt : Line → Bool
  | .stmt .. => true
  | .label _ => false

end Line

/-- `"\n".join(lines) + "\n"`. -/
def joinLines (lines : List Line) : Str := ['\n'].intercalate (lines.map Line.text) ++ ['\n']

/-- `readlines`: every line with its newline. -/
def readlines : Str → List Str
  | [] => []
  | c :: s =>
    if c = '\n' then ['\n'] :: readlines s
    else match readlines s with
      | [] => [[c]]
      | l :: ls => (c :: l) :: ls

/-- The number of words of a text, as the generator of the text counts them. -/
def instrCount (lines : List Line) : ℕ := lines.countP Line.isStmt

section Text

variable {U : Unicode}

/-! ## The characters of a line -/

theorem mem_operands {ops : List Str} (hops : ∀ o ∈ ops, IsToken o) :
    ∀ c ∈ operands ops, tokenChar c = true ∨ c = ',' ∨ c = ' ' := by
  induction ops with
  | nil => simp [operands]
  | cons op ops ih =>
    intro c hc
    have hop := hops op (by simp)
    cases ops with
    | nil => exact .inl (hop.all c hc)
    | cons op' ops =>
      rw [operands, List.mem_append, List.mem_cons, List.mem_cons] at hc
      · rcases hc with hc | rfl | rfl | hc
        · exact .inl (hop.all c hc)
        · exact .inr (.inl rfl)
        · exact .inr (.inr rfl)
        · exact ih (fun o ho ↦ hops o (by simp [ho])) c hc
      · simp

theorem getLast_operands {ops : List Str} (hne : ops ≠ []) (hops : ∀ o ∈ ops, IsToken o) :
    ∃ c, (operands ops).getLast? = some c ∧ tokenChar c = true := by
  induction ops with
  | nil => exact absurd rfl hne
  | cons op ops ih =>
    have hop := hops op (by simp)
    cases ops with
    | nil =>
      refine ⟨op.getLast hop.ne_nil, ?_, hop.all _ (List.getLast_mem _)⟩
      exact List.getLast?_eq_getLast_of_ne_nil hop.ne_nil
    | cons op' ops =>
      obtain ⟨c, hc, htok⟩ := ih (by simp) (fun o ho ↦ hops o (by simp [ho]))
      refine ⟨c, ?_, htok⟩
      rw [operands, List.getLast?_append, List.getLast?_cons, List.getLast?_cons, hc]
      · rfl
      · simp

/-- No line holds the start of a comment or the end of a line. -/
theorem mem_text {l : Line} (h : l.Good) : ∀ c ∈ l.text, c ≠ '#' ∧ c ≠ '\n' := by
  have htok : ∀ c, tokenChar c = true → c ≠ '#' ∧ c ≠ '\n' := by
    intro c hc
    constructor <;> rintro rfl <;> exact absurd hc (by decide)
  intro c hc
  cases l with
  | label name =>
    rcases List.mem_append.mp hc with hc | hc
    · exact htok c (IsToken.all h c hc)
    · obtain rfl : c = ':' := by simpa using hc
      decide
  | stmt mn pad ops =>
    obtain ⟨⟨f, hmn⟩, hops⟩ := h
    rw [Line.text] at hc
    split_ifs at hc with hne
    · exact htok c (hmn.token.all c hc)
    · rw [List.mem_append, List.mem_cons, List.mem_append, List.mem_replicate] at hc
      rcases hc with hc | rfl | ⟨-, rfl⟩ | hc
      · exact htok c (hmn.token.all c hc)
      · decide
      · decide
      · rcases mem_operands hops c hc with hc | rfl | rfl
        · exact htok c hc
        · decide
        · decide

theorem strip_newline {s : Str} {c d : Char} (hhead : s.head? = some c) (hc : graphic c = true)
    (hlast : s.getLast? = some d) (hd : graphic d = true) : strip U (s ++ ['\n']) = s := by
  have hstrip := strip_of_ends (U := U) hhead hc hlast hd
  have hnl : U.isSpace '\n' = true := by
    rw [U.isSpace_ascii '\n' (by decide)]
    decide
  obtain ⟨a, t, rfl⟩ : ∃ a t, s = a :: t := by
    cases s with
    | nil => simp at hhead
    | cons a t => exact ⟨a, t, rfl⟩
  obtain rfl : a = c := by simpa using hhead
  have hdrop : ∀ t' : Str, (a :: t').dropWhile U.isSpace = a :: t' := fun t' ↦
    List.dropWhile_cons_of_neg (by simp [isSpace_of_graphic hc])
  rw [strip, List.cons_append, hdrop, ← List.cons_append, List.rdropWhile_concat_pos _ _ _ hnl]
  rwa [strip, hdrop] at hstrip

/-! ## What pass 1 makes of a line -/

theorem takeWhile_hash {l : Line} (h : l.Good) :
    (l.text ++ ['\n']).takeWhile (· ≠ '#') = l.text ++ ['\n'] := by
  rw [List.takeWhile_eq_self_iff]
  intro c hc
  rcases List.mem_append.mp hc with hc | hc
  · simpa using (mem_text h c hc).1
  · obtain rfl : c = '\n' := by simpa using hc
    decide

theorem scan_label {name : Str} (h : IsToken name) (p : Pass1) :
    p.scan U ((Line.label name).text ++ ['\n']) =
      { p with labels := (name, p.addr) :: p.labels } := by
  obtain ⟨a, t, rfl⟩ := List.exists_cons_of_ne_nil h.ne_nil
  have ha := h.graphic a (by simp)
  have hstrip : strip U ((Line.label (a :: t)).text ++ ['\n']) = (a :: t) ++ [':'] :=
    strip_newline (c := a) (d := ':') rfl ha (by rw [Line.text, List.getLast?_append]; rfl) (by decide)
  have hname : strip U (a :: t) = a :: t := strip_of_graphic h.graphic
  have hcolon : ((a :: t) ++ [':']).getLast? = some ':' := by rw [List.getLast?_append]; rfl
  rw [Pass1.scan, takeWhile_hash (l := .label (a :: t)) h]
  simp only [hstrip]
  rw [if_neg (by simp), if_pos hcolon, List.dropLast_concat, hname]

/-- The ends of a statement. -/
theorem text_stmt_ends {mn : Str} (pad : ℕ) {ops : List Str} {f : Form} (hmn : Known mn f)
    (hops : ∀ o ∈ ops, IsToken o) :
    (∃ c, (Line.stmt mn pad ops).text.head? = some c ∧ graphic c = true) ∧
      ∃ d, (Line.stmt mn pad ops).text.getLast? = some d ∧ tokenChar d = true := by
  obtain ⟨a, t, rfl⟩ := List.exists_cons_of_ne_nil hmn.token.ne_nil
  rw [Line.text]
  split_ifs with hne
  · refine ⟨⟨a, rfl, hmn.token.graphic a (by simp)⟩, (a :: t).getLast (by simp), ?_,
      hmn.token.all _ (List.getLast_mem _)⟩
    exact List.getLast?_eq_getLast_of_ne_nil (by simp)
  · refine ⟨⟨a, rfl, hmn.token.graphic a (by simp)⟩, ?_⟩
    obtain ⟨d, hd, htok⟩ := getLast_operands hne hops
    refine ⟨d, ?_, htok⟩
    rw [List.getLast?_append, List.getLast?_cons, List.getLast?_append, hd]
    rfl

theorem scan_stmt {mn : Str} (pad : ℕ) {ops : List Str} {f : Form} (hmn : Known mn f)
    (hops : ∀ o ∈ ops, IsToken o) (p : Pass1) :
    p.scan U ((Line.stmt mn pad ops).text ++ ['\n']) =
      { p with
        stmts := p.stmts ++ [(p.addr, (Line.stmt mn pad ops).text)]
        addr := p.addr + 4 } := by
  obtain ⟨⟨c, hhead, hc⟩, d, hlast, hd⟩ := text_stmt_ends pad hmn hops
  have hstrip := strip_newline (U := U) hhead hc hlast (graphic_of_tokenChar hd)
  rw [Pass1.scan, takeWhile_hash (l := .stmt mn pad ops) ⟨⟨f, hmn⟩, hops⟩]
  simp only [hstrip]
  rw [if_neg (by rintro h; rw [h] at hhead; cases hhead), if_neg ?_]
  rw [hlast]
  simpa using ne_colon_of_tokenChar hd

theorem splitRuns_replicate (pad : ℕ) (s : Str) :
    splitRuns (isSep U) true (List.replicate pad ' ' ++ s) = splitRuns (isSep U) true s := by
  induction pad with
  | zero => rfl
  | succ pad ih =>
    rw [List.replicate_succ, List.cons_append, splitRuns, if_pos (by simp [isSep, isSpace_blank]),
      if_pos rfl, ih]

theorem splitRuns_operands {ops : List Str} (hne : ops ≠ []) (hops : ∀ o ∈ ops, IsToken o)
    (prev : Bool) : splitRuns (isSep U) prev (operands ops) = ops := by
  induction ops generalizing prev with
  | nil => exact absurd rfl hne
  | cons op ops ih =>
    have hop := hops op (by simp)
    cases ops with
    | nil => exact splitRuns_single prev hop.not_sep hop.ne_nil
    | cons op' ops =>
      rw [operands, splitRuns_append prev hop.not_sep hop.ne_nil (by simp [isSep]), splitRuns,
        if_pos (by simp [isSep, isSpace_blank]), if_pos rfl,
        ih (by simp) (fun o ho ↦ hops o (by simp [ho]))]
      simp

/-- A statement is encoded by its mnemonic and its operands. -/
theorem statement_text {mn : Str} {pad : ℕ} {ops : List Str} {f : Form} (hmn : Known mn f)
    (hops : ∀ o ∈ ops, IsToken o) (xlen : ℕ) (labels : List (Str × ℕ)) (addr : ℕ) :
    statement U xlen labels addr (Line.stmt mn pad ops).text = encode U xlen labels addr f ops := by
  obtain ⟨⟨c, hhead, hc⟩, d, hlast, hd⟩ := text_stmt_ends pad hmn hops
  have hstrip := strip_of_ends (U := U) hhead hc hlast (graphic_of_tokenChar hd)
  have hparts : parts U (Line.stmt mn pad ops).text = mn :: ops := by
    rw [parts, hstrip, Line.text]
    split_ifs with hne
    · rw [hne]
      exact splitRuns_single false hmn.token.not_sep hmn.token.ne_nil
    · change splitRuns (isSep U) false _ = _
      rw [splitRuns_append false hmn.token.not_sep hmn.token.ne_nil (by simp [isSep, isSpace_blank]),
        splitRuns_replicate, splitRuns_operands hne hops]
  simp only [statement, mnemonic, hparts, List.headD_cons, List.tail_cons,
    lower_of_token hmn.token hmn.lower, hmn.lookup]

/-! ## Reading the lines back -/

theorem readlines_line {s : Str} (h : ∀ c ∈ s, c ≠ '\n') (rest : Str) :
    readlines (s ++ '\n' :: rest) = (s ++ ['\n']) :: readlines rest := by
  induction s with
  | nil => rfl
  | cons c s ih =>
    rw [List.cons_append, readlines, if_neg (h c (by simp)), ih (fun d hd ↦ h d (by simp [hd]))]
    rfl

theorem joinLines_cons (l l' : Line) (ls : List Line) :
    joinLines (l :: l' :: ls) = l.text ++ '\n' :: joinLines (l' :: ls) := by
  simp [joinLines, List.intercalate]

theorem readlines_joinLines {lines : List Line} (hne : lines ≠ []) (h : ∀ l ∈ lines, l.Good) :
    readlines (joinLines lines) = lines.map fun l ↦ l.text ++ ['\n'] := by
  induction lines with
  | nil => exact absurd rfl hne
  | cons l ls ih =>
    have hl := readlines_line fun c hc ↦ (mem_text (h l (by simp)) c hc).2
    cases ls with
    | nil =>
      have hjoin : joinLines [l] = l.text ++ '\n' :: [] := by simp [joinLines, List.intercalate]
      rw [hjoin, hl]
      rfl
    | cons l' ls =>
      rw [joinLines_cons, hl, ih (by simp) (fun l hl ↦ h l (by simp [hl]))]
      rfl

/-! ## The two passes over the lines -/

/-- The statements, each at its address. -/
def place : ℕ → List Line → List (ℕ × Line)
  | _, [] => []
  | addr, .label _ :: ls => place addr ls
  | addr, .stmt mn pad ops :: ls => (addr, .stmt mn pad ops) :: place (addr + 4) ls

/-- Where the last label of a name is. -/
def labelAddr (name : Str) : ℕ → List Line → Option ℕ
  | _, [] => none
  | addr, .label n :: ls => (labelAddr name addr ls).or (if n = name then some addr else none)
  | addr, .stmt .. :: ls => labelAddr name (addr + 4) ls

theorem foldl_scan (lines : List Line) (h : ∀ l ∈ lines, l.Good) (p : Pass1) :
    ((lines.map fun l ↦ l.text ++ ['\n']).foldl (Pass1.scan U) p).stmts =
        p.stmts ++ (place p.addr lines).map (fun e ↦ (e.1, e.2.text)) ∧
      ∀ name, ((lines.map fun l ↦ l.text ++ ['\n']).foldl (Pass1.scan U) p).labels.lookup name =
        (labelAddr name p.addr lines).or (p.labels.lookup name) := by
  induction lines generalizing p with
  | nil => exact ⟨by simp [place], fun name ↦ by simp [labelAddr]⟩
  | cons l ls ih =>
    have hls := fun l hl ↦ h l (List.mem_cons_of_mem _ hl)
    cases l with
    | label n =>
      have hscan := scan_label (U := U) (h (.label n) List.mem_cons_self) p
      obtain ⟨hstmts, hlabels⟩ := ih hls { p with labels := (n, p.addr) :: p.labels }
      rw [List.map_cons, List.foldl_cons, hscan]
      refine ⟨hstmts, fun name ↦ ?_⟩
      rw [hlabels, labelAddr, Option.or_assoc, List.lookup_cons]
      by_cases hname : n = name
      · simp [hname]
      · have hbeq : (name == n) = false := by simpa using Ne.symm hname
        simp [hname, hbeq]
    | stmt mn pad ops =>
      obtain ⟨⟨f, hmn⟩, hops⟩ := h (.stmt mn pad ops) List.mem_cons_self
      have hscan := scan_stmt (U := U) pad hmn hops p
      obtain ⟨hstmts, hlabels⟩ := ih hls
        { p with
          stmts := p.stmts ++ [(p.addr, (Line.stmt mn pad ops).text)]
          addr := p.addr + 4 }
      rw [List.map_cons, List.foldl_cons, hscan]
      exact ⟨by rw [hstmts]; simp [place], hlabels⟩

/-- The encoding of a statement; a label has none. -/
def encodeLine (U : Unicode) (xlen : ℕ) (labels : List (Str × ℕ)) (addr : ℕ) (l : Line) :
    Except AsmError (BitVec 32) :=
  statement U xlen labels addr l.text

theorem mapM_ok_iff {α β ε : Type} {f : α → Except ε β} {l : List α} {bs : List β} :
    l.mapM f = .ok bs ↔ List.Forall₂ (fun a b ↦ f a = .ok b) l bs := by
  induction l generalizing bs with
  | nil => cases bs <;> simp [pure, Except.pure]
  | cons a l ih =>
    rw [List.mapM_cons]
    cases hf : f a with
    | error e =>
      constructor
      · intro h
        cases h
      · intro h
        cases h with
        | cons hb _ =>
          rw [hf] at hb
          cases hb
    | ok b =>
      cases hl : l.mapM f with
      | error e =>
        constructor
        · intro h
          cases h
        · intro h
          cases h with
          | cons _ hbs =>
            rw [ih.mpr hbs] at hl
            cases hl
      | ok bs' =>
        constructor
        · intro h
          cases h
          exact .cons hf (ih.mp hl)
        · intro h
          cases h with
          | cons hb hbs =>
            rw [hf] at hb
            rw [ih.mpr hbs] at hl
            cases hb
            cases hl
            rfl

/-- A text assembles to the encodings of its statements, one after another. -/
theorem assemble_joinLines (xlen : ℕ) {lines : List Line} (hne : lines ≠ [])
    (h : ∀ l ∈ lines, l.Good) :
    ∃ labels : List (Str × ℕ), (∀ name, labels.lookup name = labelAddr name 0 lines) ∧
      ∀ ws, assemble U xlen (readlines (joinLines lines)) = .ok ws ↔
        List.Forall₂ (fun e w ↦ encodeLine U xlen labels e.1 e.2 = .ok w) (place 0 lines) ws := by
  obtain ⟨hstmts, hlabels⟩ := foldl_scan (U := U) lines h {}
  refine ⟨(pass1 U (lines.map fun l ↦ l.text ++ ['\n'])).labels, fun name ↦ ?_, fun ws ↦ ?_⟩
  · rw [pass1, hlabels]
    simp
  · rw [readlines_joinLines hne h, assemble, mapM_ok_iff, pass1, hstmts, List.nil_append,
      List.forall₂_map_left_iff]
    rfl

/-- Without its newline a line is read the same. -/
theorem scan_text {l : Line} (h : l.Good) (p : Pass1) :
    p.scan U l.text = p.scan U (l.text ++ ['\n']) := by
  have htake : l.text.takeWhile (· ≠ '#') = l.text := by
    rw [List.takeWhile_eq_self_iff]
    intro c hc
    simpa using (mem_text h c hc).1
  have hends : ∃ c d, l.text.head? = some c ∧ graphic c = true ∧ l.text.getLast? = some d ∧
      graphic d = true := by
    cases l with
    | label name =>
      obtain ⟨a, t, rfl⟩ := List.exists_cons_of_ne_nil h.ne_nil
      exact ⟨a, ':', rfl, IsToken.graphic h a (by simp), by rw [Line.text, List.getLast?_append]; rfl,
        by decide⟩
    | stmt mn pad ops =>
      obtain ⟨⟨f, hmn⟩, hops⟩ := h
      obtain ⟨⟨c, hhead, hc⟩, d, hlast, hd⟩ := text_stmt_ends pad hmn hops
      exact ⟨c, d, hhead, hc, hlast, graphic_of_tokenChar hd⟩
  obtain ⟨c, d, hhead, hc, hlast, hd⟩ := hends
  have hstrip := strip_of_ends (U := U) hhead hc hlast hd
  have hstrip' := strip_newline (U := U) hhead hc hlast hd
  rw [Pass1.scan, Pass1.scan, htake, takeWhile_hash h]
  simp only [hstrip, hstrip']

theorem assemble_map_text (xlen : ℕ) {lines : List Line} (h : ∀ l ∈ lines, l.Good) :
    assemble U xlen (lines.map Line.text) = assemble U xlen (lines.map fun l ↦ l.text ++ ['\n']) := by
  have hfold : ∀ (ls : List Line) (p : Pass1), (∀ l ∈ ls, l.Good) →
      (ls.map Line.text).foldl (Pass1.scan U) p =
        (ls.map fun l ↦ l.text ++ ['\n']).foldl (Pass1.scan U) p := by
    intro ls
    induction ls with
    | nil => intro p _; rfl
    | cons l ls ih =>
      intro p hls
      rw [List.map_cons, List.map_cons, List.foldl_cons, List.foldl_cons,
        scan_text (hls l List.mem_cons_self), ih _ fun l hl ↦ hls l (List.mem_cons_of_mem _ hl)]
  rw [assemble, assemble, pass1, pass1, hfold lines {} h]

@[simp] theorem instrCount_nil : instrCount [] = 0 := rfl

@[simp] theorem instrCount_label (n : Str) (ls : List Line) :
    instrCount (.label n :: ls) = instrCount ls := by
  rw [instrCount, List.countP_cons_of_neg (by simp [Line.isStmt]), instrCount]

@[simp] theorem instrCount_stmt (mn : Str) (pad : ℕ) (ops : List Str) (ls : List Line) :
    instrCount (.stmt mn pad ops :: ls) = instrCount ls + 1 := by
  rw [instrCount, List.countP_cons_of_pos (by simp [Line.isStmt]), instrCount]

@[simp] theorem instrCount_append (ls ls' : List Line) :
    instrCount (ls ++ ls') = instrCount ls + instrCount ls' := List.countP_append

theorem place_append (addr : ℕ) (ls ls' : List Line) :
    place addr (ls ++ ls') = place addr ls ++ place (addr + 4 * instrCount ls) ls' := by
  induction ls generalizing addr with
  | nil => simp [place]
  | cons l ls ih =>
    cases l with
    | label n => simpa [place] using ih addr
    | stmt mn pad ops =>
      rw [List.cons_append, place, place, ih, instrCount_stmt, List.cons_append]
      congr 3
      ring

theorem labelAddr_append (name : Str) (addr : ℕ) (ls ls' : List Line) :
    labelAddr name addr (ls ++ ls') =
      (labelAddr name (addr + 4 * instrCount ls) ls').or (labelAddr name addr ls) := by
  induction ls generalizing addr with
  | nil => simp [labelAddr]
  | cons l ls ih =>
    cases l with
    | label n => rw [List.cons_append, labelAddr, labelAddr, ih, instrCount_label, Option.or_assoc]
    | stmt mn pad ops =>
      rw [List.cons_append, labelAddr, labelAddr, ih, instrCount_stmt]
      congr 2
      ring

theorem length_place (addr : ℕ) (ls : List Line) : (place addr ls).length = instrCount ls := by
  induction ls generalizing addr with
  | nil => rfl
  | cons l ls ih =>
    cases l with
    | label n => simpa [place] using ih addr
    | stmt mn pad ops => simpa [place] using ih (addr + 4)

end Text

end RvPipeline.Tools
