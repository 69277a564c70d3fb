import RvPipeline.Tools.ProgramLines

/-!
# The size of a random program

The words of the text of `gen_program` against the memory, the mapped page and the immediate that
holds the address of the handler.
-/

namespace RvPipeline.Tools

open Py

namespace RandomGen

variable {U : Unicode} {xlen : ℕ} {P : GenParams}

/-! ## The whole text -/

/-- The words that arm an interrupt. -/
def interruptWords (k : ℕ) : IntSource → ℕ
  | .timer => 7 + constLines (100 + k * 10)
  | .uart => 8
  | .msi => 8
  | .both => 10 + constLines (100 + k * 10)

theorem instrCount_interruptPrefix (k : ℕ) (v : Str) (source : IntSource) :
    instrCount (interruptPrefix k v source).1 = interruptWords k source := by
  cases source <;> simp [interruptPrefix, stmt, instrCount_constToReg, interruptWords] <;> ring

namespace GenParams

variable (P : GenParams)

/-- The words in front of the body. -/
def prefixWords (k : ℕ) : ℕ :=
  if P.mmu then if 64 ≤ P.xlen then 22 else 13
  else match P.interrupt with
    | none => 0
    | some source => interruptWords k source

/-- The words of the body. -/
def coreWords : ℕ := P.setupWords + P.nInstrs.toNat + 2

/-- The words of the text. -/
def words (k : ℕ) : ℕ :=
  P.prefixWords k + P.coreWords + if P.interrupt = none then 0 else 2

end GenParams

theorem Outcome.drawn_of_getElem? (o : Outcome P) (k : ℕ) (item : Item)
    (hk : o.items[k]? = some item) : item.Drawn P (k + 1) o.items.length := by
  obtain ⟨hlt, rfl⟩ := List.getElem?_eq_some_iff.mp hk
  exact o.drawn k hlt

theorem Outcome.instrCount_body (o : Outcome P) : instrCount (body P o.items) = P.coreWords := by
  rw [RandomGen.instrCount_body, o.length, GenParams.coreWords]

theorem plain_handler : Plain U xlen (handler.drop 1) := by
  refine plain_cons.mpr ⟨?_, plain_cons.mpr ⟨⟨_, encodes_mret⟩, plain_nil⟩⟩
  exact encodes_csrrw (csrLookup_named (z := 0x304) (by simp [csrAddr])) 0 0

/-- A text is the body between a prefix, of which the address of the handler alone may fail to
assemble, and the handler. -/
theorem genLines_eq (U : Unicode) {o : Outcome P} {lines : List Line} {info : Option InterruptInfo}
    (h : genLines P o = some (lines, info)) :
    ∃ pre, lines = pre ++ (body P o.items ++ if P.interrupt = none then [] else handler) ∧
      instrCount pre = P.prefixWords o.interruptK ∧ (∀ l ∈ pre, l.Good) ∧
        (∀ name, Line.label name ∉ pre) ∧ ∀ labels, Placed U P.xlen labels 0 pre ↔
          (P.interrupt ≠ none → 4 * (P.prefixWords o.interruptK + P.coreWords) ≤ 2047) := by
  have hplain : ∀ pre, Plain U P.xlen pre → P.interrupt = none →
      (∀ l ∈ pre, l.Good) ∧ (∀ name, Line.label name ∉ pre) ∧
        ∀ labels, Placed U P.xlen labels 0 pre ↔
          (P.interrupt ≠ none → 4 * (P.prefixWords o.interruptK + P.coreWords) ≤ 2047) := by
    intro pre hpre hint
    refine ⟨hpre.good, hpre.label_not_mem, fun labels ↦ ?_⟩
    simp only [hint, ne_eq, not_true_eq_false, false_implies, iff_true]
    exact hpre.placed labels 0
  rw [genLines] at h
  split_ifs at h with hboth hbudget hwide hmmu
  · have hint : P.interrupt = none := by
      by_contra hne
      exact hboth ⟨hne, hwide.1⟩
    simp only [Option.some.injEq, Prod.mk.injEq, instrCount_prefix39] at h
    refine ⟨prefix39 (dec 88), ?_, ?_, hplain _ (plain_prefix39 hwide.2 (by decide)) hint⟩
    · rw [← h.1, hint, if_pos rfl, List.append_nil]
    · rw [instrCount_prefix39, GenParams.prefixWords, if_pos hwide.1, if_pos hwide.2]
  · have hint : P.interrupt = none := by
      by_contra hne
      exact hboth ⟨hne, hmmu⟩
    have hnarrow : ¬ 64 ≤ P.xlen := fun hx ↦ hwide ⟨hmmu, hx⟩
    simp only [Option.some.injEq, Prod.mk.injEq, instrCount_prefix32] at h
    refine ⟨prefix32 (dec 52), ?_, ?_, hplain _ (plain_prefix32 (by decide)) hint⟩
    · rw [← h.1, hint, if_pos rfl, List.append_nil]
    · rw [instrCount_prefix32, GenParams.prefixWords, if_pos hmmu, if_neg hnarrow]
  · cases hint : P.interrupt with
    | none =>
      simp only [hint, Option.some.injEq, Prod.mk.injEq] at h
      refine ⟨[], ?_, ?_, ?_⟩
      · rw [← h.1, if_pos rfl, List.append_nil, List.nil_append]
      · rw [GenParams.prefixWords, if_neg hmmu, hint]
        rfl
      · simpa only [hint] using hplain [] plain_nil hint
    | some source =>
      simp only [hint, Option.some.injEq, Prod.mk.injEq, instrCount_interruptPrefix,
        o.instrCount_body] at h
      have hwords : P.prefixWords o.interruptK = interruptWords o.interruptK source := by
        rw [GenParams.prefixWords, if_neg hmmu, hint]
      obtain ⟨pre, post, hpre, hpost, hsplit⟩ :=
        interruptPrefix_split U P.xlen o.interruptK source
      set v := (P.prefixWords o.interruptK + P.coreWords) * 4 with hv
      rw [← hwords, ← hv, hsplit] at h
      refine ⟨pre ++ mtvecLine (dec v) :: post, ?_, ?_, ?_, ?_, ?_⟩
      · rw [← h.1, if_neg (by simp), List.append_assoc _ (body P o.items)]
      · rw [← hsplit, instrCount_interruptPrefix, hwords]
      · obtain ⟨f3, hmem⟩ := addi_forms
        have hline : (mtvecLine (dec v)).Good :=
          ⟨⟨_, known_of_forms hmem⟩, by simp [isToken_xReg, isToken_dec]⟩
        intro l hl
        rcases List.mem_append.mp hl with hl | hl
        · exact hpre.good l hl
        · rcases List.mem_cons.mp hl with rfl | hl
          · exact hline
          · exact hpost.good l hl
      · intro name hl
        rcases List.mem_append.mp hl with hl | hl
        · exact hpre.label_not_mem name hl
        · rcases List.mem_cons.mp hl with hl | hl
          · cases hl
          · exact hpost.label_not_mem name hl
      · intro labels
        rw [placed_append, placed_cons rfl, encodeLine_mtvecLine]
        simp only [hpre.placed, hpost.placed, true_and, and_true, ne_eq, reduceCtorEq,
          not_false_eq_true, true_implies]
        omega

theorem instrCount_genLines {o : Outcome P} {lines : List Line} {info : Option InterruptInfo}
    (h : genLines P o = some (lines, info)) : instrCount lines = P.words o.interruptK := by
  obtain ⟨pre, rfl, hpre, -⟩ := genLines_eq .ascii h
  rw [instrCount_append, instrCount_append, hpre, o.instrCount_body, GenParams.words, ← add_assoc]
  congr 1
  split
  · rfl
  · simp [handler, stmt]

theorem good_genLines {o : Outcome P} {lines : List Line} {info : Option InterruptInfo}
    (h : genLines P o = some (lines, info)) : lines ≠ [] ∧ ∀ l ∈ lines, l.Good := by
  obtain ⟨pre, rfl, -, hgood, -⟩ := genLines_eq .ascii h
  have hhandler : ∀ l ∈ handler, l.Good := by
    have hplain : Plain .ascii P.xlen _ := plain_handler
    intro l hl
    rcases List.mem_cons.mp hl with rfl | hl
    · exact (by decide : IsToken "handler".toList)
    · exact hplain.good l hl
  refine ⟨by simp [body], fun l hl ↦ ?_⟩
  rcases List.mem_append.mp hl with hl | hl
  · exact hgood l hl
  · rcases List.mem_append.mp hl with hl | hl
    · exact good_body o.drawn_of_getElem? l hl
    · split at hl
      · cases hl
      · exact hhandler l hl

/-- The labels of the body are where the body has them, in the whole text too. -/
theorem labelAddr_genLines {o : Outcome P} {lines : List Line} {info : Option InterruptInfo}
    (h : genLines P o = some (lines, info)) {name : Str} (hname : name ≠ "handler".toList) :
    labelAddr name 0 lines = labelAddr name (4 * P.prefixWords o.interruptK) (body P o.items) := by
  obtain ⟨pre, rfl, hpre, -, hlabel, -⟩ := genLines_eq .ascii h
  have hpost : ∀ a, labelAddr name a (if P.interrupt = none then [] else handler) = none := by
    refine labelAddr_eq_none fun hmem ↦ ?_
    split at hmem
    · cases hmem
    · simp [handler, stmt] at hmem
      exact hname hmem
  rw [labelAddr_append, labelAddr_append, hpost, labelAddr_eq_none (hlabel name), Option.none_or,
    Option.or_none, hpre, zero_add]

theorem labelAddr_handler {o : Outcome P} {lines : List Line} {info : Option InterruptInfo}
    (h : genLines P o = some (lines, info)) (hint : P.interrupt ≠ none) :
    labelAddr "handler".toList 0 lines =
      some (4 * (P.prefixWords o.interruptK + P.coreWords)) := by
  obtain ⟨pre, rfl, hpre, -, -, -⟩ := genLines_eq .ascii h
  rw [if_neg hint, labelAddr_append, labelAddr_append, hpre, o.instrCount_body]
  simp [handler, stmt, labelAddr]
  ring

/-- The text assembles if every branch and jump reaches its label and the address of the handler
fits its immediate. -/
theorem assembles_iff (U : Unicode) {o : Outcome P} {lines : List Line} {info : Option InterruptInfo}
    (h : genLines P o = some (lines, info)) :
    (∃ ws, assemble U P.xlen (readlines (joinLines lines)) = .ok ws) ↔
      (P.interrupt ≠ none → 4 * (P.prefixWords o.interruptK + P.coreWords) ≤ 2047) ∧
        ∀ (k : ℕ) (item : Item), o.items[k]? = some item →
          item.Reaches o.items.length (k + 1) := by
  obtain ⟨hne, hgood⟩ := good_genLines h
  obtain ⟨labels, hlabels, hassemble⟩ := assemble_joinLines (U := U) P.xlen hne hgood
  have htarget : ∀ t, targetLabel t ≠ "handler".toList := by
    intro t ht
    have hhandler : "handler".toList = 'h' :: "andler".toList := by decide
    rw [hhandler, targetLabel] at ht
    simp at ht
  have hbody : Placed U P.xlen labels (4 * P.prefixWords o.interruptK) (body P o.items) ↔ _ :=
    placed_body o.drawn_of_getElem? (fun t ↦ by rw [hlabels, labelAddr_genLines h (htarget t)])
      (by rw [hlabels, labelAddr_genLines h (by decide)])
  have hplaced : (∃ ws, assemble U P.xlen (readlines (joinLines lines)) = .ok ws) ↔
      Placed U P.xlen labels 0 lines := by
    simp only [hassemble]
    exact exists_forall₂
  obtain ⟨pre, rfl, hpre, -, -, hprefix⟩ := genLines_eq U h
  have hpost : ∀ a, Placed U P.xlen labels a (if P.interrupt = none then [] else handler) := by
    intro a
    split
    · exact plain_nil.placed labels a
    · exact plain_handler.placed labels a
  rw [hplaced, placed_append, placed_append, hprefix, hpre, zero_add, hbody,
    and_iff_left (hpost _)]

theorem length_of_assembles {o : Outcome P} {lines : List Line} {info : Option InterruptInfo}
    (h : genLines P o = some (lines, info)) {ws : List (BitVec 32)}
    (hws : assemble U P.xlen (readlines (joinLines lines)) = .ok ws) :
    ws.length = P.words o.interruptK := by
  obtain ⟨hne, hgood⟩ := good_genLines h
  obtain ⟨labels, -, hassemble⟩ := assemble_joinLines (U := U) P.xlen hne hgood
  rw [← ((hassemble ws).mp hws).length_eq, length_place, instrCount_genLines h]

/-- The text assembles to at most `mem_size` bytes, with `mmu` to at most the mapped page, and with
an interrupt its handler is where the 12-bit immediate of `addi` reaches. -/
def SizeSound (U : Unicode) (P : GenParams) (text : Str) : Prop :=
  ∃ ws, assemble U P.xlen (readlines text) = .ok ws ∧ 4 * (ws.length : ℤ) ≤ P.memSize ∧
    (P.mmu = true → 4 * ws.length ≤ 4096) ∧
      (P.interrupt ≠ none → ∃ a,
        (pass1 U (readlines text)).labels.lookup "handler".toList = some a ∧ a ≤ 2047)

/-- The words are within the memory and the page, the handler is within the immediate, and every
label is within reach. -/
structure Fits (P : GenParams) (o : Outcome P) : Prop where
  memory : 4 * (P.words o.interruptK : ℤ) ≤ P.memSize
  page : P.mmu = true → 4 * P.words o.interruptK ≤ 4096
  handler : P.interrupt ≠ none → 4 * (P.prefixWords o.interruptK + P.coreWords) ≤ 2047
  reach : ∀ (k : ℕ) (item : Item), o.items[k]? = some item → item.Reaches o.items.length (k + 1)

/-- A returned text is within its limits exactly if the outcome fits: the budget that is checked
bounds neither the words nor the address of the handler. -/
theorem size_sound_iff (U : Unicode) {o : Outcome P} {text : Str} {info : Option InterruptInfo}
    (h : genProgram P o = some (text, info)) : SizeSound U P text ↔ Fits P o := by
  obtain ⟨⟨lines, info'⟩, hlines, heq⟩ := Option.map_eq_some_iff.mp h
  cases heq
  have hlabels : P.interrupt ≠ none → (pass1 U (readlines (joinLines lines))).labels.lookup
      "handler".toList = some (4 * (P.prefixWords o.interruptK + P.coreWords)) := by
    intro hint
    obtain ⟨hne, hgood⟩ := good_genLines hlines
    obtain ⟨-, hlook⟩ := foldl_scan (U := U) lines hgood {}
    rw [readlines_joinLines hne hgood, pass1, hlook, labelAddr_handler hlines hint]
    rfl
  constructor
  · rintro ⟨ws, hws, hmem, hpage, -⟩
    obtain ⟨hhandler, hreach⟩ := (assembles_iff U hlines).mp ⟨ws, hws⟩
    rw [length_of_assembles hlines hws] at hmem hpage
    exact ⟨hmem, hpage, hhandler, hreach⟩
  · rintro ⟨hmem, hpage, hhandler, hreach⟩
    obtain ⟨ws, hws⟩ := (assembles_iff U hlines).mpr ⟨hhandler, hreach⟩
    refine ⟨ws, hws, ?_, ?_, fun hint ↦ ⟨_, hlabels hint, hhandler hint⟩⟩
    · rwa [length_of_assembles hlines hws]
    · rwa [length_of_assembles hlines hws]

/-- `n` additions. -/
def additions (P : GenParams) (hint : P.interrupt = none) : Outcome P where
  items := List.replicate P.nInstrs.toNat (.r "add".toList 1 1 1)
  interruptK := 0
  length := List.length_replicate
  drawn k hk := by
    rw [List.get_eq_getElem, List.getElem_replicate]
    exact ⟨List.mem_map_of_mem List.mem_cons_self, by decide, by decide, by decide⟩
  boundary hne := absurd hint hne

theorem genProgram_of_genLines {o : Outcome P} {lines : List Line} {info : Option InterruptInfo}
    (h : genLines P o = some (lines, info)) : genProgram P o = some (joinLines lines, info) := by
  rw [genProgram, h, Option.map_some]

theorem genLines_bare {o : Outcome P} (hint : P.interrupt = none) (hmmu : P.mmu = false)
    (hbudget : P.budget ≤ P.memSize / 4) : genLines P o = some (body P o.items, none) := by
  simp [genLines, hint, hmmu, Int.not_lt.mpr hbudget]

/-- The defaults. -/
theorem size_sound_defaults :
    SizeSound .ascii {} (joinLines (body {} (additions {} rfl).items)) := by
  have hlines : genLines {} (additions {} rfl) = some (body {} (additions {} rfl).items, none) :=
    genLines_bare rfl rfl (by decide)
  refine (size_sound_iff .ascii (genProgram_of_genLines hlines)).mpr
    ⟨by decide, by decide, by decide, ?_⟩
  intro k item hk
  obtain rfl := List.eq_of_mem_replicate (List.mem_of_getElem? hk)
  trivial

/-- Two instructions in 64 bytes of memory: the budget of 16 words leaves out the `fence`. -/
theorem not_size_sound : ¬ ∀ (U : Unicode) (P : GenParams) (o : Outcome P) (text : Str)
    (info : Option InterruptInfo), genProgram P o = some (text, info) → SizeSound U P text := by
  intro h
  let P : GenParams := { nInstrs := 2, memSize := 64 }
  have hlines : genLines P (additions P rfl) = some (body P (additions P rfl).items, none) :=
    genLines_bare rfl rfl (by decide)
  obtain ⟨ws, hws, hmem, -⟩ := h .ascii P (additions P rfl) _ none (genProgram_of_genLines hlines)
  have hlen : ws.length = 17 := length_of_assembles hlines hws
  rw [hlen] at hmem
  exact absurd hmem (by decide)

end RandomGen

end RvPipeline.Tools
