import RvPipeline.Tools.ItemWords

/-!
# The emitted body

Where the second pass of `gen_program` puts the items and their labels: item after item, a label
below the last one in front of the item it counts, the last one behind all of them.
-/

namespace RvPipeline.Tools

open Py

/-! ## Lines at their addresses -/

theorem place_cons {l : Line} (h : l.isStmt = true) (addr : ℕ) (ls : List Line) :
    place addr (l :: ls) = (addr, l) :: place (addr + 4) ls := by
  cases l with
  | label n => cases h
  | stmt mn pad ops => rfl

theorem labelAddr_cons {l : Line} (h : l.isStmt = true) (name : Str) (addr : ℕ) (ls : List Line) :
    labelAddr name addr (l :: ls) = labelAddr name (addr + 4) ls := by
  cases l with
  | label n => cases h
  | stmt mn pad ops => rfl

/-- Without its label a list of lines has no address for a name. -/
theorem labelAddr_eq_none {name : Str} {ls : List Line} (h : Line.label name ∉ ls) (addr : ℕ) :
    labelAddr name addr ls = none := by
  induction ls generalizing addr with
  | nil => rfl
  | cons l ls ih =>
    obtain ⟨hl, hls⟩ := not_or.mp (mt List.mem_cons.mpr h)
    cases l with
    | label n =>
      have hne : n ≠ name := by
        rintro rfl
        exact hl rfl
      rw [labelAddr, ih hls, if_neg hne]
      rfl
    | stmt mn pad ops => exact ih hls _

namespace RandomGen

theorem isStmt_line (item : Item) : item.line.isStmt = true := by cases item <;> rfl

theorem targetLabel_inj {t t' : ℕ} : targetLabel t = targetLabel t' ↔ t = t' := by
  constructor
  · intro h
    have hdec : dec t = dec t' := by simpa [targetLabel] using h
    have hint : int0 .ascii (dec t) = int0 .ascii (dec t') := by rw [hdec]
    simpa [int0_dec] using hint
  · rintro rfl
    rfl

/-! ## The items -/

theorem place_emit (n c : ℕ) (labelsAt : List ℕ) (items : List Item) (addr : ℕ) :
    place addr (emit n c labelsAt items) = items.mapIdx fun k item ↦ (addr + 4 * k, item.line) := by
  induction items generalizing c labelsAt addr with
  | nil =>
    rw [emit]
    split <;> rfl
  | cons item items ih =>
    have hlabel : ∀ ls : List Line,
        place (addr + 4) ((if c + 1 ∈ item.target.toList ++ labelsAt then
          [Line.label (targetLabel (c + 1))] else []) ++ ls) = place (addr + 4) ls := by
      intro ls
      split <;> rfl
    rw [emit, place_cons (isStmt_line item), hlabel, ih, List.mapIdx_cons]
    congr 1
    refine congrArg (fun f ↦ List.mapIdx f items) (funext fun k ↦ funext fun item' ↦ ?_)
    rw [show addr + 4 + 4 * k = addr + 4 * (k + 1) by ring]

theorem instrCount_emit (n c : ℕ) (labelsAt : List ℕ) (items : List Item) :
    instrCount (emit n c labelsAt items) = items.length := by
  rw [← length_place 0, place_emit, List.length_mapIdx]

/-! ## The labels -/

/-- A label is the one of a number behind the first item, or the last one. -/
theorem label_mem_emit {n c : ℕ} {labelsAt : List ℕ} {items : List Item} {name : Str}
    (h : Line.label name ∈ emit n c labelsAt items) :
    ∃ t, name = targetLabel t ∧ (c < t ∨ t = n) := by
  induction items generalizing c labelsAt with
  | nil =>
    rw [emit] at h
    split at h
    · exact ⟨n, by simpa using h, .inr rfl⟩
    · cases h
  | cons item items ih =>
    rw [emit, List.mem_cons, List.mem_append] at h
    rcases h with h | h | h
    · have hstmt := isStmt_line item
      rw [← h] at hstmt
      cases hstmt
    · split at h
      · exact ⟨c + 1, by simpa using h, .inl (Nat.lt_succ_self c)⟩
      · cases h
    · obtain ⟨t, hname, hlt | hn⟩ := ih h
      · exact ⟨t, hname, .inl (by omega)⟩
      · exact ⟨t, hname, .inr hn⟩

/-- The last label is behind the items, also where it is in front of the last one too. -/
theorem labelAddr_emit_last {n c : ℕ} {labelsAt : List ℕ} {items : List Item}
    (h : n ∈ labelsAt ∨ ∃ item ∈ items, item.target = some n) (addr : ℕ) :
    labelAddr (targetLabel n) addr (emit n c labelsAt items) = some (addr + 4 * items.length) := by
  induction items generalizing c labelsAt addr with
  | nil =>
    obtain h | ⟨item, hmem, -⟩ := h
    · rw [emit, if_pos h, labelAddr, if_pos rfl]
      rfl
    · cases hmem
  | cons item items ih =>
    have hrest : n ∈ item.target.toList ++ labelsAt ∨ ∃ item' ∈ items, item'.target = some n := by
      rcases h with h | ⟨item', hmem, htarget⟩
      · exact .inl (List.mem_append_right _ h)
      · rcases List.mem_cons.mp hmem with rfl | hmem
        · exact .inl (List.mem_append_left _ (by simp [htarget]))
        · exact .inr ⟨item', hmem, htarget⟩
    have hcount : instrCount (if c + 1 ∈ item.target.toList ++ labelsAt then
        [Line.label (targetLabel (c + 1))] else []) = 0 := by
      split <;> simp
    rw [emit, labelAddr_cons (isStmt_line item), labelAddr_append, hcount, ih hrest, Option.some_or,
      List.length_cons]
    congr 1
    ring

/-- A label below the last one is in front of the item it counts. -/
theorem labelAddr_emit_inner {n c t : ℕ} {labelsAt : List ℕ} {items : List Item} (hn : t ≠ n)
    (hc : c < t) (ht : t ≤ c + items.length)
    (h : t ∈ labelsAt ∨ ∃ k item, items[k]? = some item ∧ item.target = some t ∧ c + k < t)
    (addr : ℕ) :
    labelAddr (targetLabel t) addr (emit n c labelsAt items) = some (addr + 4 * (t - c)) := by
  induction items generalizing c labelsAt addr with
  | nil => simp at ht; omega
  | cons item items ih =>
    rw [emit, labelAddr_cons (isStmt_line item), labelAddr_append]
    by_cases hnext : t = c + 1
    · have hmem : c + 1 ∈ item.target.toList ++ labelsAt := by
        rcases h with h | ⟨k, item', hk, htarget, hlt⟩
        · exact List.mem_append_right _ (hnext ▸ h)
        · obtain rfl : k = 0 := by omega
          obtain rfl : item = item' := by simpa using hk
          exact List.mem_append_left _ (by simp [htarget, hnext])
      have hnone : ∀ a, labelAddr (targetLabel t) a
          (emit n (c + 1) (item.target.toList ++ labelsAt) items) = none := by
        intro a
        refine labelAddr_eq_none (fun hmem' ↦ ?_) a
        obtain ⟨t', hname, hlt | hlast⟩ := label_mem_emit hmem'
        · rw [targetLabel_inj] at hname
          omega
        · rw [targetLabel_inj] at hname
          omega
      rw [hnone, if_pos hmem, labelAddr, hnext, if_pos rfl]
      simp [labelAddr]
    · have hrest : t ∈ item.target.toList ++ labelsAt ∨
          ∃ k item', items[k]? = some item' ∧ item'.target = some t ∧ c + 1 + k < t := by
        rcases h with h | ⟨k, item', hk, htarget, hlt⟩
        · exact .inl (List.mem_append_right _ h)
        · cases k with
          | zero =>
            obtain rfl : item = item' := by simpa using hk
            exact .inl (List.mem_append_left _ (by simp [htarget]))
          | succ k => exact .inr ⟨k, item', by simpa using hk, htarget, by omega⟩
      have hcount : instrCount (if c + 1 ∈ item.target.toList ++ labelsAt then
          [Line.label (targetLabel (c + 1))] else []) = 0 := by
        split <;> simp
      rw [hcount, ih (by omega) (by simp at ht; omega) hrest, Option.some_or]
      congr 1
      omega

/-! ## Targets -/

/-- Where the label of a target is, in words from the first item on, the first word being 1. -/
def dest (n t : ℕ) : ℕ := if t < n then t else n + 1

/-- How many words further on the label of the item with index `c` is. -/
def Item.ahead (n c : ℕ) (item : Item) : ℕ :=
  match item.target with
  | some t => dest n t - c
  | none => 0

/-- The label of a branch is within 4095 bytes, the one of a jump within 1048575. -/
def Item.Reaches (n c : ℕ) : Item → Prop
  | .branch _ _ _ t => dest n t - c ≤ 1023
  | .jal _ t => dest n t - c ≤ 262143
  | _ => True

instance (n c : ℕ) : DecidablePred (Item.Reaches n c) := fun item ↦ by
  cases item <;> simp only [Item.Reaches] <;> infer_instance

variable {P : GenParams} {U : Unicode}

theorem Item.target_drawn {item : Item} {c n t : ℕ} (h : item.Drawn P c n)
    (ht : item.target = some t) : min (c + 1) n ≤ t ∧ t ≤ n := by
  cases item <;> cases ht
  · exact h.2.2.2
  · exact h.2

theorem Item.reaches_of_target {item : Item} (h : item.target = none) {n c : ℕ} :
    item.Reaches n c := by
  cases item <;> trivial

theorem labelAddr_emit {items : List Item}
    (hdrawn : ∀ (k : ℕ) (item : Item), items[k]? = some item → item.Drawn P (k + 1) items.length)
    {k t : ℕ} {item : Item} (hk : items[k]? = some item) (ht : item.target = some t) (addr : ℕ) :
    labelAddr (targetLabel t) addr (emit items.length 1 [] items) =
      some (addr + 4 * k + 4 * item.ahead items.length (k + 1)) := by
  obtain ⟨hmin, hle⟩ := Item.target_drawn (hdrawn k item hk) ht
  have hlt : k < items.length := (List.getElem?_eq_some_iff.mp hk).1
  rw [Item.ahead, ht]
  by_cases htn : t < items.length
  · have hfwd : 1 + k < t := by
      rw [min_le_iff] at hmin
      omega
    rw [labelAddr_emit_inner (Nat.ne_of_lt htn) (by omega) (by omega)
      (.inr ⟨k, item, hk, ht, hfwd⟩)]
    simp only [dest, if_pos htn]
    congr 1
    omega
  · obtain rfl : t = items.length := by omega
    rw [labelAddr_emit_last (.inr ⟨item, List.mem_of_getElem? hk, ht⟩)]
    simp only [dest, if_neg htn]
    congr 1
    omega

theorem Item.encodeLine_iff {item : Item} {c n addr : ℕ} {labels : List (Str × ℕ)}
    (h : item.Drawn P c n) (hlabel : ∀ t, item.target = some t →
      labels.lookup (targetLabel t) = some (addr + 4 * item.ahead n c)) :
    (∃ w, Item.Word P (item.ahead n c) item w ∧
      encodeLine U P.xlen labels addr item.line = .ok w) ∧ item.Reaches n c ∨
    (∀ w, encodeLine U P.xlen labels addr item.line ≠ .ok w) ∧ ¬ item.Reaches n c := by
  cases hitem : item.target with
  | none =>
    obtain ⟨w, hword, -, -, hline⟩ := item.encodes (U := U) h hitem (item.ahead n c)
    exact .inl ⟨⟨w, hword, hline labels addr⟩, item.reaches_of_target hitem⟩
  | some t =>
    have hlook := hlabel t hitem
    cases item with
    | branch mn rs1 rs2 t' =>
      cases hitem
      obtain ⟨f3, -, hmem⟩ := branches_forms h.1
      have hline : encodeLine U P.xlen labels addr _ = _ :=
        encodeLine_branch hmem rs1 rs2 (isToken_targetLabel t) hlook
      by_cases hreach : dest n t - c ≤ 1023
      · refine .inl ⟨⟨_, .branch hmem, ?_⟩, hreach⟩
        rw [Item.line, hline, if_pos]
        change ((4 * (dest n t - c) : ℕ) : ℤ) ≤ 4095
        omega
      · refine .inr ⟨fun w hw ↦ ?_, hreach⟩
        rw [Item.line, hline, if_neg] at hw
        · cases hw
        · change ¬ ((4 * (dest n t - c) : ℕ) : ℤ) ≤ 4095
          omega
    | jal rd t' =>
      cases hitem
      have hline : encodeLine U P.xlen labels addr _ = _ :=
        encodeLine_jal rd (isToken_targetLabel t) hlook
      by_cases hreach : dest n t - c ≤ 262143
      · refine .inl ⟨⟨_, .jal, ?_⟩, hreach⟩
        rw [Item.line, hline, if_pos]
        change ((4 * (dest n t - c) : ℕ) : ℤ) ≤ 1048575
        omega
      · refine .inr ⟨fun w hw ↦ ?_, hreach⟩
        rw [Item.line, hline, if_neg] at hw
        · cases hw
        · change ¬ ((4 * (dest n t - c) : ℕ) : ℤ) ≤ 1048575
          omega
    | _ => cases hitem

theorem Item.good {item : Item} {c n : ℕ} (h : item.Drawn P c n) : item.line.Good := by
  cases hitem : item.target with
  | none =>
    obtain ⟨w, -, hgood, -⟩ := item.encodes (U := .ascii) h hitem 0
    exact hgood
  | some t =>
    cases item with
    | branch mn rs1 rs2 t' =>
      obtain ⟨f3, -, hmem⟩ := branches_forms h.1
      exact ⟨⟨_, known_of_forms hmem⟩, by simp [isToken_xReg, isToken_targetLabel]⟩
    | jal rd t' =>
      exact ⟨⟨.jal, known_of_forms jal_forms⟩, by simp [isToken_xReg, isToken_targetLabel]⟩
    | _ => cases hitem

theorem good_emit {n c : ℕ} {labelsAt : List ℕ} {items : List Item}
    (h : ∀ item ∈ items, item.line.Good) : ∀ l ∈ emit n c labelsAt items, l.Good := by
  induction items generalizing c labelsAt with
  | nil =>
    intro l hl
    rw [emit] at hl
    split at hl
    · obtain rfl : l = .label (targetLabel n) := by simpa using hl
      exact isToken_targetLabel n
    · cases hl
  | cons item items ih =>
    intro l hl
    rw [emit, List.mem_cons, List.mem_append] at hl
    rcases hl with rfl | hl | hl
    · exact h item List.mem_cons_self
    · split at hl
      · obtain rfl : l = .label (targetLabel (c + 1)) := by simpa using hl
        exact isToken_targetLabel (c + 1)
      · cases hl
    · exact ih (fun item' hmem ↦ h item' (List.mem_cons_of_mem _ hmem)) l hl

end RandomGen

end RvPipeline.Tools
