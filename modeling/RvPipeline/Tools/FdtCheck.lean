import RvPipeline.Tools.FdtRoundTrip
import Mathlib.Order.Bounds.Basic

/-!
# What the devicetree self-check accepts

A well-formed blob is its header, its reservation entry and its two blocks, the structure block a
balanced sequence of tokens closed by one `FDT_END`.  `parse_and_validate` decides this for all blobs
but two kinds: those it reads past a missing byte of, and those with something after `FDT_END` or
with a property outside every node.
-/

namespace RvPipeline

open Py

/-! ## Tokens of the structure block -/

/-- A token with its fields; the bytes of the padding are free. -/
inductive FdtItem where
  | beginNode (name pad : Bytes)
  | endNode
  | prop (nameoff : ℕ) (value pad : Bytes)

namespace FdtItem

def bytes : FdtItem → Bytes
  | .beginNode name pad => bytesBE 4 fdtBeginNode ++ (name ++ 0 :: pad)
  | .endNode => bytesBE 4 fdtEndNode
  | .prop nameoff value pad =>
    bytesBE 4 fdtProp ++ (bytesBE 4 value.length ++ (bytesBE 4 nameoff ++ (value ++ pad)))

/-- The fields fit their places, the padding is to four bytes and the name of a property starts
inside a strings block of `stringsLen` bytes. -/
def Fits (stringsLen : ℕ) : FdtItem → Prop
  | .beginNode name pad =>
    (0 : BitVec 8) ∉ name ∧ name.length + 1 + pad.length = roundUp4 (name.length + 1)
  | .endNode => True
  | .prop nameoff value pad =>
    value.length < 2 ^ 32 ∧ nameoff < 2 ^ 32 ∧ nameoff < stringsLen ∧
      value.length + pad.length = roundUp4 value.length

def isProp : FdtItem → Bool
  | .prop .. => true
  | _ => false

/-- How much deeper the token leads. -/
def rise : FdtItem → ℤ
  | .beginNode .. => 1
  | .endNode => -1
  | .prop .. => 0

end FdtItem

/-- The bytes of a sequence of tokens. -/
def fdtItemsBytes (items : List FdtItem) : Bytes := items.flatMap FdtItem.bytes

/-- The depth reached after the tokens. -/
def fdtDepth (items : List FdtItem) : ℤ := (items.map FdtItem.rise).sum

/-- No node ends that has not begun. -/
def NeverBelow (items : List FdtItem) : Prop := ∀ p, p <+: items → 0 ≤ fdtDepth p

/-- Every property has a node around it. -/
def PropsInside (items : List FdtItem) : Prop :=
  ∀ p i, p ++ [i] <+: items → i.isProp = true → 1 ≤ fdtDepth p

/-- What the self-check reports of a sequence of tokens. -/
structure FdtSummary.Describes (s : FdtSummary) (items : List FdtItem) (totalsize : ℕ) : Prop where
  maxDepth : IsGreatest {d | ∃ p, p <+: items ∧ fdtDepth p = d} s.maxDepth
  propCount : s.propCount = items.countP FdtItem.isProp
  totalsize : s.totalsize = totalsize

/-! ## Blobs -/

/-- The header agrees with the layout: its ten fields, an empty reservation block, and the two blocks
that make up the rest. -/
def HasLayout (blob struct strings : Bytes) : Prop :=
  ∃ version lastComp bootCpuid : ℕ,
    version < 2 ^ 32 ∧ lastComp < 2 ^ 32 ∧ bootCpuid < 2 ^ 32 ∧ blob.length < 2 ^ 32 ∧
      blob = (([fdtMagic, 56 + struct.length + strings.length, 56, 56 + struct.length, 40, version,
        lastComp, bootCpuid, strings.length, struct.length].map (bytesBE 4)).flatten) ++
          (fdtRsvmap ++ (struct ++ strings))

/-- The structure block is `items`, an `FDT_END` and `rest`, and passes for a tree deep enough. -/
structure Reaches (struct strings : Bytes) (items : List FdtItem) (rest : Bytes) : Prop where
  split : struct = fdtItemsBytes items ++ (bytesBE 4 fdtEnd ++ rest)
  fits : ∀ i ∈ items, i.Fits strings.length
  neverBelow : NeverBelow items
  balanced : fdtDepth items = 0
  deep : ∃ p, p <+: items ∧ 2 ≤ fdtDepth p
  hasProp : ∃ i ∈ items, i.isProp = true

/-- `FDT_END` ends the block and every property is inside a node. -/
def WellFormed (blob : Bytes) (s : FdtSummary) : Prop :=
  ∃ struct strings items, HasLayout blob struct strings ∧ Reaches struct strings items [] ∧
    PropsInside items ∧ s.Describes items blob.length

/-- There is something after `FDT_END`, or a property outside every node. -/
def TooLoose (blob : Bytes) : Prop :=
  ∃ struct strings items rest, HasLayout blob struct strings ∧ Reaches struct strings items rest ∧
    (rest ≠ [] ∨ ¬PropsInside items)

/-- What is left holds no whole token word, name or property header. -/
def CutToken (bs : Bytes) : Prop :=
  0 < bs.length ∧ bs.length < 4 ∨
    (∃ r, bs = bytesBE 4 fdtBeginNode ++ r ∧ (0 : BitVec 8) ∉ r) ∨
      ∃ r, bs = bytesBE 4 fdtProp ++ r ∧ r.length < 8

/-- The header is incomplete, or the structure block stops inside a token. -/
def CutShort (blob : Bytes) : Prop :=
  blob.length < 40 ∨
    ∃ struct strings items rest, HasLayout blob struct strings ∧
      struct = fdtItemsBytes items ++ rest ∧ (∀ i ∈ items, i.Fits strings.length) ∧
        NeverBelow items ∧ CutToken rest

/-- The errors that `assert` and `raise AssertionError` raise. -/
def FdtError.isAssertion : FdtError → Bool
  | .structError | .valueError => false
  | _ => true

/-- The self-check returns on the well-formed blobs, with their figures, and raises `AssertionError`
on the others. -/
def DecidesWellFormed (blob : Bytes) : Prop :=
  (∀ s, parseAndValidate blob = .ok s ↔ WellFormed blob s) ∧
    ((∀ s, ¬WellFormed blob s) → ∃ e, parseAndValidate blob = .error e ∧ e.isAssertion = true)

/-! ## Tokens are told apart -/

theorem bytesBE_append_inj {a b : ℕ} {s t : Bytes} (ha : a < 2 ^ 32) (hb : b < 2 ^ 32)
    (h : bytesBE 4 a ++ s = bytesBE 4 b ++ t) : a = b ∧ s = t := by
  have hread := readBE_append (show a < 256 ^ 4 from ha) s
  rw [h, readBE_append (show b < 256 ^ 4 from hb)] at hread
  obtain ⟨rfl, rfl⟩ : b = a ∧ t = s := by simpa using hread
  exact ⟨rfl, rfl⟩

theorem cstring_inj {name name' s t : Bytes} (h : (0 : BitVec 8) ∉ name) (h' : (0 : BitVec 8) ∉ name')
    (heq : name ++ 0 :: s = name' ++ 0 :: t) : name = name' ∧ s = t := by
  have hname : (name ++ 0 :: s).takeWhile (· ≠ 0) = name := takeWhile_cstring h
  rw [heq, takeWhile_cstring h'] at hname
  subst hname
  exact ⟨rfl, by simpa using heq⟩

theorem FdtItem.bytes_append_inj {n : ℕ} {i j : FdtItem} {s t : Bytes} (hi : i.Fits n)
    (hj : j.Fits n) (h : i.bytes ++ s = j.bytes ++ t) : i = j ∧ s = t := by
  cases i with
  | beginNode name pad =>
    cases j with
    | beginNode name' pad' =>
      simp only [FdtItem.bytes, List.append_assoc, List.cons_append] at h
      have hrest := (bytesBE_append_inj (by decide) (by decide) h).2
      obtain ⟨rfl, htail⟩ := cstring_inj hi.1 hj.1 hrest
      obtain ⟨rfl, rfl⟩ := List.append_inj htail (by have := hi.2; have := hj.2; omega)
      exact ⟨rfl, rfl⟩
    | endNode =>
      simp only [FdtItem.bytes, List.append_assoc] at h
      exact absurd (bytesBE_append_inj (by decide) (by decide) h).1 (by decide)
    | prop nameoff value pad' =>
      simp only [FdtItem.bytes, List.append_assoc] at h
      exact absurd (bytesBE_append_inj (by decide) (by decide) h).1 (by decide)
  | endNode =>
    cases j with
    | beginNode name' pad' =>
      simp only [FdtItem.bytes, List.append_assoc] at h
      exact absurd (bytesBE_append_inj (by decide) (by decide) h).1 (by decide)
    | endNode => exact ⟨rfl, (bytesBE_append_inj (by decide) (by decide) h).2⟩
    | prop nameoff value pad' =>
      simp only [FdtItem.bytes, List.append_assoc] at h
      exact absurd (bytesBE_append_inj (by decide) (by decide) h).1 (by decide)
  | prop nameoff value pad =>
    cases j with
    | beginNode name' pad' =>
      simp only [FdtItem.bytes, List.append_assoc] at h
      exact absurd (bytesBE_append_inj (by decide) (by decide) h).1 (by decide)
    | endNode =>
      simp only [FdtItem.bytes, List.append_assoc] at h
      exact absurd (bytesBE_append_inj (by decide) (by decide) h).1 (by decide)
    | prop nameoff' value' pad' =>
      obtain ⟨hv, ho, -, hp⟩ := hi
      obtain ⟨hv', ho', -, hp'⟩ := hj
      simp only [FdtItem.bytes, List.append_assoc] at h
      have hfields := (bytesBE_append_inj (by decide) (by decide) h).2
      obtain ⟨hlen, hname⟩ := bytesBE_append_inj hv hv' hfields
      obtain ⟨rfl, hdata⟩ := bytesBE_append_inj ho ho' hname
      obtain ⟨rfl, htail⟩ := List.append_inj hdata hlen
      obtain ⟨rfl, rfl⟩ := List.append_inj htail (by omega)
      exact ⟨rfl, rfl⟩

theorem FdtItem.bytes_ne_end (i : FdtItem) (s t : Bytes) :
    i.bytes ++ s ≠ bytesBE 4 fdtEnd ++ t := by
  intro h
  cases i <;> simp only [FdtItem.bytes, List.append_assoc] at h <;>
    exact absurd (bytesBE_append_inj (by decide) (by decide) h).1 (by decide)

theorem fdtItems_inj {n : ℕ} {is js : List FdtItem} {s t : Bytes} (his : ∀ i ∈ is, i.Fits n)
    (hjs : ∀ j ∈ js, j.Fits n)
    (h : fdtItemsBytes is ++ (bytesBE 4 fdtEnd ++ s) = fdtItemsBytes js ++ (bytesBE 4 fdtEnd ++ t)) :
    is = js ∧ s = t := by
  induction is generalizing js with
  | nil =>
    cases js with
    | nil => exact ⟨rfl, (bytesBE_append_inj (by decide) (by decide) h).2⟩
    | cons j js =>
      simp only [fdtItemsBytes, List.flatMap_cons, List.append_assoc] at h
      exact absurd h.symm (j.bytes_ne_end _ _)
  | cons i is ih =>
    cases js with
    | nil =>
      simp only [fdtItemsBytes, List.flatMap_cons, List.append_assoc] at h
      exact absurd h (i.bytes_ne_end _ _)
    | cons j js =>
      simp only [fdtItemsBytes, List.flatMap_cons, List.append_assoc] at h
      obtain ⟨rfl, htail⟩ := FdtItem.bytes_append_inj (his i (by simp)) (hjs j (by simp)) h
      obtain ⟨rfl, rfl⟩ :=
        ih (fun i hi ↦ his i (by simp [hi])) (fun j hj ↦ hjs j (by simp [hj])) htail
      exact ⟨rfl, rfl⟩

/-! ## The loop over the tokens -/

/-- What the loop makes of a token. -/
def FdtScan.item (s : FdtScan) : FdtItem → FdtScan
  | .beginNode .. => { s with depth := s.depth + 1, maxDepth := max s.maxDepth (s.depth + 1) }
  | .endNode => { s with depth := s.depth - 1 }
  | .prop .. => { s with propCount := s.propCount + 1 }

/-- The depth counted from `d` on never falls below zero. -/
def StaysFrom (d : ℤ) (items : List FdtItem) : Prop := ∀ p, p <+: items → 0 ≤ d + fdtDepth p

theorem staysFrom_cons {d : ℤ} {i : FdtItem} {items : List FdtItem} (hd : 0 ≤ d) :
    StaysFrom d (i :: items) ↔ StaysFrom (d + i.rise) items := by
  constructor
  · intro h p hp
    have := h (i :: p) (List.prefix_cons_inj i |>.mpr hp)
    simp only [fdtDepth, List.map_cons, List.sum_cons] at this
    simp only [fdtDepth]
    omega
  · intro h p hp
    cases p with
    | nil => simpa [fdtDepth] using hd
    | cons j p =>
      obtain ⟨rfl, hp'⟩ := List.cons_prefix_cons.mp hp
      have := h p hp'
      simp only [fdtDepth, List.map_cons, List.sum_cons]
      simp only [fdtDepth] at this
      omega

theorem FdtScan.depth_item (s : FdtScan) (i : FdtItem) : (s.item i).depth = s.depth + i.rise := by
  cases i
  · rfl
  · exact sub_eq_add_neg _ _
  · exact (add_zero _).symm

section Scan

variable {size stringsLen fuel : ℕ} {s : FdtScan}

theorem scanStruct_item {i : FdtItem} (hfits : i.Fits stringsLen) (hd : 0 ≤ s.depth + i.rise)
    (tail : Bytes) :
    scanStruct size stringsLen (fuel + 1) (i.bytes ++ tail) s =
      scanStruct size stringsLen fuel tail (s.item i) := by
  cases i with
  | beginNode name pad =>
    obtain ⟨hname, hpad⟩ := hfits
    have hcstr : cstring (name ++ 0 :: (pad ++ tail)) = some name := cstring_append hname
    have hdrop : (name ++ 0 :: (pad ++ tail)).drop (roundUp4 (name.length + 1)) = tail := by
      rw [show name ++ 0 :: (pad ++ tail) = (name ++ 0 :: pad) ++ tail by simp]
      apply List.drop_left'
      simp only [List.length_append, List.length_cons]
      omega
    rw [FdtItem.bytes, List.append_assoc, List.append_assoc, List.cons_append, scanStruct,
      if_neg (by simp), unpackBE_append (by decide)]
    simp only [bind, Except.bind, if_true, hcstr, hdrop]
    rfl
  | endNode =>
    have hdepth : 0 ≤ s.depth - 1 := hd
    rw [FdtItem.bytes, scanStruct, if_neg (by simp), unpackBE_append (by decide)]
    simp only [bind, Except.bind, check, hdepth, decide_true, if_true]
    rfl
  | prop nameoff value pad =>
    obtain ⟨hvalue, hoff, hname, hpad⟩ := hfits
    have hdrop : (value ++ (pad ++ tail)).drop (roundUp4 value.length) = tail := by
      rw [← List.append_assoc]
      exact List.drop_left' (by rw [List.length_append, hpad])
    rw [FdtItem.bytes, List.append_assoc, scanStruct, if_neg (by simp),
      unpackBE_append (by decide), List.append_assoc, List.append_assoc, List.append_assoc]
    simp only [bind, Except.bind, unpackBE_append (show value.length < 256 ^ 4 from hvalue),
      unpackBE_append (show nameoff < 256 ^ 4 from hoff), check, hname, decide_true, if_true, hdrop]
    rfl

theorem scanStruct_items (items : List FdtItem) (hfits : ∀ i ∈ items, i.Fits stringsLen)
    (hd : 0 ≤ s.depth) (hstays : StaysFrom s.depth items) (tail : Bytes) :
    scanStruct size stringsLen (fuel + items.length) (fdtItemsBytes items ++ tail) s =
      scanStruct size stringsLen fuel tail (items.foldl FdtScan.item s) := by
  induction items generalizing s with
  | nil => rfl
  | cons i items ih =>
    have hi : 0 ≤ s.depth + i.rise := by
      simpa [fdtDepth] using hstays [i] ⟨items, rfl⟩
    rw [fdtItemsBytes, List.flatMap_cons, List.append_assoc, List.length_cons, ← Nat.add_assoc,
      scanStruct_item (hfits i (by simp)) hi, List.foldl_cons]
    refine ih (fun i hi ↦ hfits i (by simp [hi])) ?_ ?_
    · rwa [FdtScan.depth_item]
    · rw [FdtScan.depth_item]
      exact (staysFrom_cons hd).mp hstays

theorem scanStruct_end (rest : Bytes) :
    scanStruct size stringsLen (fuel + 1) (bytesBE 4 fdtEnd ++ rest) s = .ok (s, true) := by
  rw [scanStruct, if_neg (by simp), unpackBE_append (by decide)]
  rfl

theorem scanStruct_cut {bs : Bytes} (h : CutToken bs) :
    ∃ e, scanStruct size stringsLen (fuel + 1) bs s = .error e ∧ e.isAssertion = false := by
  obtain ⟨hpos, hlt⟩ | ⟨r, rfl, hr⟩ | ⟨r, rfl, hr⟩ := h
  · refine ⟨.structError, ?_, rfl⟩
    rw [scanStruct, if_neg (by omega), unpackBE, readBE_eq_none_iff.mpr hlt]
    rfl
  · refine ⟨.valueError, ?_, rfl⟩
    rw [scanStruct, if_neg (by simp), unpackBE_append (by decide)]
    simp only [bind, Except.bind, if_true, cstring_eq_none_iff.mpr hr]
  · refine ⟨.structError, ?_, rfl⟩
    rw [scanStruct, if_neg (by simp), unpackBE_append (by decide)]
    simp only [bind, Except.bind]
    rw [if_neg (by decide), if_neg (by decide), if_pos trivial, unpackBE]
    cases hread : readBE 4 r with
    | none => rfl
    | some p =>
      obtain ⟨hlt, rfl⟩ := readBE_eq_some_iff.mp hread
      have hshort : p.2.length < 4 := by
        simp only [List.length_append, length_bytesBE] at hr
        omega
      simp only [unpackBE, readBE_eq_none_iff.mpr hshort]

end Scan

/-- What is left holds no whole token, or the `FDT_END`. -/
def LastToken (bs : Bytes) : Prop := CutToken bs ∨ ∃ tail, bs = bytesBE 4 fdtEnd ++ tail

/-- How the loop can end with `r`: out of bytes, at a failed check, or behind whole tokens. -/
def ScanEnds (stringsLen : ℕ) (bs : Bytes) (d : ℤ) (r : Except FdtError (FdtScan × Bool)) : Prop :=
  (∃ s, r = .ok (s, false)) ∨ (∃ e, r = .error e ∧ e.isAssertion = true) ∨
    ∃ items rest, bs = fdtItemsBytes items ++ rest ∧ (∀ i ∈ items, i.Fits stringsLen) ∧
      StaysFrom d items ∧ LastToken rest

section Scan

variable {size stringsLen fuel : ℕ} {bs tail : Bytes} {s : FdtScan} {d : ℤ}
  {r : Except FdtError (FdtScan × Bool)}

theorem ScanEnds.last (hd : 0 ≤ d) (h : LastToken bs) : ScanEnds stringsLen bs d r := by
  refine .inr (.inr ⟨[], bs, rfl, by simp, ?_, h⟩)
  intro p hp
  rw [List.prefix_nil.mp hp]
  simpa [fdtDepth] using hd

theorem ScanEnds.cons {i : FdtItem} (hd : 0 ≤ d) (hfits : i.Fits stringsLen)
    (h : ScanEnds stringsLen tail (d + i.rise) r) : ScanEnds stringsLen (i.bytes ++ tail) d r := by
  obtain hrun | herr | ⟨items, rest, rfl, hall, hstays, hlast⟩ := h
  · exact .inl hrun
  · exact .inr (.inl herr)
  · refine .inr (.inr ⟨i :: items, rest, by simp [fdtItemsBytes], ?_, ?_, hlast⟩)
    · intro j hj
      rcases List.mem_cons.mp hj with rfl | hj
      · exact hfits
      · exact hall j hj
    · exact (staysFrom_cons hd).mpr hstays

theorem scanStruct_token {tok : ℕ} {rest : Bytes} (hread : readBE 4 bs = some (tok, rest)) :
    bs.length ≠ 0 ∧ unpackBE 4 bs = .ok (tok, rest) := by
  obtain ⟨-, rfl⟩ := readBE_eq_some_iff.mp hread
  exact ⟨by simp, by rw [unpackBE, hread]⟩

theorem scanStruct_nil : scanStruct size stringsLen fuel [] s = .ok (s, false) := by
  cases fuel <;> rfl

variable (ih : ∀ {bs : Bytes} {s : FdtScan}, bs.length < fuel → 0 ≤ s.depth →
  ScanEnds stringsLen bs s.depth (scanStruct size stringsLen fuel bs s))
include ih

theorem scanEnds_item {i : FdtItem} (hfuel : (i.bytes ++ tail).length < fuel + 1) (hd : 0 ≤ s.depth)
    (hfits : i.Fits stringsLen) (hrise : 0 ≤ s.depth + i.rise) :
    ScanEnds stringsLen (i.bytes ++ tail) s.depth
      (scanStruct size stringsLen (fuel + 1) (i.bytes ++ tail) s) := by
  have hbytes : 4 ≤ i.bytes.length := by
    cases i <;> simp [FdtItem.bytes]
  have hdepth := FdtScan.depth_item s i
  rw [scanStruct_item hfits hrise]
  apply ScanEnds.cons hd hfits
  rw [← hdepth]
  apply ih
  · rw [List.length_append] at hfuel
    omega
  · rwa [hdepth]

theorem scanEnds_beginNode {rest : Bytes}
    (hfuel : (bytesBE 4 fdtBeginNode ++ rest).length < fuel + 1) (hd : 0 ≤ s.depth) :
    ScanEnds stringsLen (bytesBE 4 fdtBeginNode ++ rest) s.depth
      (scanStruct size stringsLen (fuel + 1) (bytesBE 4 fdtBeginNode ++ rest) s) := by
  obtain ⟨hbs, hscan⟩ := scanStruct_token (readBE_append (k := 4) (n := fdtBeginNode) (by decide) rest)
  cases hname : cstring rest with
  | none => exact .last hd (.inl (.inr (.inl ⟨rest, rfl, cstring_eq_none_iff.mp hname⟩)))
  | some name =>
    obtain ⟨hnul, r, rfl⟩ := cstring_eq_some_iff.mp hname
    by_cases hpad : roundUp4 (name.length + 1) ≤ name.length + 1 + r.length
    · have hround : name.length + 1 ≤ roundUp4 (name.length + 1) := by
        rw [roundUp4]
        omega
      have hitem : bytesBE 4 fdtBeginNode ++ (name ++ 0 :: r) =
          (FdtItem.beginNode name (r.take (roundUp4 (name.length + 1) - (name.length + 1)))).bytes ++
            r.drop (roundUp4 (name.length + 1) - (name.length + 1)) := by
        simp [FdtItem.bytes]
      rw [hitem] at hfuel ⊢
      refine scanEnds_item ih hfuel hd ⟨hnul, ?_⟩ ?_
      · rw [List.length_take]
        omega
      · simp only [FdtItem.rise]
        omega
    · have hdrop : (name ++ 0 :: r).drop (roundUp4 (name.length + 1)) = [] := by
        apply List.drop_eq_nil_of_le
        simp only [List.length_append, List.length_cons]
        omega
      refine .inl ⟨s.item (.beginNode name []), ?_⟩
      rw [scanStruct, if_neg hbs, hscan]
      simp only [bind, Except.bind, if_true, hname, hdrop, scanStruct_nil]
      rfl

theorem scanEnds_endNode {rest : Bytes} (hfuel : (bytesBE 4 fdtEndNode ++ rest).length < fuel + 1)
    (hd : 0 ≤ s.depth) :
    ScanEnds stringsLen (bytesBE 4 fdtEndNode ++ rest) s.depth
      (scanStruct size stringsLen (fuel + 1) (bytesBE 4 fdtEndNode ++ rest) s) := by
  obtain ⟨hbs, hscan⟩ := scanStruct_token (readBE_append (k := 4) (n := fdtEndNode) (by decide) rest)
  by_cases hdepth : 0 ≤ s.depth - 1
  · exact scanEnds_item (i := .endNode) ih hfuel hd trivial hdepth
  · refine .inr (.inl ⟨.badEndNode, ?_, rfl⟩)
    rw [scanStruct, if_neg hbs, hscan]
    simp only [bind, Except.bind]
    rw [if_neg (by decide), if_pos trivial, check, if_neg (by simpa using hdepth)]

theorem scanEnds_prop {rest : Bytes} (hfuel : (bytesBE 4 fdtProp ++ rest).length < fuel + 1)
    (hd : 0 ≤ s.depth) :
    ScanEnds stringsLen (bytesBE 4 fdtProp ++ rest) s.depth
      (scanStruct size stringsLen (fuel + 1) (bytesBE 4 fdtProp ++ rest) s) := by
  obtain ⟨hbs, hscan⟩ := scanStruct_token (readBE_append (k := 4) (n := fdtProp) (by decide) rest)
  by_cases hhdr : rest.length < 8
  · exact .last hd (.inl (.inr (.inr ⟨rest, rfl, hhdr⟩)))
  obtain ⟨plen, nameoff, r, hplt, hnlt, rfl⟩ : ∃ plen nameoff r, plen < 256 ^ 4 ∧
      nameoff < 256 ^ 4 ∧ rest = bytesBE 4 plen ++ (bytesBE 4 nameoff ++ r) := by
    refine ⟨natBE (rest.take 4), natBE ((rest.drop 4).take 4), (rest.drop 4).drop 4, ?_, ?_, ?_⟩
    · simpa [List.length_take_of_le (show 4 ≤ rest.length by omega)] using natBE_lt (rest.take 4)
    · have hlen : ((rest.drop 4).take 4).length = 4 := by simp; omega
      simpa [hlen] using natBE_lt ((rest.drop 4).take 4)
    · have hlen : (rest.take 4).length = 4 := List.length_take_of_le (by omega)
      have hlen' : ((rest.drop 4).take 4).length = 4 := by simp; omega
      have h1 := bytesBE_natBE (rest.take 4)
      have h2 := bytesBE_natBE ((rest.drop 4).take 4)
      rw [hlen] at h1
      rw [hlen'] at h2
      rw [h1, h2, List.take_append_drop, List.take_append_drop]
  have hread1 : unpackBE 4 (bytesBE 4 plen ++ (bytesBE 4 nameoff ++ r)) =
      .ok (plen, bytesBE 4 nameoff ++ r) := unpackBE_append hplt _
  have hread2 : unpackBE 4 (bytesBE 4 nameoff ++ r) = .ok (nameoff, r) := unpackBE_append hnlt _
  by_cases hstr : nameoff < stringsLen
  · by_cases hpad : roundUp4 plen ≤ r.length
    · have hround : plen ≤ roundUp4 plen := by
        rw [roundUp4]
        omega
      have htake : (r.take plen).length = plen := List.length_take_of_le (by omega)
      have hitem : bytesBE 4 fdtProp ++ (bytesBE 4 plen ++ (bytesBE 4 nameoff ++ r)) =
          (FdtItem.prop nameoff (r.take plen) ((r.drop plen).take (roundUp4 plen - plen))).bytes ++
            (r.drop plen).drop (roundUp4 plen - plen) := by
        simp only [FdtItem.bytes, htake, List.append_assoc, List.take_append_drop]
      rw [hitem] at hfuel ⊢
      refine scanEnds_item ih hfuel hd ⟨?_, hnlt, hstr, ?_⟩ (by simpa [FdtItem.rise] using hd)
      · rwa [htake]
      · rw [htake, List.length_take, List.length_drop]
        omega
    · refine .inl ⟨s.item (.prop nameoff [] []), ?_⟩
      have hdrop : r.drop (roundUp4 plen) = [] := List.drop_eq_nil_of_le (by omega)
      rw [scanStruct, if_neg hbs, hscan]
      simp only [bind, Except.bind]
      rw [if_neg (by decide), if_neg (by decide), if_pos trivial, hread1]
      simp only [hread2, check, hstr, decide_true, if_true, hdrop, scanStruct_nil]
      rfl
  · refine .inr (.inl ⟨.badNameoff nameoff, ?_, rfl⟩)
    rw [scanStruct, if_neg hbs, hscan]
    simp only [bind, Except.bind]
    rw [if_neg (by decide), if_neg (by decide), if_pos trivial, hread1]
    simp only [hread2, check, hstr, decide_false, Bool.false_eq_true, if_false]

omit ih in
theorem scanStruct_ends (fuel : ℕ) {bs : Bytes} {s : FdtScan} (hfuel : bs.length < fuel)
    (hd : 0 ≤ s.depth) :
    ScanEnds stringsLen bs s.depth (scanStruct size stringsLen fuel bs s) := by
  induction fuel generalizing bs s with
  | zero => omega
  | succ fuel ih =>
    by_cases hbs : bs.length = 0
    · exact .inl ⟨s, by rw [scanStruct, if_pos hbs]⟩
    cases hread : readBE 4 bs with
    | none => exact .last hd (.inl (.inl ⟨by omega, readBE_eq_none_iff.mp hread⟩))
    | some r =>
      obtain ⟨tok, rest⟩ := r
      obtain ⟨-, hscan⟩ := scanStruct_token hread
      obtain ⟨-, rfl⟩ := readBE_eq_some_iff.mp hread
      by_cases hbegin : tok = fdtBeginNode
      · subst hbegin
        exact scanEnds_beginNode ih hfuel hd
      by_cases hendn : tok = fdtEndNode
      · subst hendn
        exact scanEnds_endNode ih hfuel hd
      by_cases hprop : tok = fdtProp
      · subst hprop
        exact scanEnds_prop ih hfuel hd
      by_cases hend : tok = fdtEnd
      · subst hend
        exact .last hd (.inr ⟨rest, rfl⟩)
      · refine .inr (.inl ⟨.badToken tok (size - (bytesBE 4 tok ++ rest).length), ?_, rfl⟩)
        rw [scanStruct, if_neg hbs, hscan]
        simp only [bind, Except.bind]
        rw [if_neg hbegin, if_neg hendn, if_neg hprop, if_neg hend]

end Scan

/-! ## The figures -/

/-- The counters before the loop. -/
def FdtScan.start : FdtScan := { depth := 0, maxDepth := 0, propCount := 0 }

theorem fdtDepth_append_singleton (items : List FdtItem) (i : FdtItem) :
    fdtDepth (items ++ [i]) = fdtDepth items + i.rise := by simp [fdtDepth]

theorem foldl_item_figures (items : List FdtItem) :
    (items.foldl FdtScan.item .start).depth = fdtDepth items ∧
      (items.foldl FdtScan.item .start).propCount = items.countP FdtItem.isProp ∧
      IsGreatest {d | ∃ p, p <+: items ∧ fdtDepth p = d}
        (items.foldl FdtScan.item .start).maxDepth := by
  induction items using List.reverseRecOn with
  | nil =>
    refine ⟨rfl, rfl, ⟨[], List.prefix_refl _, rfl⟩, ?_⟩
    rintro d ⟨p, hp, rfl⟩
    rw [List.prefix_nil.mp hp]
    exact le_refl _
  | append_singleton items i ih =>
    obtain ⟨hdepth, hcount, ⟨p, hp, hmax⟩, hle⟩ := ih
    have hfold : (items ++ [i]).foldl FdtScan.item .start =
        (items.foldl FdtScan.item .start).item i := by rw [List.foldl_append]; rfl
    have hlast := fdtDepth_append_singleton items i
    have hitems : fdtDepth items ≤ (items.foldl FdtScan.item .start).maxDepth :=
      hle ⟨items, List.prefix_refl _, rfl⟩
    have hpre : ∀ q, q <+: items → fdtDepth q ≤ (items.foldl FdtScan.item .start).maxDepth :=
      fun q hq ↦ hle ⟨q, hq, rfl⟩
    rw [hfold, FdtScan.depth_item, hdepth, hlast, List.countP_append, ← hcount]
    refine ⟨rfl, ?_, ?_, ?_⟩
    · cases i <;> rfl
    · cases i with
      | beginNode name pad =>
        simp only [FdtScan.item, hdepth]
        rcases max_cases (items.foldl FdtScan.item .start).maxDepth (fdtDepth items + 1) with
          ⟨heq, -⟩ | ⟨heq, -⟩
        · exact ⟨p, hp.trans (List.prefix_append _ _), by rw [heq, hmax]⟩
        · exact ⟨items ++ [.beginNode name pad], List.prefix_refl _, by rw [heq, hlast]; rfl⟩
      | endNode => exact ⟨p, hp.trans (List.prefix_append _ _), hmax⟩
      | prop nameoff value pad => exact ⟨p, hp.trans (List.prefix_append _ _), hmax⟩
    · rintro d ⟨q, hq, rfl⟩
      have hgrow : (items.foldl FdtScan.item .start).maxDepth ≤
          ((items.foldl FdtScan.item .start).item i).maxDepth := by
        cases i with
        | beginNode name pad => exact le_max_left _ _
        | endNode => exact le_refl _
        | prop nameoff value pad => exact le_refl _
      rcases List.prefix_concat_iff.mp hq with rfl | hq
      · rw [hlast]
        cases i with
        | beginNode name pad =>
          simp only [FdtScan.item, FdtItem.rise, hdepth]
          exact le_max_right _ _
        | endNode =>
          simp only [FdtItem.rise]
          omega
        | prop nameoff value pad =>
          simp only [FdtItem.rise]
          omega
      · exact (hpre q hq).trans hgrow

/-! ## The header -/

theorem exists_unpackFields (n : ℕ) {bs : Bytes} (h : 4 * n ≤ bs.length) :
    ∃ fields, fields.length = n ∧ (∀ v ∈ fields, v < 2 ^ 32) ∧ unpackFields n bs = some fields ∧
      bs.take (4 * n) = (fields.map (bytesBE 4)).flatten := by
  induction n generalizing bs with
  | zero => exact ⟨[], rfl, by simp, rfl, by simp⟩
  | succ n ih =>
    cases hread : readBE 4 bs with
    | none => exact absurd (readBE_eq_none_iff.mp hread) (by omega)
    | some r =>
      obtain ⟨v, rest⟩ := r
      obtain ⟨hv, rfl⟩ := readBE_eq_some_iff.mp hread
      obtain ⟨fields, hlen, hlt, hfields, htake⟩ := ih (show 4 * n ≤ rest.length by
        rw [List.length_append, length_bytesBE] at h
        omega)
      refine ⟨v :: fields, by simp [hlen], ?_, ?_, ?_⟩
      · intro u hu
        rcases List.mem_cons.mp hu with rfl | hu
        · exact hv
        · exact hlt u hu
      · rw [unpackFields, hread]
        simp only [Option.bind_eq_bind, Option.bind_some, hfields]
        rfl
      · rw [show 4 * (n + 1) = (bytesBE 4 v).length + 4 * n by rw [length_bytesBE]; ring,
          List.take_length_add_append, htake]
        rfl

/-- The loop and the last checks, on the two blocks. -/
def checkBlocks (struct strings : Bytes) (totalsize : ℕ) : Except FdtError FdtSummary := do
  let (s, sawEnd) ← scanStruct struct.length strings.length (struct.length + 1) struct
    { depth := 0, maxDepth := 0, propCount := 0 }
  check (s.depth == 0) (.unbalanced s.depth)
  check sawEnd .noEnd
  check (2 ≤ s.maxDepth) (.shallow s.maxDepth)
  check (0 < s.propCount) .noProps
  return { maxDepth := s.maxDepth, propCount := s.propCount, totalsize := totalsize }

section Header

variable {blob struct strings : Bytes}

theorem HasLayout.length (h : HasLayout blob struct strings) :
    blob.length = 56 + struct.length + strings.length := by
  obtain ⟨version, lastComp, bootCpuid, -, -, -, -, rfl⟩ := h
  simp [fdtRsvmap]
  omega

/-- The fields and the blocks are where the validator looks for them. -/
theorem HasLayout.fields (h : HasLayout blob struct strings) :
    ∃ version lastComp bootCpuid, unpackFields 10 (slice blob 0 40) =
      some [fdtMagic, blob.length, 56, 56 + struct.length, 40, version, lastComp, bootCpuid,
        strings.length, struct.length] ∧
      slice blob 40 (40 + 16) = fdtRsvmap ∧ slice blob 56 (56 + struct.length) = struct ∧
        slice blob (56 + struct.length) (56 + struct.length + strings.length) = strings := by
  have hlen := h.length
  obtain ⟨version, lastComp, bootCpuid, hv, hl, hb, hlt, hblob⟩ := h
  set fields := [fdtMagic, 56 + struct.length + strings.length, 56, 56 + struct.length, 40, version,
    lastComp, bootCpuid, strings.length, struct.length] with hfields
  have h40 : ((fields.map (bytesBE 4)).flatten).length = 40 := by simp [hfields]
  have hsmall : ∀ v ∈ fields, v < 2 ^ 32 := by
    intro v hmem
    simp only [hfields, fdtMagic, List.mem_cons, List.not_mem_nil, or_false] at hmem
    rcases hmem with rfl | rfl | rfl | rfl | rfl | rfl | rfl | rfl | rfl | rfl <;> omega
  refine ⟨version, lastComp, bootCpuid, ?_, ?_, ?_, ?_⟩
  · have hslice : slice blob 0 40 = (fields.map (bytesBE 4)).flatten := by
      rw [slice, hblob, List.drop_zero]
      exact List.take_left' h40
    have hunpack := unpackFields_flatten fields hsmall []
    rw [List.append_nil] at hunpack
    rw [hslice, hlen]
    exact hunpack
  · rw [hblob]
    exact slice_append h40 rfl
  · rw [hblob, ← List.append_assoc]
    exact slice_append (by simp only [List.length_append, h40, fdtRsvmap, List.length_replicate]) rfl
  · rw [hblob, show (fields.map (bytesBE 4)).flatten ++ (fdtRsvmap ++ (struct ++ strings)) =
      ((fields.map (bytesBE 4)).flatten ++ fdtRsvmap ++ struct) ++ (strings ++ []) by simp]
    exact slice_append (by simp only [List.length_append, h40, fdtRsvmap, List.length_replicate]) rfl

theorem HasLayout.parse (h : HasLayout blob struct strings) :
    parseAndValidate blob = checkBlocks struct strings blob.length := by
  obtain ⟨version, lastComp, bootCpuid, hfields, hrsv, hstruct, hstrings⟩ := h.fields
  have hread : unpackBE 8 fdtRsvmap = .ok (0, List.replicate 8 0) := by decide
  have hread' : unpackBE 8 (List.replicate 8 0) = .ok (0, []) := by decide
  have hend := h.length.symm
  rw [hend] at hstrings
  rw [parseAndValidate, hfields]
  simp only [check, BEq.rfl, if_true, bind, Except.bind, hrsv, hread, hread', hstruct, hstrings,
    hend, Bool.and_self]
  rfl

/-- The header decides what the two blocks are. -/
theorem HasLayout.unique {struct' strings' : Bytes} (h : HasLayout blob struct strings)
    (h' : HasLayout blob struct' strings') : struct = struct' ∧ strings = strings' := by
  obtain ⟨v, l, b, hfields, -, hstruct, hstrings⟩ := h.fields
  obtain ⟨v', l', b', hfields', -, hstruct', hstrings'⟩ := h'.fields
  rw [hfields] at hfields'
  obtain ⟨-, hstr, hlen⟩ : struct.length = struct'.length ∧ strings.length = strings'.length ∧
      struct.length = struct'.length := by
    simp only [Option.some.injEq, List.cons.injEq] at hfields'
    omega
  rw [hlen] at hstruct hstrings
  rw [hstr] at hstrings
  exact ⟨hstruct.symm.trans hstruct', hstrings.symm.trans hstrings'⟩

theorem layout_or_assertion (h : 40 ≤ blob.length) :
    (∃ struct strings, HasLayout blob struct strings) ∨
      ∃ e, parseAndValidate blob = .error e ∧ e.isAssertion = true := by
  have h40 : (slice blob 0 40).length = 40 := by simp [slice]; omega
  obtain ⟨fields, hlen, hlt, hunpack, htake⟩ :=
    exists_unpackFields 10 (show 4 * 10 ≤ (slice blob 0 40).length by omega)
  obtain ⟨magic, totalsize, offStruct, offStrings, offRsvmap, version, lastComp, bootCpuid,
    sizeStrings, sizeStruct, rfl⟩ : ∃ a b c d e f g h i j, fields = [a, b, c, d, e, f, g, h, i, j] := by
    rcases fields with _ | ⟨a, _ | ⟨b, _ | ⟨c, _ | ⟨d, _ | ⟨e, _ | ⟨f, _ | ⟨g, _ | ⟨h, _ | ⟨i,
      _ | ⟨j, _ | ⟨k, t⟩⟩⟩⟩⟩⟩⟩⟩⟩⟩⟩ <;> first
    | exact ⟨_, _, _, _, _, _, _, _, _, _, rfl⟩
    | simp at hlen
  rw [parseAndValidate, hunpack]
  simp only [check, bind, Except.bind]
  by_cases hmagic : magic = fdtMagic
  swap
  · exact .inr ⟨.badMagic magic, by simp [hmagic], rfl⟩
  by_cases htotal : totalsize = blob.length
  swap
  · exact .inr ⟨.badTotalsize totalsize blob.length, by simp [hmagic, htotal], rfl⟩
  by_cases hrsvoff : offRsvmap = 40
  swap
  · exact .inr ⟨.badRsvmapOffset offRsvmap, by simp [hmagic, htotal, hrsvoff], rfl⟩
  by_cases hstroff : offStruct = 40 + 16
  swap
  · exact .inr ⟨.badStructOffset, by simp [hmagic, htotal, hrsvoff, hstroff], rfl⟩
  by_cases hstrings : offStrings = 40 + 16 + sizeStruct
  swap
  · exact .inr ⟨.badStringsOffset, by simp [hmagic, htotal, hrsvoff, hstroff, hstrings], rfl⟩
  by_cases hend : 40 + 16 + sizeStruct + sizeStrings = blob.length
  swap
  · exact .inr ⟨.badEnd, by simp [hmagic, htotal, hrsvoff, hstroff, hstrings, hend], rfl⟩
  subst hmagic htotal hrsvoff hstroff hstrings
  have hrsvlen : (slice blob 40 (40 + 16)).length = 16 := by
    rw [slice, List.length_take, List.length_drop]
    omega
  obtain ⟨addr, size, haddr, hsize, hrsv⟩ : ∃ addr size, addr < 256 ^ 8 ∧ size < 256 ^ 8 ∧
      slice blob 40 (40 + 16) = bytesBE 8 addr ++ (bytesBE 8 size ++ []) := by
    cases hread : readBE 8 (slice blob 40 (40 + 16)) with
    | none => exact absurd (readBE_eq_none_iff.mp hread) (by omega)
    | some r =>
      obtain ⟨addr, rest⟩ := r
      obtain ⟨haddr, hrest⟩ := readBE_eq_some_iff.mp hread
      have hlen8 : rest.length = 8 := by
        have := congrArg List.length hrest
        rw [hrsvlen, List.length_append, length_bytesBE] at this
        omega
      have hlt := natBE_lt rest
      have hback := bytesBE_natBE rest
      rw [hlen8] at hlt hback
      exact ⟨addr, natBE rest, haddr, hlt, by rw [hrest, hback, List.append_nil]⟩
  have hread1 : unpackBE 8 (slice blob 40 (40 + 16)) = .ok (addr, bytesBE 8 size ++ []) := by
    rw [hrsv, unpackBE, readBE_append haddr]
  have hread2 : unpackBE 8 (bytesBE 8 size ++ []) = .ok (size, []) := by
    rw [unpackBE, readBE_append hsize]
  by_cases hzero : addr = 0 ∧ size = 0
  swap
  · refine .inr ⟨.badRsvmap, ?_, rfl⟩
    simp only [BEq.rfl, if_true, hend, hread1, hread2]
    rw [if_neg (by simpa using hzero)]
  obtain ⟨rfl, rfl⟩ := hzero
  left
  have hstruct : (slice blob 56 (56 + sizeStruct)).length = sizeStruct := by
    rw [slice, List.length_take, List.length_drop]
    omega
  have hnames : (slice blob (56 + sizeStruct) (56 + sizeStruct + sizeStrings)).length =
      sizeStrings := by
    rw [slice, List.length_take, List.length_drop]
    omega
  refine ⟨slice blob 56 (56 + sizeStruct),
    slice blob (56 + sizeStruct) (56 + sizeStruct + sizeStrings), version, lastComp, bootCpuid,
    hlt _ (by simp), hlt _ (by simp), hlt _ (by simp), hlt _ (by simp), ?_⟩
  have hfull : slice blob 0 40 = blob.take 40 := by rw [slice, List.drop_zero]
  have hhead : ([fdtMagic, blob.length, 56, 56 + sizeStruct, 40, version, lastComp, bootCpuid,
      sizeStrings, sizeStruct].map (bytesBE 4)).flatten = blob.take 40 := by
    rw [← hfull, ← List.take_of_length_le (show (slice blob 0 40).length ≤ 4 * 10 by omega)]
    exact htake.symm
  have hzeros : slice blob 40 (40 + 16) = fdtRsvmap := by
    rw [hrsv]
    decide
  rw [hstruct, hnames, show 56 + sizeStruct + sizeStrings = blob.length by omega, hhead, ← hzeros]
  simp only [slice]
  have h3 : (blob.drop (56 + sizeStruct)).take (blob.length - (56 + sizeStruct)) =
      (blob.drop 56).drop sizeStruct := by
    rw [List.drop_drop]
    exact List.take_of_length_le (by rw [List.length_drop])
  have h2 : blob.drop 56 = (blob.drop 40).drop 16 := by rw [List.drop_drop]
  rw [h3, show 56 + sizeStruct - 56 = sizeStruct by omega, List.take_append_drop, h2,
    show 40 + 16 - 40 = 16 by rfl, List.take_append_drop, List.take_append_drop]

end Header

/-! ## The decision -/

section Decision

variable {blob struct strings : Bytes} {items : List FdtItem} {rest : Bytes}

theorem length_le_fdtItemsBytes (items : List FdtItem) :
    items.length ≤ (fdtItemsBytes items).length := by
  induction items with
  | nil => simp
  | cons i items ih =>
    have hbytes : 4 ≤ i.bytes.length := by
      cases i <;> simp [FdtItem.bytes]
    simp only [fdtItemsBytes] at ih
    rw [fdtItemsBytes, List.flatMap_cons, List.length_append, List.length_cons]
    omega

theorem staysFrom_zero : StaysFrom 0 items ↔ NeverBelow items := by simp [StaysFrom, NeverBelow]

/-- The loop over the whole block comes to what follows the tokens. -/
theorem scanStruct_block (stringsLen : ℕ) (hsplit : struct = fdtItemsBytes items ++ rest)
    (hfits : ∀ i ∈ items, i.Fits stringsLen) (hbelow : NeverBelow items) :
    ∃ fuel, scanStruct struct.length stringsLen (struct.length + 1) struct .start =
      scanStruct struct.length stringsLen (fuel + 1) rest (items.foldl FdtScan.item .start) := by
  have hlen := length_le_fdtItemsBytes items
  have hle : items.length ≤ struct.length := by
    rw [hsplit, List.length_append]
    omega
  have hrun : scanStruct struct.length stringsLen (struct.length - items.length + 1 + items.length)
      (fdtItemsBytes items ++ rest) .start =
        scanStruct struct.length stringsLen (struct.length - items.length + 1) rest
          (items.foldl FdtScan.item .start) :=
    scanStruct_items items hfits le_rfl (staysFrom_zero.mpr hbelow) rest
  refine ⟨struct.length - items.length, ?_⟩
  rw [← hrun, ← hsplit]
  congr 1
  omega

theorem FdtSummary.Describes.unique {s t : FdtSummary} {n : ℕ} (hs : s.Describes items n)
    (ht : t.Describes items n) : s = t := by
  obtain ⟨hmax, hcount, htotal⟩ := hs
  obtain ⟨hmax', hcount', htotal'⟩ := ht
  cases s
  cases t
  simp only [FdtSummary.mk.injEq]
  exact ⟨hmax.unique hmax', hcount.trans hcount'.symm, htotal.trans htotal'.symm⟩

theorem checkBlocks_reaches (h : Reaches struct strings items rest) (n : ℕ) :
    ∃ s, checkBlocks struct strings n = .ok s ∧ s.Describes items n := by
  obtain ⟨hdepth, hcount, hmax⟩ := foldl_item_figures items
  obtain ⟨fuel, hscan⟩ := scanStruct_block strings.length h.split h.fits h.neverBelow
  obtain ⟨p, hp, hdeep⟩ := h.deep
  have htwo : 2 ≤ (items.foldl FdtScan.item .start).maxDepth := hdeep.trans (hmax.2 ⟨p, hp, rfl⟩)
  have hpos : 0 < (items.foldl FdtScan.item .start).propCount := by
    rw [hcount, List.countP_pos_iff]
    exact h.hasProp
  rw [scanStruct_end, FdtScan.start] at hscan
  rw [h.balanced] at hdepth
  rw [FdtScan.start] at hdepth htwo hpos
  refine ⟨⟨(items.foldl FdtScan.item .start).maxDepth, (items.foldl FdtScan.item .start).propCount,
    n⟩, ?_, ⟨hmax, hcount, rfl⟩⟩
  rw [checkBlocks, hscan]
  simp only [bind, Except.bind, check, hdepth, htwo, hpos, BEq.rfl, decide_true, if_true]
  rfl

theorem parse_of_wellFormed {s : FdtSummary} (h : WellFormed blob s) :
    parseAndValidate blob = .ok s := by
  obtain ⟨struct, strings, items, hlayout, hreach, -, hs⟩ := h
  obtain ⟨t, hcheck, ht⟩ := checkBlocks_reaches hreach blob.length
  rw [hlayout.parse, hcheck, ht.unique hs]

theorem parse_of_cutShort (h : CutShort blob) :
    ∃ e, parseAndValidate blob = .error e ∧ e.isAssertion = false := by
  obtain hshort | ⟨struct, strings, items, rest, hlayout, hsplit, hfits, hbelow, hcut⟩ := h
  · refine ⟨.structError, ?_, rfl⟩
    have hnone : ∀ n (bs : Bytes), bs.length < 4 * n → unpackFields n bs = none := by
      intro n
      induction n with
      | zero => intro bs h; omega
      | succ n ih =>
        intro bs h
        rw [unpackFields]
        cases hread : readBE 4 bs with
        | none => rfl
        | some r =>
          obtain ⟨-, rfl⟩ := readBE_eq_some_iff.mp hread
          rw [List.length_append, length_bytesBE] at h
          simp only [Option.bind_eq_bind, Option.bind_some, ih r.2 (by omega), Option.bind_none]
    rw [parseAndValidate, hnone 10 _ (by simp [slice]; omega)]
  · obtain ⟨fuel, hscan⟩ := scanStruct_block strings.length hsplit hfits hbelow
    obtain ⟨e, herr, he⟩ : ∃ e, scanStruct struct.length strings.length (fuel + 1) rest
        (items.foldl FdtScan.item .start) = .error e ∧ e.isAssertion = false := scanStruct_cut hcut
    rw [herr, FdtScan.start] at hscan
    refine ⟨e, ?_, he⟩
    rw [hlayout.parse, checkBlocks, hscan]
    rfl

/-- Without a well-formed or too loose reading, and nothing cut short, some check fails. -/
theorem checkBlocks_cases (struct strings : Bytes) (n : ℕ) :
    (∃ e, checkBlocks struct strings n = .error e ∧ e.isAssertion = true) ∨
      (∃ items rest, Reaches struct strings items rest) ∨
      ∃ items rest, struct = fdtItemsBytes items ++ rest ∧ (∀ i ∈ items, i.Fits strings.length) ∧
        NeverBelow items ∧ CutToken rest := by
  have hends : ScanEnds strings.length struct 0
      (scanStruct struct.length strings.length (struct.length + 1) struct .start) :=
    scanStruct_ends (struct.length + 1) (Nat.lt_succ_self struct.length) le_rfl
  obtain ⟨s, hrun⟩ | ⟨e, herr, he⟩ | ⟨items, rest, hsplit, hfits, hstays, hlast⟩ := hends
  · left
    rw [FdtScan.start] at hrun
    by_cases hdepth : s.depth = 0
    · refine ⟨.noEnd, ?_, rfl⟩
      rw [checkBlocks, hrun]
      simp [bind, Except.bind, check, hdepth]
    · refine ⟨.unbalanced s.depth, ?_, rfl⟩
      rw [checkBlocks, hrun]
      simp [bind, Except.bind, check, hdepth]
  · refine .inl ⟨e, ?_, he⟩
    rw [FdtScan.start] at herr
    rw [checkBlocks, herr]
    rfl
  have hbelow : NeverBelow items := staysFrom_zero.mp hstays
  obtain hcut | ⟨tail, rfl⟩ := hlast
  · exact .inr (.inr ⟨items, rest, hsplit, hfits, hbelow, hcut⟩)
  obtain ⟨fuel, hscan⟩ := scanStruct_block strings.length hsplit hfits hbelow
  obtain ⟨hdepth, hcount, ⟨p, hp, hpmax⟩, -⟩ := foldl_item_figures items
  rw [scanStruct_end] at hscan
  set s := items.foldl FdtScan.item .start with hs
  rw [FdtScan.start] at hscan
  by_cases hzero : s.depth = 0
  swap
  · refine .inl ⟨.unbalanced s.depth, ?_, rfl⟩
    rw [checkBlocks, hscan]
    simp [bind, Except.bind, check, hzero]
  by_cases htwo : 2 ≤ s.maxDepth
  swap
  · refine .inl ⟨.shallow s.maxDepth, ?_, rfl⟩
    rw [checkBlocks, hscan]
    simp [bind, Except.bind, check, hzero, htwo]
  by_cases hpos : 0 < s.propCount
  swap
  · refine .inl ⟨.noProps, ?_, rfl⟩
    rw [checkBlocks, hscan]
    simp [bind, Except.bind, check, hzero, htwo, hpos]
  refine .inr (.inl ⟨items, tail, hsplit, hfits, hbelow, hdepth ▸ hzero, ⟨p, hp, ?_⟩, ?_⟩)
  · rwa [hpmax]
  · rwa [hcount, List.countP_pos_iff] at hpos

/-- On a blob the self-check does not misjudge some check fails or the blob is well formed. -/
theorem decides_of_error {e : FdtError} (h : parseAndValidate blob = .error e)
    (he : e.isAssertion = true) : DecidesWellFormed blob := by
  refine ⟨fun s ↦ ⟨fun hok ↦ ?_, parse_of_wellFormed⟩, fun _ ↦ ⟨e, h, he⟩⟩
  rw [h] at hok
  cases hok

theorem parse_and_validate_decides_iff (blob : Bytes) :
    DecidesWellFormed blob ↔ ¬(CutShort blob ∨ TooLoose blob) := by
  constructor
  · rintro ⟨hiff, herr⟩ (hcut | ⟨struct, strings, items, rest, hlayout, hreach, hloose⟩)
    · obtain ⟨e, hparse, he⟩ := parse_of_cutShort hcut
      have hnot : ∀ s, ¬WellFormed blob s := by
        intro s hs
        rw [parse_of_wellFormed hs] at hparse
        cases hparse
      obtain ⟨e', hparse', he'⟩ := herr hnot
      rw [hparse] at hparse'
      cases hparse'
      rw [he] at he'
      cases he'
    · obtain ⟨s, hcheck, -⟩ := checkBlocks_reaches hreach blob.length
      rw [← hlayout.parse] at hcheck
      obtain ⟨struct', strings', items', hlayout', hreach', hinside, -⟩ := (hiff s).mp hcheck
      obtain ⟨rfl, rfl⟩ := hlayout.unique hlayout'
      obtain ⟨rfl, rfl⟩ := fdtItems_inj hreach.fits hreach'.fits (hreach.split.symm.trans hreach'.split)
      rcases hloose with hrest | hprops
      · exact hrest rfl
      · exact hprops hinside
  · intro hnot
    rw [not_or] at hnot
    obtain ⟨hcut, hloose⟩ := hnot
    have h40 : 40 ≤ blob.length := by
      by_contra hshort
      exact hcut (.inl (by omega))
    obtain ⟨struct, strings, hlayout⟩ | ⟨e, hparse, he⟩ := layout_or_assertion h40
    swap
    · exact decides_of_error hparse he
    obtain ⟨e, herr, he⟩ | ⟨items, rest, hreach⟩ | ⟨items, rest, hsplit, hfits, hbelow, htok⟩ :=
      checkBlocks_cases struct strings blob.length
    · exact decides_of_error (hlayout.parse.trans herr) he
    · have hrest : rest = [] := by
        by_contra hne
        exact hloose ⟨struct, strings, items, rest, hlayout, hreach, .inl hne⟩
      have hinside : PropsInside items := by
        by_contra hne
        exact hloose ⟨struct, strings, items, rest, hlayout, hreach, .inr hne⟩
      subst hrest
      obtain ⟨s, hcheck, hs⟩ := checkBlocks_reaches hreach blob.length
      have hwf : WellFormed blob s := ⟨struct, strings, items, hlayout, hreach, hinside, hs⟩
      refine ⟨fun t ↦ ⟨fun hok ↦ ?_, parse_of_wellFormed⟩, fun hnone ↦ absurd hwf (hnone s)⟩
      rw [parse_of_wellFormed hwf] at hok
      cases hok
      exact hwf
    · exact absurd (.inr ⟨struct, strings, items, rest, hlayout, hsplit, hfits, hbelow, htok⟩) hcut

end Decision

/-- Thirty-nine bytes: the header is not even read. -/
theorem not_decides_short : ¬DecidesWellFormed (List.replicate 39 0) := by
  rintro ⟨-, herr⟩
  have hparse : parseAndValidate (List.replicate 39 0) = .error .structError := by decide
  have hnot : ∀ s, ¬WellFormed (List.replicate 39 0) s := by
    intro s hs
    rw [parse_of_wellFormed hs] at hparse
    cases hparse
  obtain ⟨e, he, hassert⟩ := herr hnot
  rw [hparse] at he
  cases he
  cases hassert

end RvPipeline
