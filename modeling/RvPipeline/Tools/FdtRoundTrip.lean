import RvPipeline.Tools.FdtDecode

/-!
# The round trip of a devicetree

The builder appends one record for each call and interns the names of properties; the records are read
back one by one, with the names found in the final strings block.
-/

namespace RvPipeline

open Py

/-! ## ASCII -/

/-- An ASCII text without NUL. -/
def isName (s : Str) : Bool := s.all fun c ↦ 0 < c.toNat && c.toNat < 128

theorem isAscii_of_isName {s : Str} (h : isName s = true) : isAscii s = true := by
  rw [isName, List.all_eq_true] at h
  rw [isAscii, List.all_eq_true]
  intro c hc
  have hchar := h c hc
  rw [Bool.and_eq_true] at hchar
  exact hchar.2

theorem encodeAscii_of_isName {s : Str} (h : isName s = true) :
    encodeAscii s = some (asciiBytes s) := if_pos (isAscii_of_isName h)

theorem zero_notMem_asciiBytes {s : Str} (h : isName s = true) : (0 : BitVec 8) ∉ asciiBytes s := by
  intro hmem
  obtain ⟨c, hc, hzero⟩ := List.mem_map.mp hmem
  have hchar := List.all_eq_true.mp h c hc
  simp only [Bool.and_eq_true, decide_eq_true_eq] at hchar
  have hnat := congrArg BitVec.toNat hzero
  rw [BitVec.toNat_ofNat, Nat.mod_eq_of_lt (by omega)] at hnat
  exact absurd hnat (by simp; omega)

theorem decodeAscii_asciiBytes {s : Str} (h : isName s = true) :
    decodeAscii (asciiBytes s) = some s := by
  have hchar : ∀ c ∈ s, (BitVec.ofNat 8 c.toNat).toNat = c.toNat ∧ c.toNat < 128 := by
    intro c hc
    have hc' := List.all_eq_true.mp h c hc
    simp only [Bool.and_eq_true, decide_eq_true_eq] at hc'
    exact ⟨by rw [BitVec.toNat_ofNat, Nat.mod_eq_of_lt (by omega)], hc'.2⟩
  have hall : (asciiBytes s).all (fun b ↦ b.toNat < 128) = true := by
    rw [List.all_eq_true]
    intro b hb
    obtain ⟨c, hc, rfl⟩ := List.mem_map.mp hb
    rw [decide_eq_true_eq, (hchar c hc).1]
    exact (hchar c hc).2
  rw [decodeAscii, if_pos hall, asciiBytes, List.map_map, Option.some_inj]
  refine (List.map_congr_left fun c hc ↦ ?_).trans (List.map_id s)
  rw [Function.comp_apply, (hchar c hc).1, Char.ofNat_toNat, id]

/-! ## Records -/

/-- What a call appends to the structure block, given the offsets of the names. -/
def FdtEvent.record (off : Str → ℕ) : FdtEvent PropVal → Bytes
  | .beginNode name => bytesBE 4 fdtBeginNode ++ align4 (asciiBytes name ++ [0])
  | .prop name v =>
    bytesBE 4 fdtProp ++ (bytesBE 4 v.bytes.length ++ bytesBE 4 (off name)) ++ align4 v.bytes
  | .endNode => bytesBE 4 fdtEndNode

/-- The length of that record. -/
def FdtEvent.size : FdtEvent PropVal → ℕ
  | .beginNode name => 4 + roundUp4 (name.length + 1)
  | .prop _ v => 12 + roundUp4 v.bytes.length
  | .endNode => 4

def FdtEvent.valid : FdtEvent PropVal → Bool
  | .beginNode name => isName name
  | .prop name v => isName name && v.valid
  | .endNode => true

theorem length_record (off : Str → ℕ) (e : FdtEvent PropVal) : (e.record off).length = e.size := by
  cases e with
  | beginNode name => simp [FdtEvent.record, FdtEvent.size, length_align4, asciiBytes]
  | prop name v =>
    simp only [FdtEvent.record, FdtEvent.size, List.length_append, length_bytesBE, length_align4]
  | endNode => rfl

attribute [local instance] decideMem

/-- The names of properties so far, each once. -/
def internName {V : Type} (names : List Str) : FdtEvent V → List Str
  | .prop name _ => if name ∈ names then names else names ++ [name]
  | _ => names

/-- The strings block of some names. -/
def stringsOf (names : List Str) : Bytes := names.flatMap fun n ↦ asciiBytes n ++ [0]

theorem length_stringsOf_le {V : Type} (es : List (FdtEvent V)) (names : List Str) :
    (stringsOf names).length ≤ (stringsOf (es.foldl internName names)).length := by
  induction es generalizing names with
  | nil => exact le_rfl
  | cons e es ih =>
    refine le_trans ?_ (ih (internName names e))
    cases e with
    | prop name v =>
      rw [internName]
      split_ifs
      · exact le_rfl
      · simp [stringsOf]
    | beginNode name => exact le_rfl
    | endNode => exact le_rfl

/-! ## The builder -/

namespace FdtBuilder

/-- The strings block and its dictionary hold the names, each once and where its offset says. -/
structure Interned (b : FdtBuilder) (names : List Str) : Prop where
  keys : b.stringOffsets.map Prod.fst = names
  nodup : names.Nodup
  strings : b.strings = stringsOf names
  place : ∀ n off, b.stringOffsets.lookup n = some off →
    ∃ post, b.strings.drop off = asciiBytes n ++ 0 :: post

/-- The dictionary only grows. -/
def Extends (b b' : FdtBuilder) : Prop :=
  ∀ n off, b.stringOffsets.lookup n = some off → b'.stringOffsets.lookup n = some off

def off (b : FdtBuilder) (n : Str) : ℕ := (b.stringOffsets.lookup n).getD 0

variable {b : FdtBuilder} {names : List Str}

theorem Interned.lookup_eq_none (h : b.Interned names) {n : Str} (hn : n ∉ names) :
    b.stringOffsets.lookup n = none := by
  rw [List.lookup_eq_none_iff]
  rintro ⟨k, off⟩ hmem
  have hk : k ∈ names := h.keys ▸ List.mem_map_of_mem hmem
  rw [bne_iff_ne]
  rintro rfl
  exact hn hk

theorem Interned.exists_lookup (h : b.Interned names) {n : Str} (hn : n ∈ names) :
    ∃ off, b.stringOffsets.lookup n = some off := by
  rw [← h.keys] at hn
  obtain ⟨⟨k, off⟩, hmem, rfl⟩ := List.mem_map.mp hn
  rw [← Option.isSome_iff_exists, List.lookup_isSome_iff]
  exact ⟨_, hmem, beq_self_eq_true _⟩

theorem Interned.off_lt (h : b.Interned names) {n : Str} {off : ℕ}
    (hn : b.stringOffsets.lookup n = some off) : off < b.strings.length := by
  obtain ⟨post, hdrop⟩ := h.place n off hn
  have hlen := congrArg List.length hdrop
  rw [List.length_drop] at hlen
  simp only [List.length_append, List.length_cons] at hlen
  omega

/-- `_string_off` finds the name or appends it. -/
theorem stringOff_spec (h : b.Interned names) {name : Str} (hname : isName name = true) :
    ∃ off b', b.stringOff name = some (off, b') ∧ b'.struct = b.struct ∧ b.Extends b' ∧
      b'.stringOffsets.lookup name = some off ∧
      b'.Interned (if name ∈ names then names else names ++ [name]) := by
  by_cases hmem : name ∈ names
  · obtain ⟨off, hoff⟩ := h.exists_lookup hmem
    refine ⟨off, b, ?_, rfl, fun _ _ hn ↦ hn, hoff, ?_⟩
    · rw [stringOff, hoff]
    · rw [if_pos hmem]
      exact h
  · have hnone := h.lookup_eq_none hmem
    rw [if_neg hmem]
    refine ⟨b.strings.length,
      { b with
        stringOffsets := b.stringOffsets ++ [(name, b.strings.length)]
        strings := b.strings ++ (asciiBytes name ++ [0]) }, ?_, rfl, ?_, ?_, ?_⟩
    · rw [stringOff, hnone, encodeAscii_of_isName hname]
      rfl
    · intro n off hn
      change (b.stringOffsets ++ [(name, b.strings.length)]).lookup n = some off
      rw [List.lookup_append, hn, Option.some_or]
    · change (b.stringOffsets ++ [(name, b.strings.length)]).lookup name = some b.strings.length
      rw [List.lookup_append, hnone, Option.none_or, List.lookup_cons_self]
    · refine ⟨?_, ?_, ?_, ?_⟩
      · simp [h.keys]
      · rw [List.nodup_append]
        refine ⟨h.nodup, List.nodup_singleton _, ?_⟩
        intro a ha c hc heq
        rw [List.mem_singleton] at hc
        exact hmem (hc ▸ heq ▸ ha)
      · simp [stringsOf, h.strings]
      · intro n off hn
        change (b.stringOffsets ++ [(name, b.strings.length)]).lookup n = some off at hn
        rw [List.lookup_append] at hn
        change ∃ post, (b.strings ++ (asciiBytes name ++ [0])).drop off = asciiBytes n ++ 0 :: post
        cases hold : b.stringOffsets.lookup n with
        | some off' =>
          rw [hold, Option.some_or, Option.some_inj] at hn
          subst hn
          obtain ⟨post, hpost⟩ := h.place n off' hold
          have hlt := h.off_lt hold
          refine ⟨post ++ (asciiBytes name ++ [0]), ?_⟩
          rw [List.drop_append_of_le_length (by omega), hpost]
          simp
        | none =>
          rw [hold, Option.none_or] at hn
          by_cases hnn : n = name
          · subst hnn
            rw [List.lookup_cons_self, Option.some_inj] at hn
            refine ⟨[], ?_⟩
            rw [← hn, List.drop_left' rfl]
          · rw [List.lookup_cons, beq_false_of_ne hnn] at hn
            exact absurd hn (by simp)

theorem packBE_of_lt {n : ℕ} (h : n < 2 ^ 32) : packBE 4 n = some (bytesBE 4 n) :=
  if_pos (by omega)

/-- One call. -/
theorem call_spec (h : b.Interned names) {e : FdtEvent PropVal} (he : e.valid = true)
    (hstrings : (stringsOf (internName names e)).length < 2 ^ 32) (hsize : e.size < 2 ^ 32) :
    ∃ b', b.call e = some b' ∧ b'.Interned (internName names e) ∧ b.Extends b' ∧
      b'.struct = b.struct ++ e.record b'.off ∧
      ∀ name v, e = .prop name v → ∃ o, b'.stringOffsets.lookup name = some o := by
  cases e with
  | beginNode name =>
    refine ⟨{ b with
      struct := b.struct ++ bytesBE 4 fdtBeginNode ++ align4 (asciiBytes name ++ [0]) },
      ?_, ?_, ?_, ?_, ?_⟩
    · rw [call, beginNode, encodeAscii_of_isName he]
      rfl
    · exact ⟨h.keys, h.nodup, h.strings, h.place⟩
    · exact fun _ _ hn ↦ hn
    · exact List.append_assoc ..
    · intro n v hev
      exact absurd hev (by simp)
  | endNode =>
    refine ⟨b.endNode, rfl, ⟨h.keys, h.nodup, h.strings, h.place⟩, fun _ _ hn ↦ hn, rfl, ?_⟩
    intro n v hev
    exact absurd hev (by simp)
  | prop name v =>
    rw [FdtEvent.valid, Bool.and_eq_true] at he
    obtain ⟨off, b', hoff, hstruct, hext, hlook, hint⟩ := stringOff_spec h he.1
    have hlen : v.bytes.length < 2 ^ 32 := by
      rw [FdtEvent.size, roundUp4] at hsize
      omega
    have hofflt : off < 2 ^ 32 := by
      have hlt := hint.off_lt hlook
      rw [hint.strings] at hlt
      exact lt_trans hlt hstrings
    refine ⟨{ b' with
      struct := b'.struct ++ bytesBE 4 fdtProp ++ (bytesBE 4 v.bytes.length ++ bytesBE 4 off) ++
        align4 v.bytes }, ?_, ?_, ?_, ?_, ?_⟩
    · rw [call, prop, PropVal.encode, if_pos he.2, Option.bind_eq_bind, Option.bind_some, propRaw,
        hoff, Option.bind_eq_bind, Option.bind_some]
      simp only [packBE_of_lt hlen, packBE_of_lt hofflt, Option.bind_eq_bind, Option.bind_some]
      rfl
    · exact ⟨hint.keys, hint.nodup, hint.strings, hint.place⟩
    · exact hext
    · have ho : (b'.stringOffsets.lookup name).getD 0 = off := by
        rw [hlook]
        rfl
      simp only [FdtEvent.record, FdtBuilder.off, ho, hstruct, List.append_assoc]
    · intro n w hev
      obtain ⟨rfl, rfl⟩ := FdtEvent.prop.injEq .. ▸ hev
      exact ⟨off, hlook⟩

theorem off_of_extends {b b' : FdtBuilder} (h : b.Extends b') {n : Str} {o : ℕ}
    (hn : b.stringOffsets.lookup n = some o) : b'.off n = b.off n := by
  rw [off, off, h n o hn, hn]

/-- A sequence of calls: the records, with the offsets of the final strings block. -/
theorem calls_spec (es : List (FdtEvent PropVal)) (h : b.Interned names)
    (hvalid : ∀ e ∈ es, e.valid = true)
    (hstrings : (stringsOf (es.foldl internName names)).length < 2 ^ 32)
    (hsize : ∀ e ∈ es, e.size < 2 ^ 32) :
    ∃ b', b.calls es = some b' ∧ b'.Interned (es.foldl internName names) ∧ b.Extends b' ∧
      b'.struct = b.struct ++ es.flatMap (FdtEvent.record b'.off) ∧
      ∀ name v, .prop name v ∈ es → ∃ o, b'.stringOffsets.lookup name = some o := by
  induction es generalizing b names with
  | nil => exact ⟨b, rfl, h, fun _ _ hn ↦ hn, by simp, by simp⟩
  | cons e es ih =>
    have hfirst := lt_of_le_of_lt (length_stringsOf_le es (internName names e)) hstrings
    obtain ⟨b1, hcall, hint, hext, hstruct, hnames⟩ :=
      call_spec h (hvalid e List.mem_cons_self) hfirst (hsize e List.mem_cons_self)
    obtain ⟨b', hcalls, hint', hext', hstruct', hnames'⟩ := ih hint
      (fun e' he' ↦ hvalid e' (List.mem_cons_of_mem _ he')) hstrings
      (fun e' he' ↦ hsize e' (List.mem_cons_of_mem _ he'))
    have hrecord : e.record b1.off = e.record b'.off := by
      cases e with
      | beginNode name => rfl
      | endNode => rfl
      | prop name v =>
        obtain ⟨o, ho⟩ := hnames name v rfl
        rw [FdtEvent.record, FdtEvent.record, off_of_extends hext' ho]
    refine ⟨b', ?_, hint', fun n o hn ↦ hext' n o (hext n o hn), ?_, ?_⟩
    · rw [calls, List.foldlM_cons, hcall]
      exact hcalls
    · rw [hstruct', hstruct, hrecord, List.flatMap_cons, List.append_assoc]
    · intro name v hmem
      rcases List.mem_cons.mp hmem with rfl | hmem
      · obtain ⟨o, ho⟩ := hnames name v rfl
        exact ⟨o, hext' name o ho⟩
      · exact hnames' name v hmem

end FdtBuilder

/-! ## Reading the structure block -/

/-- The token of a record. -/
def FdtEvent.token (off : Str → ℕ) : FdtEvent PropVal → FdtToken
  | .beginNode name => .beginNode (asciiBytes name)
  | .prop name v => .prop (off name) v.bytes
  | .endNode => .endNode

theorem fdtTokens_records (off : Str → ℕ) (es : List (FdtEvent PropVal))
    (hvalid : ∀ e ∈ es, e.valid = true) (hsize : ∀ e ∈ es, e.size < 2 ^ 32)
    (hoff : ∀ name v, .prop name v ∈ es → off name < 2 ^ 32) {fuel : ℕ} (hfuel : es.length < fuel) :
    fdtTokens fuel (es.flatMap (FdtEvent.record off) ++ bytesBE 4 fdtEnd) =
      some (es.map (FdtEvent.token off)) := by
  induction es generalizing fuel with
  | nil =>
    obtain ⟨fuel, rfl⟩ : ∃ k, fuel = k + 1 := ⟨fuel - 1, by simp at hfuel; omega⟩
    have hread : readBE 4 (bytesBE 4 fdtEnd ++ []) = some (fdtEnd, []) :=
      readBE_append (by decide) []
    rw [List.append_nil] at hread
    rw [List.flatMap_nil, List.nil_append, fdtTokens, hread]
    rfl
  | cons e es ih =>
    obtain ⟨fuel, rfl⟩ : ∃ k, fuel = k + 1 := ⟨fuel - 1, by simp at hfuel; omega⟩
    have hrest := ih (fun e' he' ↦ hvalid e' (List.mem_cons_of_mem _ he'))
      (fun e' he' ↦ hsize e' (List.mem_cons_of_mem _ he'))
      (fun name v hmem ↦ hoff name v (List.mem_cons_of_mem _ hmem))
      (show es.length < fuel by simp at hfuel; omega)
    have he := hvalid e List.mem_cons_self
    have hes := hsize e List.mem_cons_self
    set tail := es.flatMap (FdtEvent.record off) ++ bytesBE 4 fdtEnd with htail
    rw [List.flatMap_cons, List.append_assoc, ← htail, List.map_cons]
    cases e with
    | beginNode name =>
      have hname : (0 : BitVec 8) ∉ asciiBytes name := zero_notMem_asciiBytes he
      have hlen : (asciiBytes name).length + 1 = (asciiBytes name ++ [0]).length := by simp
      have hcstr : cstring (align4 (asciiBytes name ++ [0]) ++ tail) = some (asciiBytes name) := by
        rw [align4, List.append_assoc, List.append_assoc]
        exact cstring_append hname
      rw [FdtEvent.record, List.append_assoc, fdtTokens, readBE_append (by decide)]
      simp only [Option.bind_eq_bind, Option.bind_some, if_true, hcstr, hlen, drop_align4, hrest]
      rfl
    | endNode =>
      rw [FdtEvent.record, fdtTokens, readBE_append (by decide)]
      simp only [Option.bind_eq_bind, Option.bind_some, hrest]
      rfl
    | prop name v =>
      have hlen : v.bytes.length < 256 ^ 4 := by
        rw [FdtEvent.size, roundUp4] at hes
        omega
      have ho : off name < 256 ^ 4 := hoff name v List.mem_cons_self
      have hroom : v.bytes.length ≤ (align4 v.bytes ++ tail).length := by
        rw [align4]
        simp only [List.length_append]
        omega
      rw [FdtEvent.record, List.append_assoc, List.append_assoc, fdtTokens,
        readBE_append (by decide), List.append_assoc]
      simp only [Option.bind_eq_bind, Option.bind_some, readBE_append hlen, readBE_append ho,
        if_pos hroom, take_align4, drop_align4, hrest]
      rfl

/-- The names are found in the strings block. -/
theorem event_token {b : FdtBuilder} {names : List Str} (h : b.Interned names)
    {e : FdtEvent PropVal} (he : e.valid = true)
    (hlook : ∀ name v, e = .prop name v → ∃ o, b.stringOffsets.lookup name = some o) :
    (e.token b.off).event b.strings = some (e.map PropVal.bytes) := by
  cases e with
  | beginNode name =>
    rw [FdtEvent.token, FdtToken.event, decodeAscii_asciiBytes he]
    rfl
  | endNode => rfl
  | prop name v =>
    rw [FdtEvent.valid, Bool.and_eq_true] at he
    obtain ⟨o, ho⟩ := hlook name v rfl
    obtain ⟨post, hpost⟩ := h.place name o ho
    have hoff : b.off name = o := by
      rw [FdtBuilder.off, ho]
      rfl
    rw [FdtEvent.token, FdtToken.event, hoff, hpost, cstring_append (zero_notMem_asciiBytes he.1),
      Option.bind_eq_bind, Option.bind_some, decodeAscii_asciiBytes he.1]
    rfl

theorem mapM_some {α β : Type} {f : α → Option β} {g : α → β} (l : List α)
    (h : ∀ a ∈ l, f a = some (g a)) : l.mapM f = some (l.map g) := by
  induction l with
  | nil => rfl
  | cons a l ih =>
    rw [List.mapM_cons, h a List.mem_cons_self,
      ih (fun a' ha' ↦ h a' (List.mem_cons_of_mem _ ha'))]
    rfl

/-! ## The header -/

theorem unpackFields_flatten (fields : List ℕ) (h : ∀ n ∈ fields, n < 2 ^ 32) (rest : Bytes) :
    unpackFields fields.length ((fields.map (bytesBE 4)).flatten ++ rest) = some fields := by
  induction fields with
  | nil => rfl
  | cons n fields ih =>
    have hn : n < 256 ^ 4 := h n List.mem_cons_self
    rw [List.length_cons, unpackFields, List.map_cons, List.flatten_cons, List.append_assoc,
      readBE_append hn]
    simp only [Option.bind_eq_bind, Option.bind_some,
      ih (fun m hm ↦ h m (List.mem_cons_of_mem _ hm))]
    rfl

/-- The header of a blob with blocks of the given sizes. -/
def fdtHeader (structLen stringsLen : ℕ) : List ℕ :=
  [fdtMagic, 56 + structLen + stringsLen, 56, 56 + structLen, 40, fdtVersion, fdtLastCompVersion, 0,
    stringsLen, structLen]

def fdtRsvmap : Bytes := List.replicate 16 0

/-- The layout of a blob. -/
def fdtLayout (struct strings : Bytes) : Bytes :=
  ((fdtHeader struct.length strings.length).map (bytesBE 4)).flatten ++
    (fdtRsvmap ++ (struct ++ strings))

theorem length_flatten_header (n m : ℕ) : ((fdtHeader n m).map (bytesBE 4)).flatten.length = 40 := by
  simp [fdtHeader]

theorem fdtHeader_lt {n m : ℕ} (h : 56 + n + m < 2 ^ 32) : ∀ v ∈ fdtHeader n m, v < 2 ^ 32 := by
  intro v hv
  simp only [fdtHeader, fdtMagic, fdtVersion, fdtLastCompVersion, List.mem_cons, List.not_mem_nil,
    or_false] at hv
  rcases hv with rfl | rfl | rfl | rfl | rfl | rfl | rfl | rfl | rfl | rfl <;> omega

theorem FdtBuilder.build_eq (b : FdtBuilder)
    (h : 56 + (b.struct.length + 4) + b.strings.length < 2 ^ 32) :
    b.build = some (fdtLayout (b.struct ++ bytesBE 4 fdtEnd) b.strings) := by
  have hlen : (b.struct ++ bytesBE 4 fdtEnd).length = b.struct.length + 4 := by simp
  have hpack := mapM_some (f := packBE 4) (g := bytesBE 4)
    (fdtHeader (b.struct ++ bytesBE 4 fdtEnd).length b.strings.length)
    (fun n hn ↦ if_pos (fdtHeader_lt (by omega) n hn))
  have hbuild : b.build = (List.mapM (packBE 4)
      (fdtHeader (b.struct ++ bytesBE 4 fdtEnd).length b.strings.length)).bind fun header ↦
        some (header.flatten ++ fdtRsvmap ++ (b.struct ++ bytesBE 4 fdtEnd) ++ b.strings) := rfl
  rw [hbuild, hpack, Option.bind_some, fdtLayout]
  simp only [List.append_assoc]

section Layout

variable (struct strings : Bytes)

theorem header_layout (h : 56 + struct.length + strings.length < 2 ^ 32) :
    unpackFields 10 (slice (fdtLayout struct strings) 0 40) =
      some (fdtHeader struct.length strings.length) := by
  have hslice : slice (fdtLayout struct strings) 0 40 =
      ((fdtHeader struct.length strings.length).map (bytesBE 4)).flatten := by
    rw [slice, fdtLayout, List.drop_zero]
    exact List.take_left' (length_flatten_header _ _)
  have hfields := unpackFields_flatten _ (fdtHeader_lt h) []
  rw [List.append_nil] at hfields
  rw [hslice]
  exact hfields

theorem rsvmap_layout : slice (fdtLayout struct strings) 40 (40 + 16) = fdtRsvmap :=
  slice_append (length_flatten_header _ _) rfl

theorem struct_layout :
    slice (fdtLayout struct strings) 56 (56 + struct.length) = struct := by
  rw [fdtLayout, ← List.append_assoc]
  exact slice_append (by simp only [List.length_append, length_flatten_header, fdtRsvmap,
    List.length_replicate]) rfl

theorem strings_layout :
    slice (fdtLayout struct strings) (56 + struct.length)
      (56 + struct.length + strings.length) = strings := by
  have hassoc : fdtLayout struct strings =
      (((fdtHeader struct.length strings.length).map (bytesBE 4)).flatten ++ fdtRsvmap ++ struct) ++
        (strings ++ []) := by
    simp only [fdtLayout, List.append_assoc, List.append_nil]
  rw [hassoc]
  exact slice_append (by simp only [List.length_append, length_flatten_header, fdtRsvmap,
    List.length_replicate]) rfl

theorem length_layout :
    (fdtLayout struct strings).length = 56 + struct.length + strings.length := by
  simp only [fdtLayout, List.length_append, length_flatten_header, fdtRsvmap,
    List.length_replicate]
  omega

end Layout

/-! ## The validator -/

/-- What the validator makes of a record. -/
def FdtScan.next {V : Type} (s : FdtScan) : FdtEvent V → FdtScan
  | .beginNode _ => { s with depth := s.depth + 1, maxDepth := max s.maxDepth (s.depth + 1) }
  | .prop _ _ => { s with propCount := s.propCount + 1 }
  | .endNode => { s with depth := s.depth - 1 }

/-- No node ends that has not begun. -/
def FdtScan.Balanced {V : Type} : FdtScan → List (FdtEvent V) → Prop
  | _, [] => True
  | s, .endNode :: es => 0 ≤ s.depth - 1 ∧ (s.next (.endNode : FdtEvent V)).Balanced es
  | s, e :: es => (s.next e).Balanced es

theorem unpackBE_append {n : ℕ} (h : n < 256 ^ 4) (rest : Bytes) :
    unpackBE 4 (bytesBE 4 n ++ rest) = .ok (n, rest) := by
  rw [unpackBE, readBE_append h]

theorem scanStruct_records (off : Str → ℕ) (size stringsLen : ℕ) (es : List (FdtEvent PropVal))
    (hvalid : ∀ e ∈ es, e.valid = true) (hsize : ∀ e ∈ es, e.size < 2 ^ 32)
    (hoff : ∀ name v, .prop name v ∈ es → off name < stringsLen) (hlen : stringsLen < 2 ^ 32)
    (s : FdtScan) (hbal : s.Balanced es) {fuel : ℕ} (hfuel : es.length < fuel) :
    scanStruct size stringsLen fuel (es.flatMap (FdtEvent.record off) ++ bytesBE 4 fdtEnd) s =
      .ok (es.foldl FdtScan.next s, true) := by
  induction es generalizing fuel s with
  | nil =>
    obtain ⟨fuel, rfl⟩ : ∃ k, fuel = k + 1 := ⟨fuel - 1, by simp at hfuel; omega⟩
    have hread := unpackBE_append (n := fdtEnd) (by decide) []
    rw [List.append_nil] at hread
    rw [List.flatMap_nil, List.nil_append, scanStruct, if_neg (by simp), hread]
    rfl
  | cons e es ih =>
    obtain ⟨fuel, rfl⟩ : ∃ k, fuel = k + 1 := ⟨fuel - 1, by simp at hfuel; omega⟩
    have he := hvalid e List.mem_cons_self
    have hes := hsize e List.mem_cons_self
    have hrest := fun s' hbal' ↦ ih (fun e' he' ↦ hvalid e' (List.mem_cons_of_mem _ he'))
      (fun e' he' ↦ hsize e' (List.mem_cons_of_mem _ he'))
      (fun name v hmem ↦ hoff name v (List.mem_cons_of_mem _ hmem)) s' hbal'
      (show es.length < fuel by simp at hfuel; omega)
    set tail := es.flatMap (FdtEvent.record off) ++ bytesBE 4 fdtEnd with htail
    rw [List.flatMap_cons, List.append_assoc, ← htail, List.foldl_cons]
    cases e with
    | beginNode name =>
      have hname : (0 : BitVec 8) ∉ asciiBytes name := zero_notMem_asciiBytes he
      have hlen' : (asciiBytes name).length + 1 = (asciiBytes name ++ [0]).length := by simp
      have hcstr : cstring (align4 (asciiBytes name ++ [0]) ++ tail) = some (asciiBytes name) := by
        rw [align4, List.append_assoc, List.append_assoc]
        exact cstring_append hname
      rw [FdtEvent.record, List.append_assoc, scanStruct, if_neg (by simp),
        unpackBE_append (by decide)]
      simp only [bind, Except.bind, if_true, hcstr, hlen', drop_align4]
      exact hrest _ hbal
    | endNode =>
      obtain ⟨hdepth, hbal'⟩ := hbal
      rw [FdtEvent.record, scanStruct, if_neg (by simp), unpackBE_append (by decide)]
      simp only [bind, Except.bind, check, hdepth, decide_true, if_true]
      exact hrest _ hbal'
    | prop name v =>
      have hvlen : v.bytes.length < 256 ^ 4 := by
        rw [FdtEvent.size, roundUp4] at hes
        omega
      have hname := hoff name v List.mem_cons_self
      have ho : off name < 256 ^ 4 := by omega
      rw [FdtEvent.record, List.append_assoc, List.append_assoc, scanStruct, if_neg (by simp),
        unpackBE_append (by decide), List.append_assoc]
      simp only [bind, Except.bind, unpackBE_append hvlen, unpackBE_append ho, check, hname,
        decide_true, if_true, drop_align4]
      exact hrest _ hbal

/-! ## Trees -/

mutual

def FdtTree.depth {V : Type} : FdtTree V → ℕ
  | .node _ _ children => FdtTree.depthList children + 1

def FdtTree.depthList {V : Type} : List (FdtTree V) → ℕ
  | [] => 0
  | t :: ts => max t.depth (FdtTree.depthList ts)

end

mutual

def FdtTree.propCount {V : Type} : FdtTree V → ℕ
  | .node _ props children => props.length + FdtTree.propCountList children

def FdtTree.propCountList {V : Type} : List (FdtTree V) → ℕ
  | [] => 0
  | t :: ts => t.propCount + FdtTree.propCountList ts

end

theorem scan_props (props : List (Str × PropVal)) (s : FdtScan) (es : List (FdtEvent PropVal)) :
    (props.map fun p ↦ FdtEvent.prop p.1 p.2).foldl FdtScan.next s =
        { s with propCount := s.propCount + props.length } ∧
      (s.Balanced ((props.map fun p ↦ FdtEvent.prop p.1 p.2) ++ es) ↔
        FdtScan.Balanced { s with propCount := s.propCount + props.length } es) := by
  induction props generalizing s with
  | nil => exact ⟨rfl, Iff.rfl⟩
  | cons p props ih =>
    obtain ⟨hfold, hbal⟩ := ih { s with propCount := s.propCount + 1 }
    have hcount : s.propCount + 1 + props.length = s.propCount + (props.length + 1) := by omega
    simp only [hcount] at hfold hbal
    exact ⟨hfold, hbal⟩

mutual

/-- The validator passes over a tree and is as deep as before. -/
theorem scan_events (t : FdtTree PropVal) (s : FdtScan) (hd : 0 ≤ s.depth)
    (hm : s.depth ≤ s.maxDepth) (es : List (FdtEvent PropVal)) :
    t.events.foldl FdtScan.next s =
        { s with
          maxDepth := max s.maxDepth (s.depth + t.depth)
          propCount := s.propCount + t.propCount } ∧
      (s.Balanced (t.events ++ es) ↔
        FdtScan.Balanced
          { s with
            maxDepth := max s.maxDepth (s.depth + t.depth)
            propCount := s.propCount + t.propCount } es) := by
  cases t with
  | node name props children =>
    -- after the begin, after the properties, after the children
    obtain ⟨hfold1, hbal1⟩ := scan_props props
      { depth := s.depth + 1, maxDepth := max s.maxDepth (s.depth + 1), propCount := s.propCount }
      (FdtTree.eventsList children ++ ([.endNode] ++ es))
    obtain ⟨hfold2, hbal2⟩ := scan_eventsList children
      { depth := s.depth + 1, maxDepth := max s.maxDepth (s.depth + 1)
        propCount := s.propCount + props.length }
      (show 0 ≤ s.depth + 1 by omega) (le_max_right _ _) ([.endNode] ++ es)
    have hmax : max (max s.maxDepth (s.depth + 1)) (s.depth + 1 + FdtTree.depthList children) =
        max s.maxDepth (s.depth + (FdtTree.depthList children + 1 : ℕ)) := by
      push_cast
      omega
    have hcount : s.propCount + props.length + FdtTree.propCountList children =
        s.propCount + (props.length + FdtTree.propCountList children) := by omega
    simp only [hmax, hcount] at hfold2 hbal2
    constructor
    · rw [FdtTree.events, List.foldl_cons, List.foldl_append, FdtScan.next, hfold1,
        List.foldl_append, hfold2, FdtTree.depth, FdtTree.propCount]
      simp [FdtScan.next]
    · rw [FdtTree.events, List.cons_append, List.append_assoc, List.append_assoc]
      refine (hbal1.trans hbal2).trans ?_
      rw [List.singleton_append, FdtScan.Balanced, FdtTree.depth, FdtTree.propCount]
      simp [FdtScan.next, hd]

theorem scan_eventsList (ts : List (FdtTree PropVal)) (s : FdtScan) (hd : 0 ≤ s.depth)
    (hm : s.depth ≤ s.maxDepth) (es : List (FdtEvent PropVal)) :
    (FdtTree.eventsList ts).foldl FdtScan.next s =
        { s with
          maxDepth := max s.maxDepth (s.depth + FdtTree.depthList ts)
          propCount := s.propCount + FdtTree.propCountList ts } ∧
      (s.Balanced (FdtTree.eventsList ts ++ es) ↔
        FdtScan.Balanced
          { s with
            maxDepth := max s.maxDepth (s.depth + FdtTree.depthList ts)
            propCount := s.propCount + FdtTree.propCountList ts } es) := by
  cases ts with
  | nil =>
    have hmax : max s.maxDepth (s.depth + FdtTree.depthList ([] : List (FdtTree PropVal))) =
        s.maxDepth := by
      rw [FdtTree.depthList]
      omega
    rw [hmax]
    exact ⟨rfl, Iff.rfl⟩
  | cons t ts =>
    obtain ⟨hfold1, hbal1⟩ := scan_events t s hd hm (FdtTree.eventsList ts ++ es)
    obtain ⟨hfold2, hbal2⟩ := scan_eventsList ts
      { s with
        maxDepth := max s.maxDepth (s.depth + t.depth)
        propCount := s.propCount + t.propCount } hd (le_trans hm (le_max_left _ _)) es
    have hmax : max (max s.maxDepth (s.depth + t.depth)) (s.depth + FdtTree.depthList ts) =
        max s.maxDepth (s.depth + (max t.depth (FdtTree.depthList ts) : ℕ)) := by
      push_cast
      omega
    have hcount : s.propCount + t.propCount + FdtTree.propCountList ts =
        s.propCount + (t.propCount + FdtTree.propCountList ts) := by omega
    simp only [hmax, hcount] at hfold2 hbal2
    constructor
    · rw [FdtTree.eventsList, List.foldl_append, hfold1, hfold2, FdtTree.depthList,
        FdtTree.propCountList]
    · rw [FdtTree.eventsList, List.append_assoc, FdtTree.depthList, FdtTree.propCountList]
      exact hbal1.trans hbal2

end

/-! ## The round trip -/

/-- The names are ASCII without NUL, and the texts of values ASCII. -/
def FdtTree.valid (t : FdtTree PropVal) : Bool := t.events.all FdtEvent.valid

/-- The size of the blob. -/
def FdtTree.size (t : FdtTree PropVal) : ℕ :=
  56 + ((t.events.map FdtEvent.size).sum + 4) +
    (stringsOf (t.events.foldl internName [])).length

/-- The strings block, where the header says. -/
def fdtStrings (blob : Bytes) : Option Bytes :=
  match unpackFields 10 (slice blob 0 40) with
  | some [_, _, _, offStrings, _, _, _, _, sizeStrings, _] =>
    some (slice blob offStrings (offStrings + sizeStrings))
  | _ => none

/-- What a blob is good for. -/
structure FdtTree.Represented (t : FdtTree PropVal) (blob : Bytes) : Prop where
  size : blob.length = t.size
  decodes : decodeFdt blob = some (t.map PropVal.bytes)
  strings : ∃ names : List Str, names.Nodup ∧ (∀ n, n ∈ names ↔ ∃ v, .prop n v ∈ t.events) ∧
    fdtStrings blob = some (stringsOf names)
  accepted : 2 ≤ t.depth → 0 < t.propCount → parseAndValidate blob =
    .ok { maxDepth := t.depth, propCount := t.propCount, totalsize := t.size }

section Layout

variable {struct strings : Bytes} (hbound : 56 + struct.length + strings.length < 2 ^ 32)

include hbound

/-- The decoder on the layout of a blob. -/
theorem decodeFdt_layout {toks : List FdtToken} {evs : List (FdtEvent Bytes)} {T : FdtTree Bytes}
    (htoks : fdtTokens (struct.length + 1) struct = some toks)
    (hevs : toks.mapM (FdtToken.event strings) = some evs) (hnest : fdtNest [] evs = some T) :
    decodeFdt (fdtLayout struct strings) = some T := by
  have hcond : True ∧
      56 + struct.length + strings.length = (fdtLayout struct strings).length ∧
      fdtLastCompVersion ≤ fdtVersion ∧
      slice (fdtLayout struct strings) 40 (40 + 16) = List.replicate 16 0 :=
    ⟨trivial, (length_layout struct strings).symm, by decide, rsvmap_layout struct strings⟩
  rw [decodeFdt, header_layout struct strings hbound]
  simp only [fdtHeader]
  rw [if_pos hcond, struct_layout, strings_layout, htoks]
  simp only [Option.bind_eq_bind, Option.bind_some, hevs, hnest]

/-- The validator on the layout of a blob. -/
theorem parseAndValidate_layout {s : FdtScan}
    (hscan : scanStruct struct.length strings.length (struct.length + 1) struct
      { depth := 0, maxDepth := 0, propCount := 0 } = .ok (s, true))
    (hdepth : s.depth = 0) (hmax : 2 ≤ s.maxDepth) (hprops : 0 < s.propCount) :
    parseAndValidate (fdtLayout struct strings) =
      .ok { maxDepth := s.maxDepth, propCount := s.propCount
            totalsize := 56 + struct.length + strings.length } := by
  have hrsv : unpackBE 8 fdtRsvmap = .ok (0, List.replicate 8 0) := by decide
  have hrsv' : unpackBE 8 (List.replicate 8 0) = .ok (0, []) := by decide
  rw [parseAndValidate, header_layout struct strings hbound]
  simp only [fdtHeader, length_layout, check, BEq.rfl, if_true, bind, Except.bind, rsvmap_layout,
    hrsv, hrsv', struct_layout, strings_layout, hscan, hdepth, hmax, hprops, decide_true,
    Bool.and_self]
  rfl

end Layout

theorem mem_foldl_internName {V : Type} (es : List (FdtEvent V)) (names : List Str) (n : Str) :
    n ∈ es.foldl internName names ↔ n ∈ names ∨ ∃ v, .prop n v ∈ es := by
  induction es generalizing names with
  | nil => simp
  | cons e es ih =>
    rw [List.foldl_cons, ih]
    cases e with
    | beginNode name => simp [internName]
    | endNode => simp [internName]
    | prop name v =>
      by_cases hn : name ∈ names
      · simp only [internName, if_pos hn, List.mem_cons, FdtEvent.prop.injEq]
        constructor
        · rintro (h | ⟨w, hw⟩)
          · exact .inl h
          · exact .inr ⟨w, .inr hw⟩
        · rintro (h | ⟨w, ⟨rfl, -⟩ | hw⟩)
          · exact .inl h
          · exact .inl hn
          · exact .inr ⟨w, hw⟩
      · simp only [internName, if_neg hn, List.mem_append, List.mem_cons, List.not_mem_nil,
          or_false, FdtEvent.prop.injEq]
        constructor
        · rintro ((h | rfl) | ⟨w, hw⟩)
          · exact .inl h
          · exact .inr ⟨v, .inl ⟨rfl, rfl⟩⟩
          · exact .inr ⟨w, .inr hw⟩
        · rintro (h | ⟨w, ⟨rfl, -⟩ | hw⟩)
          · exact .inl (.inl h)
          · exact .inl (.inr rfl)
          · exact .inr ⟨w, hw⟩

theorem length_records (off : Str → ℕ) (es : List (FdtEvent PropVal)) :
    (es.flatMap (FdtEvent.record off)).length = (es.map FdtEvent.size).sum := by
  rw [List.length_flatMap]
  congr 1
  exact List.map_congr_left fun e _ ↦ length_record off e

theorem size_le_sum {es : List (FdtEvent PropVal)} {e : FdtEvent PropVal} (h : e ∈ es) :
    e.size ≤ (es.map FdtEvent.size).sum :=
  List.single_le_sum (by simp) _ (List.mem_map_of_mem h)

theorem length_le_sum (es : List (FdtEvent PropVal)) :
    es.length ≤ (es.map FdtEvent.size).sum := by
  induction es with
  | nil => simp
  | cons e es ih =>
    have hpos : 1 ≤ e.size := by
      cases e <;> simp only [FdtEvent.size] <;> omega
    simp only [List.length_cons, List.map_cons, List.sum_cons]
    omega

/-- Every tree of valid names that fits into 32-bit offsets is emitted as a blob that decodes to it,
stores each property name once and passes the self-check. -/
theorem fdt_roundTrip (t : FdtTree PropVal) (hvalid : t.valid = true) (hsize : t.size < 2 ^ 32) :
    ∃ blob, t.blob = some blob ∧ t.Represented blob := by
  have hvalid' : ∀ e ∈ t.events, e.valid = true := List.all_eq_true.mp hvalid
  rw [FdtTree.size] at hsize
  have hsizes : ∀ e ∈ t.events, e.size < 2 ^ 32 := fun e he ↦ by
    have := size_le_sum he
    omega
  have hinit : FdtBuilder.init.Interned [] := ⟨rfl, List.nodup_nil, rfl, fun _ _ h ↦ by
    exact absurd h (by simp [FdtBuilder.init])⟩
  obtain ⟨b, hcalls, hint, -, hstruct, hlook⟩ :=
    FdtBuilder.calls_spec t.events hinit hvalid' (by omega) hsizes
  have hrecords : b.struct = t.events.flatMap (FdtEvent.record b.off) := hstruct
  have hlen : b.struct.length = (t.events.map FdtEvent.size).sum := by
    rw [hrecords, length_records]
  have hstrlen : b.strings.length = (stringsOf (t.events.foldl internName [])).length := by
    rw [hint.strings]
  have hbound : 56 + (b.struct ++ bytesBE 4 fdtEnd).length + b.strings.length < 2 ^ 32 := by
    rw [List.length_append, length_bytesBE, hlen, hstrlen]
    exact hsize
  have hfuel : t.events.length < (b.struct ++ bytesBE 4 fdtEnd).length + 1 := by
    have := length_le_sum t.events
    rw [List.length_append, length_bytesBE, hlen]
    omega
  have hoff : ∀ name v, .prop name v ∈ t.events → b.off name < b.strings.length := by
    intro name v hmem
    obtain ⟨o, ho⟩ := hlook name v hmem
    rw [FdtBuilder.off, ho]
    exact hint.off_lt ho
  have hheader := header_layout (b.struct ++ bytesBE 4 fdtEnd) b.strings hbound
  have hblob : t.blob = some (fdtLayout (b.struct ++ bytesBE 4 fdtEnd) b.strings) := by
    rw [FdtTree.blob, hcalls]
    exact b.build_eq (by rw [hlen, hstrlen]; exact hsize)
  refine ⟨_, hblob, ?_, ?_, ?_, ?_⟩
  · rw [length_layout, FdtTree.size, List.length_append, length_bytesBE, hlen, hstrlen]
  · have htoks := fdtTokens_records b.off t.events hvalid' hsizes
      (fun name v hmem ↦ lt_trans (hoff name v hmem) (by omega)) hfuel
    rw [← hrecords] at htoks
    refine decodeFdt_layout hbound htoks ?_ (fdtNest_root _)
    rw [List.mapM_map, events_map]
    exact mapM_some _ fun e he ↦ event_token hint (hvalid' e he) fun name v heq ↦
      hlook name v (heq ▸ he)
  · refine ⟨t.events.foldl internName [], hint.nodup, fun n ↦ ?_, ?_⟩
    · rw [mem_foldl_internName]
      simp
    · rw [fdtStrings, hheader, ← hint.strings]
      exact congrArg some (strings_layout _ _)
  · intro hdepth hprops
    obtain ⟨hfold, hbal⟩ := scan_events t { depth := 0, maxDepth := 0, propCount := 0 } le_rfl le_rfl
      []
    rw [List.append_nil] at hbal
    have hscan := scanStruct_records b.off (b.struct ++ bytesBE 4 fdtEnd).length b.strings.length
      t.events hvalid' hsizes hoff (by omega) _ (hbal.mpr trivial) hfuel
    rw [← hrecords, hfold] at hscan
    have hmax : max (0 : ℤ) (0 + t.depth) = t.depth := by omega
    have hcount : 0 + t.propCount = t.propCount := by omega
    simp only [hmax, hcount] at hscan
    rw [parseAndValidate_layout hbound hscan rfl (show (2 : ℤ) ≤ t.depth by omega) hprops,
      FdtTree.size, List.length_append, length_bytesBE, hlen, hstrlen]

/-- Two nodes with a property of the same name; one value looks like the end of a node. -/
def smallTree : FdtTree PropVal :=
  .node [] [(['r', 'e', 'g'], .u32 1)]
    [.node ['c', 'p', 'u'] [(['r', 'e', 'g'], .raw (bytesBE 4 fdtEndNode)), (['o', 'k'], .empty)] []]

theorem fdt_roundTrip_smallTree :
    ∃ blob, smallTree.blob = some blob ∧ smallTree.Represented blob :=
  fdt_roundTrip smallTree (by decide) (by decide)

end RvPipeline
