import RvPipeline.Lib.Packed
import RvPipeline.Lib.PyText

/-!
# The devicetree emitter

`FdtBuilder` and `parse_and_validate` of `sim/tools/gen_dtb.py`.  A `raise` of the builder is `none`;
the validator says which check fails.
-/

namespace RvPipeline

open Py

abbrev fdtMagic : ℕ := 0xd00dfeed
abbrev fdtVersion : ℕ := 17
abbrev fdtLastCompVersion : ℕ := 16
abbrev fdtBeginNode : ℕ := 0x1
abbrev fdtEndNode : ℕ := 0x2
abbrev fdtProp : ℕ := 0x3
abbrev fdtEnd : ℕ := 0x9

/-- The bytes of an ASCII text. -/
def asciiBytes (s : Str) : Bytes := s.map fun c ↦ BitVec.ofNat 8 c.toNat

def isAscii (s : Str) : Bool := s.all fun c ↦ c.toNat < 128

/-- `s.encode("ascii")`. -/
def encodeAscii (s : Str) : Option Bytes := if isAscii s then some (asciiBytes s) else none

/-! ## The builder -/

/-- The attributes of an `FdtBuilder`; the dictionary in the order of its entries. -/
structure FdtBuilder where
  struct : Bytes
  strings : Bytes
  stringOffsets : List (Str × ℕ)
  deriving DecidableEq

/-- The value of a property, by the method that writes it; `raw` is `_prop_raw` itself. -/
inductive PropVal where
  | empty
  | u32 (val : ℤ)
  | u64 (val : ℤ)
  | cells (vals : List ℤ)
  | str (val : Str)
  | strlist (vals : List Str)
  | raw (value : Bytes)

/-- `struct.pack(">I", val & 0xFFFFFFFF)`, or eight bytes for `k = 8`. -/
def packMasked (k : ℕ) (val : ℤ) : Bytes := bytesBE k (val % 256 ^ k).toNat

def PropVal.bytes : PropVal → Bytes
  | .empty => []
  | .u32 val => packMasked 4 val
  | .u64 val => packMasked 8 val
  | .cells vals => vals.flatMap (packMasked 4)
  | .str val => asciiBytes val ++ [0]
  | .strlist vals => vals.flatMap fun v ↦ asciiBytes v ++ [0]
  | .raw value => value

/-- The texts of a value can be encoded. -/
def PropVal.valid : PropVal → Bool
  | .str val => isAscii val
  | .strlist vals => vals.all isAscii
  | _ => true

def PropVal.encode (v : PropVal) : Option Bytes := if v.valid then some v.bytes else none

namespace FdtBuilder

/-- `__init__`. -/
def init : FdtBuilder := { struct := [], strings := [], stringOffsets := [] }

variable (b : FdtBuilder)

/-- `_string_off`. -/
def stringOff (name : Str) : Option (ℕ × FdtBuilder) :=
  match b.stringOffsets.lookup name with
  | some off => some (off, b)
  | none => do
    let e ← encodeAscii name
    return (b.strings.length,
      { b with
        stringOffsets := b.stringOffsets ++ [(name, b.strings.length)]
        strings := b.strings ++ (e ++ [0]) })

def beginNode (name : Str) : Option FdtBuilder := do
  let e ← encodeAscii name
  return { b with struct := b.struct ++ bytesBE 4 fdtBeginNode ++ align4 (e ++ [0]) }

def endNode : FdtBuilder := { b with struct := b.struct ++ bytesBE 4 fdtEndNode }

/-- `_prop_raw`. -/
def propRaw (name : Str) (value : Bytes) : Option FdtBuilder := do
  let (off, b) ← b.stringOff name
  let plen ← packBE 4 value.length
  let nameoff ← packBE 4 off
  return { b with struct := b.struct ++ bytesBE 4 fdtProp ++ (plen ++ nameoff) ++ align4 value }

/-- The `prop_*` methods. -/
def prop (name : Str) (v : PropVal) : Option FdtBuilder := do
  let value ← v.encode
  b.propRaw name value

def build : Option Bytes := do
  let struct := b.struct ++ bytesBE 4 fdtEnd
  let rsvmap := bytesBE 8 0 ++ bytesBE 8 0
  let offMemRsvmap := 40
  let offDtStruct := offMemRsvmap + rsvmap.length
  let offDtStrings := offDtStruct + struct.length
  let totalsize := offDtStrings + b.strings.length
  let header ← [fdtMagic, totalsize, offDtStruct, offDtStrings, offMemRsvmap, fdtVersion,
    fdtLastCompVersion, 0, b.strings.length, struct.length].mapM (packBE 4)
  return header.flatten ++ rsvmap ++ struct ++ b.strings

end FdtBuilder

/-! ## Trees -/

/-- A node with its properties and its children, in order. -/
inductive FdtTree (V : Type) where
  | node (name : Str) (props : List (Str × V)) (children : List (FdtTree V))

/-- A call of the builder. -/
inductive FdtEvent (V : Type) where
  | beginNode (name : Str)
  | prop (name : Str) (v : V)
  | endNode

mutual

/-- The calls for a tree, depth first. -/
def FdtTree.events {V : Type} : FdtTree V → List (FdtEvent V)
  | .node name props children =>
    .beginNode name :: (props.map (fun p ↦ .prop p.1 p.2) ++
      (FdtTree.eventsList children ++ [.endNode]))

def FdtTree.eventsList {V : Type} : List (FdtTree V) → List (FdtEvent V)
  | [] => []
  | t :: ts => t.events ++ FdtTree.eventsList ts

end

def FdtBuilder.call (b : FdtBuilder) : FdtEvent PropVal → Option FdtBuilder
  | .beginNode name => b.beginNode name
  | .prop name v => b.prop name v
  | .endNode => some b.endNode

/-- The builder after a sequence of calls. -/
def FdtBuilder.calls (b : FdtBuilder) (es : List (FdtEvent PropVal)) : Option FdtBuilder :=
  es.foldlM FdtBuilder.call b

/-- A tree emitted by a new builder, and built. -/
def FdtTree.blob (t : FdtTree PropVal) : Option Bytes := do
  let b ← FdtBuilder.init.calls t.events
  b.build

/-! ## The validator -/

inductive FdtError where
  | structError
  | valueError
  | badMagic (magic : ℕ)
  | badTotalsize (totalsize actual : ℕ)
  | badRsvmapOffset (off : ℕ)
  | badStructOffset
  | badStringsOffset
  | badEnd
  | badRsvmap
  | badEndNode
  | badNameoff (nameoff : ℕ)
  | badToken (tok off : ℕ)
  | unbalanced (depth : ℤ)
  | noEnd
  | shallow (maxDepth : ℤ)
  | noProps
  deriving DecidableEq

/-- `struct.unpack` of the first `k` bytes. -/
def unpackBE (k : ℕ) (bs : Bytes) : Except FdtError (ℕ × Bytes) :=
  match readBE k bs with
  | some r => .ok r
  | none => .error .structError

def check (p : Bool) (e : FdtError) : Except FdtError Unit := if p then .ok () else .error e

structure FdtScan where
  depth : ℤ
  maxDepth : ℤ
  propCount : ℕ
  deriving DecidableEq

/-- The loop over the structure block, of `size` bytes in all; `bs` is what is left from `i` on.
The second component is `saw_end`. -/
def scanStruct (size stringsLen : ℕ) : ℕ → Bytes → FdtScan → Except FdtError (FdtScan × Bool)
  | 0, _, s => .ok (s, false)
  | fuel + 1, bs, s =>
    if bs.length = 0 then .ok (s, false)
    else do
      let (tok, rest) ← unpackBE 4 bs
      if tok = fdtBeginNode then
        match cstring rest with
        | none => .error .valueError
        | some name =>
          scanStruct size stringsLen fuel (rest.drop (roundUp4 (name.length + 1)))
            { s with depth := s.depth + 1, maxDepth := max s.maxDepth (s.depth + 1) }
      else if tok = fdtEndNode then
        check (0 ≤ s.depth - 1) .badEndNode
        scanStruct size stringsLen fuel rest { s with depth := s.depth - 1 }
      else if tok = fdtProp then
        let (plen, rest) ← unpackBE 4 rest
        let (nameoff, rest) ← unpackBE 4 rest
        check (nameoff < stringsLen) (.badNameoff nameoff)
        scanStruct size stringsLen fuel (rest.drop (roundUp4 plen))
          { s with propCount := s.propCount + 1 }
      else if tok = fdtEnd then .ok (s, true)
      else .error (.badToken tok (size - bs.length))

/-- The fields of the header, each of 32 bits. -/
def unpackFields : ℕ → Bytes → Option (List ℕ)
  | 0, _ => some []
  | n + 1, bs => do
    let (v, rest) ← readBE 4 bs
    return v :: (← unpackFields n rest)

structure FdtSummary where
  maxDepth : ℤ
  propCount : ℕ
  totalsize : ℕ
  deriving DecidableEq

def parseAndValidate (blob : Bytes) : Except FdtError FdtSummary :=
  match unpackFields 10 (slice blob 0 40) with
  | some [magic, totalsize, offStruct, offStrings, offRsvmap, _, _, _, sizeStrings, sizeStruct] => do
    check (magic == fdtMagic) (.badMagic magic)
    check (totalsize == blob.length) (.badTotalsize totalsize blob.length)
    check (offRsvmap == 40) (.badRsvmapOffset offRsvmap)
    check (offStruct == offRsvmap + 16) .badStructOffset
    check (offStrings == offStruct + sizeStruct) .badStringsOffset
    check (offStrings + sizeStrings == totalsize) .badEnd
    let (addr, rest) ← unpackBE 8 (slice blob offRsvmap (offRsvmap + 16))
    let (size, _) ← unpackBE 8 rest
    check (addr == 0 && size == 0) .badRsvmap
    let struct := slice blob offStruct (offStruct + sizeStruct)
    let strings := slice blob offStrings (offStrings + sizeStrings)
    let (s, sawEnd) ← scanStruct struct.length strings.length (struct.length + 1) struct
      { depth := 0, maxDepth := 0, propCount := 0 }
    check (s.depth == 0) (.unbalanced s.depth)
    check sawEnd .noEnd
    check (2 ≤ s.maxDepth) (.shallow s.maxDepth)
    check (0 < s.propCount) .noProps
    return { maxDepth := s.maxDepth, propCount := s.propCount, totalsize := totalsize }
  | _ => .error .structError

end RvPipeline
