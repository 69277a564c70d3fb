import RvPipeline.Design.Defs

/-!
# Memories and the latency model

`InstructionMemory.v`, `DataMemoryBRAM.v` with its `RamWishboneAdapter.v`, and
`MemoryLatencyModel.v`.  Byte arrays are total functions on addresses; a write
outside the array is dropped, and what a read outside it returns is whatever the
function holds there, which no step ever changes.
-/

namespace RvPipeline

variable {w : ℕ}

/-- `inst` of `InstructionMemory.v`; the word is 32 bits at every `XLEN`. -/
def instructionMemory (insts : ℕ → BitVec 8) (sizeBytes : ℕ) (readAddr : BitVec w) : BitVec 32 :=
  if sizeBytes ≤ readAddr.toNat then 0
  else insts (readAddr.toNat + 3) ++ insts (readAddr.toNat + 2) ++
    insts (readAddr.toNat + 1) ++ insts readAddr.toNat

/-- The little-endian image of a list of words, as a program file lays it out. -/
def instsOfWords (words : List (BitVec 32)) : ℕ → BitVec 8 := fun a ↦
  (words.getD (a / 4) 0).extractLsb' (8 * (a % 4)) 8

/-! ## `DataMemoryBRAM.v` -/

/-- `data_memory`. -/
abbrev Ram (w : ℕ) := BitVec w → BitVec 8

/-- How many bytes a store of this `funct3` writes. -/
def storeWidth (w : ℕ) (funct3 : BitVec 3) : ℕ :=
  if 64 ≤ w ∧ funct3 = f3StoreSd then 8
  else if funct3.extractLsb' 0 2 = 0b00#2 then 1
  else if funct3.extractLsb' 0 2 = 0b01#2 then 2
  else 4

/-- The write port: byte `k` of `writeData` goes to `address + k`. -/
def Ram.write (m : Ram w) (sizeBytes : ℕ) (address writeData : BitVec w) (funct3 : BitVec 3) :
    Ram w := fun a ↦
  let k := (a - address).toNat
  if k < storeWidth w funct3 ∧ a.toNat < sizeBytes then writeData.extractLsb' (8 * k) 8 else m a

/-- The bytes `data_memory[address + 7 .. address]`, or four of them below 64 bits. -/
def Ram.rawWord (m : Ram w) (address : BitVec w) : BitVec w :=
  let lo := m (address + 3) ++ m (address + 2) ++ m (address + 1) ++ m address
  let hi := m (address + 7) ++ m (address + 6) ++ m (address + 5) ++ m (address + 4)
  if 64 ≤ w then (hi ++ lo).setWidth w else lo.setWidth w

/-- The width and sign selection on the registered word.  The byte and halfword
arms are 32-bit concatenations, so at `XLEN = 64` their upper half is zero. -/
def loadExtend (funct3 : BitVec 3) (raw : BitVec w) : BitVec w :=
  if funct3 = 0b000#3 then ((raw.setWidth 8).signExtend 32).setWidth w
  else if funct3 = 0b100#3 then ((raw.setWidth 8).setWidth 32).setWidth w
  else if funct3 = 0b001#3 then ((raw.setWidth 16).signExtend 32).setWidth w
  else if funct3 = 0b101#3 then ((raw.setWidth 16).setWidth 32).setWidth w
  else if funct3 = 0b110#3 then (raw.setWidth 32).setWidth w
  else if funct3 = 0b011#3 then raw
  else (raw.setWidth 32).signExtend w

/-- A request on the Wishbone-shaped port every slave shares. -/
structure BusReq (w : ℕ) where
  cyc : Bool
  stb : Bool
  we : Bool
  addr : BitVec w
  data : BitVec w
  funct3 : BitVec 3

/-- `RamWishboneAdapter.v` with the `DataMemoryBRAM.v` inside it. -/
structure RamPort (w : ℕ) where
  dataMemory : Ram w
  rawWord : BitVec w
  funct3 : BitVec 3
  memRead : Bool
  memReadPending : Bool
  deriving Inhabited

namespace RamPort

/-- Reset loads `DATA_INIT_FILE`, or clears the first `ZERO_INIT_LIMIT` bytes. -/
def reset (zeroInitLimit : ℕ) (dataInitFile : Option (List (BitVec 8))) (r : RamPort w) :
    RamPort w :=
  { dataMemory := fun a ↦
      match dataInitFile with
      | none => if a.toNat < zeroInitLimit then 0 else r.dataMemory a
      | some bytes =>
        if a.toNat < zeroInitLimit then (bytes[a.toNat]?).getD (r.dataMemory a)
        else r.dataMemory a
    rawWord := 0
    funct3 := 0
    memRead := false
    memReadPending := false }

def memWrite (q : BusReq w) : Bool := q.cyc && q.stb && q.we
def memReadReq (q : BusReq w) : Bool := q.cyc && q.stb && !q.we

/-- `s_ack`. -/
def ack (r : RamPort w) (q : BusReq w) : Bool := memWrite q || r.memReadPending

/-- `s_data_i`. -/
def readData (r : RamPort w) : BitVec w :=
  if r.memRead then loadExtend r.funct3 r.rawWord else 0

/-- One clock edge.  The read register samples the array before this edge's write. -/
def step (sizeBytes : ℕ) (q : BusReq w) (r : RamPort w) : RamPort w :=
  { dataMemory :=
      if memWrite q then r.dataMemory.write sizeBytes q.addr q.data q.funct3 else r.dataMemory
    rawWord := r.dataMemory.rawWord q.addr
    funct3 := q.funct3
    memRead := memReadReq q
    memReadPending := memReadReq q }

end RamPort

/-! ## `MemoryLatencyModel.v` -/

/-- The registers of `MemoryLatencyModel.v` at `LATENCY > 0`; `count` counts down
from `LATENCY - 1`, so it never leaves the register's range. -/
structure LatencyModel where
  busy : Bool
  done : Bool
  count : ℕ
  deriving DecidableEq, Repr, Inhabited

namespace LatencyModel

def reset : LatencyModel := { busy := false, done := false, count := 0 }

def step (latency : ℕ) (start : Bool) (m : LatencyModel) : LatencyModel :=
  if start && !m.busy then { busy := true, done := false, count := latency - 1 }
  else if m.busy then
    if m.count = 0 then { m with busy := false, done := true }
    else { m with done := false, count := m.count - 1 }
  else { m with done := false }

end LatencyModel

end RvPipeline
