import RvPipeline.Design.Memory

/-!
# Caches

`ICache.v` and `DCache.v`: set-associative, round-robin replacement, and for the
data side write-back with write-allocate.  Arrays are functions of the same flat
index the modules compute.
-/

namespace RvPipeline

variable {w : ℕ}

/-- `WAYS`, `CACHE_SIZE_BYTES`, `LINE_BYTES`. -/
structure CacheGeometry where
  ways : ℕ := 4
  sizeBytes : ℕ := 4096
  lineBytes : ℕ := 16

namespace CacheGeometry

variable (g : CacheGeometry)

def lineWords : ℕ := g.lineBytes / 4
def numLines : ℕ := g.sizeBytes / g.lineBytes
def numSets : ℕ := g.numLines / g.ways
def setBits : ℕ := clog2 g.numSets
def offsetBits : ℕ := clog2 g.lineBytes
def lineIdxBits : ℕ := g.setBits + clog2 g.ways

def wordOff (a : BitVec w) : ℕ := a.toNat / 4 % 2 ^ (g.offsetBits - 2)
def setIdx (a : BitVec w) : ℕ := a.toNat / 2 ^ g.offsetBits % 2 ^ g.setBits
def tagOf (a : BitVec w) : ℕ := a.toNat / 2 ^ (g.offsetBits + g.setBits)
def lineBase (a : BitVec w) : BitVec w := BitVec.ofNat w (a.toNat / 2 ^ g.offsetBits * 2 ^ g.offsetBits)

/-- The line index of way `n` in the set of `a`. -/
def lineIdx (a : BitVec w) (n : ℕ) : ℕ := g.setIdx a * g.ways + n

/-- The round-robin successor of a way. -/
def nextWay (n : ℕ) : ℕ := if n + 1 = g.ways then 0 else n + 1

end CacheGeometry

/-- Assignment to one cell of an array. -/
def setCell {α : Type} (f : ℕ → α) (n : ℕ) (v : α) : ℕ → α := fun m ↦ if m = n then v else f m

/-! ## `ICache.v` -/

/-- The registers of `ICache.v`; `state` and `busy_r` always agree, so `filling` is both. -/
structure ICache (w : ℕ) where
  valid : ℕ → Bool
  tagArr : ℕ → ℕ
  dataArr : ℕ → BitVec 32
  victim : ℕ → ℕ
  filling : Bool
  fillBase : BitVec w
  fillSet : ℕ
  fillTag : ℕ
  fillWay : ℕ
  fillWord : ℕ
  done : Bool
  latency : LatencyModel
  deriving Inhabited

namespace ICache

def reset (c : ICache w) : ICache w :=
  { c with
    valid := fun _ ↦ false, victim := fun _ ↦ 0, filling := false, done := false
    latency := .reset }

def wayHit (g : CacheGeometry) (c : ICache w) (a : BitVec w) (n : ℕ) : Bool :=
  c.valid (g.lineIdx a n) && c.tagArr (g.lineIdx a n) == g.tagOf a

def hit (g : CacheGeometry) (c : ICache w) (a : BitVec w) : Bool :=
  (List.range g.ways).any (c.wayHit g a)

/-- `inst`: the OR of the hitting ways. -/
def inst (g : CacheGeometry) (c : ICache w) (a : BitVec w) : BitVec 32 :=
  (List.range g.ways).foldl (fun acc n ↦
    acc ||| if c.wayHit g a n then c.dataArr (g.lineIdx a n * g.lineWords + g.wordOff a) else 0) 0

/-- One clock edge; `imem` is the backing `InstructionMemory`. -/
def step (g : CacheGeometry) (memLatency : ℕ) (imem : BitVec w → BitVec 32) (readAddr : BitVec w)
    (c : ICache w) : ICache w :=
  let ready := memLatency == 0 || c.latency.done
  let lat := c.latency.step memLatency (c.filling && !c.latency.busy)
  if !c.filling then
    if !c.hit g readAddr then
      { c with
        done := false, latency := lat, filling := true
        fillSet := g.setIdx readAddr, fillTag := g.tagOf readAddr
        fillWay := c.victim (g.setIdx readAddr), fillBase := g.lineBase readAddr, fillWord := 0 }
    else { c with done := false, latency := lat }
  else if ready then
    let line := c.fillSet * g.ways + c.fillWay
    let c' := { c with
      done := false, latency := lat
      dataArr := setCell c.dataArr (line * g.lineWords + c.fillWord)
        (imem (c.fillBase + BitVec.ofNat w (4 * c.fillWord))) }
    if c.fillWord + 1 = g.lineWords then
      { c' with
        valid := setCell c.valid line true
        tagArr := setCell c.tagArr line c.fillTag
        victim := setCell c.victim c.fillSet (g.nextWay c.fillWay)
        done := true, filling := false }
    else { c' with fillWord := c.fillWord + 1 }
  else { c with done := false, latency := lat }

end ICache

/-! ## `DCache.v` -/

inductive DCacheState where
  | idle | hitRd | wb | fill | flushScan
  deriving DecidableEq, Repr, Inhabited

/-- The request port of `DCache.v`. -/
structure DCacheReq (w : ℕ) where
  read : Bool
  write : Bool
  addr : BitVec w
  wdata : BitVec w
  funct3 : BitVec 3

/-- The registers of `DCache.v`.  Its data words are 32 bits: every path in and out
of `data_arr` goes through a 32-bit function argument or result. -/
structure DCache (w : ℕ) where
  valid : ℕ → Bool
  dirty : ℕ → Bool
  tagArr : ℕ → ℕ
  dataArr : ℕ → BitVec 32
  victim : ℕ → ℕ
  state : DCacheState
  hitLine : ℕ
  hitWord : ℕ
  hitFunct3 : BitVec 3
  hitByteoff : BitVec 2
  missSet : ℕ
  missWay : ℕ
  missTag : ℕ
  missBase : BitVec w
  missWordOff : ℕ
  missByteoff : BitVec 2
  missFunct3 : BitVec 3
  missIsWrite : Bool
  missWdata : BitVec 32
  missOrigAddr : BitVec w
  fillWord : ℕ
  wbLine : ℕ
  wbBase : BitVec w
  wbReturnToFlush : Bool
  flushScan : ℕ
  flushActive : Bool
  flushDone : Bool
  servedAddr : BitVec w
  deriving Inhabited

namespace DCache

def reset (c : DCache w) : DCache w :=
  { c with
    valid := fun _ ↦ false, dirty := fun _ ↦ false, victim := fun _ ↦ 0, state := .idle
    flushActive := false, flushDone := false }

/-- `dcache_extend_read`. -/
def extendRead (word : BitVec 32) (funct3 : BitVec 3) (byteOff : BitVec 2) : BitVec 32 :=
  let b : BitVec 8 := word.extractLsb' (8 * byteOff.toNat) 8
  let h : BitVec 16 := if byteOff.getLsbD 1 then word.extractLsb' 16 16 else word.extractLsb' 0 16
  if funct3 = 0b000#3 then b.signExtend 32
  else if funct3 = 0b100#3 then b.setWidth 32
  else if funct3 = 0b001#3 then h.signExtend 32
  else if funct3 = 0b101#3 then h.setWidth 32
  else word

/-- `dcache_merge_write`. -/
def mergeWrite (oldWord : BitVec 32) (funct3Lo byteOff : BitVec 2) (wdata : BitVec 32) :
    BitVec 32 :=
  let place (mask : BitVec 32) (sh : ℕ) : BitVec 32 :=
    (oldWord &&& ~~~(mask <<< sh)) ||| ((wdata &&& mask) <<< sh)
  if funct3Lo = 0b00#2 then place 0xFF#32 (8 * byteOff.toNat)
  else if funct3Lo = 0b01#2 then place 0xFFFF#32 (if byteOff.getLsbD 1 then 16 else 0)
  else wdata

section Ports

variable (g : CacheGeometry) (c : DCache w) (q : DCacheReq w) (mDataI : BitVec w) (mAck : Bool)

def wayHit (n : ℕ) : Bool :=
  c.valid (g.lineIdx q.addr n) && c.tagArr (g.lineIdx q.addr n) == g.tagOf q.addr

def hit : Bool := (List.range g.ways).any (c.wayHit g q)

def hitData : BitVec 32 :=
  (List.range g.ways).foldl (fun acc n ↦
    acc ||| if c.wayHit g q n then
      c.dataArr (g.lineIdx q.addr n * g.lineWords + g.wordOff q.addr) else 0) 0

def hitLineIdx : ℕ :=
  (List.range g.ways).foldl (fun acc n ↦
    acc ||| if c.wayHit g q n then g.lineIdx q.addr n else 0) 0

def isLastWord : Bool := c.fillWord + 1 == g.lineWords

/-- The word a fill beat writes, with a missing store merged in. -/
def fillValue : BitVec 32 :=
  if c.missIsWrite && c.fillWord == c.missWordOff then
    mergeWrite (mDataI.setWidth 32) (c.missFunct3.extractLsb' 0 2) c.missByteoff c.missWdata
  else mDataI.setWidth 32

def hitRdResponds : Bool := c.state == .hitRd && q.read && q.addr == c.servedAddr

def fillResponds : Bool :=
  c.state == .fill && mAck && c.isLastWord g && (q.read || q.write) && q.addr == c.missOrigAddr

def respReady : Bool :=
  (c.state == .idle && c.hit g q && q.write) || c.hitRdResponds q || c.fillResponds g q mAck

def respRdata : BitVec w :=
  if c.hitRdResponds q then
    (extendRead (c.dataArr (c.hitLine * g.lineWords + c.hitWord)) c.hitFunct3
      c.hitByteoff).setWidth w
  else if c.fillResponds g q mAck then
    (extendRead (c.fillValue mDataI) c.missFunct3 c.missByteoff).setWidth w
  else 0

def accessHit : Bool := (c.state == .idle && q.write && c.hit g q) || c.hitRdResponds q

def accessMiss : Bool := c.state == .idle && (q.read || q.write) && !c.hit g q

def mCyc : Bool := c.state == .wb || c.state == .fill

/-- The bus request; fills and write-backs move whole words. -/
def busReq : BusReq w :=
  { cyc := c.mCyc
    stb := c.mCyc
    we := c.state == .wb
    addr := (if c.state = .wb then c.wbBase else c.missBase) + BitVec.ofNat w (4 * c.fillWord)
    data := if c.state = .wb then (c.dataArr (c.wbLine * g.lineWords + c.fillWord)).setWidth w else 0
    funct3 := 0b010#3 }

/-- The base address of a cached line, from its tag and its set. -/
def lineBaseOf (line : ℕ) : BitVec w :=
  BitVec.ofNat w ((c.tagArr line * 2 ^ g.setBits + line / g.ways % 2 ^ g.setBits) * 2 ^ g.offsetBits)

/-- `S_IDLE` with a request that misses. -/
def beginMiss : DCache w :=
  let way := c.victim (g.setIdx q.addr)
  let line := g.lineIdx q.addr way
  let c' := { c with
    flushDone := false, missSet := g.setIdx q.addr, missTag := g.tagOf q.addr, missWay := way
    missBase := g.lineBase q.addr, missWordOff := g.wordOff q.addr
    missByteoff := q.addr.setWidth 2, missFunct3 := q.funct3, missIsWrite := q.write
    missWdata := q.wdata.setWidth 32, missOrigAddr := q.addr, fillWord := 0 }
  if c.valid line && c.dirty line then
    { c' with
      wbLine := line, wbBase := c.lineBaseOf g line, wbReturnToFlush := false, state := .wb }
  else { c' with state := .fill }

/-- `S_IDLE`. -/
def stepIdle (flushAll : Bool) : DCache w :=
  if flushAll && !c.flushActive then
    { c with flushDone := false, flushActive := true, flushScan := 0, state := .flushScan }
  else if q.read || q.write then
    if c.hit g q then
      if q.write then
        { c with
          flushDone := false
          dataArr := setCell c.dataArr (c.hitLineIdx g q * g.lineWords + g.wordOff q.addr)
            (mergeWrite (c.hitData g q) (q.funct3.extractLsb' 0 2) (q.addr.setWidth 2)
              (q.wdata.setWidth 32))
          dirty := setCell c.dirty (c.hitLineIdx g q) true }
      else
        { c with
          flushDone := false, hitLine := c.hitLineIdx g q, hitWord := g.wordOff q.addr
          hitFunct3 := q.funct3, hitByteoff := q.addr.setWidth 2, state := .hitRd
          servedAddr := q.addr }
    else c.beginMiss g q
  else { c with flushDone := false }

/-- The scan pointer after the line it points at is clean. -/
def advanceScan : DCache w :=
  if c.flushScan + 1 = g.numLines then
    { c with flushActive := false, flushDone := true, state := .idle }
  else
    { c with
      flushDone := false, flushScan := (c.flushScan + 1) % 2 ^ g.lineIdxBits, state := .flushScan }

/-- `S_WB`. -/
def stepWb : DCache w :=
  if mAck then
    if c.isLastWord g then
      let c' := { c with dirty := setCell c.dirty c.wbLine false }
      if c.wbReturnToFlush then c'.advanceScan g
      else { c' with flushDone := false, fillWord := 0, state := .fill }
    else { c with flushDone := false, fillWord := c.fillWord + 1 }
  else { c with flushDone := false }

/-- `S_FILL`. -/
def stepFill : DCache w :=
  let line := c.missSet * g.ways + c.missWay
  if mAck then
    let c' := { c with
      flushDone := false
      dataArr := setCell c.dataArr (line * g.lineWords + c.fillWord) (c.fillValue mDataI) }
    if c.isLastWord g then
      { c' with
        valid := setCell c.valid line true
        tagArr := setCell c.tagArr line c.missTag
        dirty := setCell c.dirty line c.missIsWrite
        victim := setCell c.victim c.missSet (g.nextWay c.missWay)
        state := .idle }
    else { c' with fillWord := c.fillWord + 1 }
  else { c with flushDone := false }

/-- One clock edge. -/
def step (flushAll : Bool) : DCache w :=
  match c.state with
  | .idle => c.stepIdle g q flushAll
  | .hitRd => { c with flushDone := false, state := .idle }
  | .wb => c.stepWb g mAck
  | .fill => c.stepFill g mDataI mAck
  | .flushScan =>
    if c.valid c.flushScan && c.dirty c.flushScan then
      { c with
        flushDone := false, wbLine := c.flushScan, wbBase := c.lineBaseOf g c.flushScan
        wbReturnToFlush := true, fillWord := 0, state := .wb }
    else c.advanceScan g

end Ports

end DCache

end RvPipeline
