import RvPipeline.Mem.Lsu

/-!
# The load/store unit behind the data cache

The same stream of accesses as in `Mem.Lsu`, through `DCache.v` and the added data latency.  A
load is answered in one cycle and leaves in the next, so its request is on the port of the cache
for one cycle longer than it takes to serve it.
-/

namespace RvPipeline

/-- What the access puts on the request port of the cache. -/
def MemOp.dcacheReq : MemOp 32 → DCacheReq 32
  | load addr funct3 => { read := true, write := false, addr := addr, wdata := 0, funct3 := funct3 }
  | store addr data funct3 =>
    { read := false, write := true, addr := addr, wdata := data, funct3 := funct3 }
  | _ => { read := false, write := false, addr := 0, wdata := 0, funct3 := 0 }

def MemOp.isStore : MemOp 32 → Bool
  | store _ _ _ => true
  | _ => false

/-- `reg3` holds the access number `idx`. -/
structure CachedLsu where
  dcache : DCache 32
  ram : RamPort 32
  dmem : DmemLatency 32
  memStallDone : Bool
  captured : BitVec 32
  fencePending : Bool
  fenceFlushStarted : Bool
  idx : ℕ

/-- The parameters the unit reads. -/
structure CachedParams where
  geometry : CacheGeometry := {}
  memSizeBytes : ℕ := 128
  memLatencyD : ℕ := 0

namespace CachedLsu

variable (C : CachedParams) (ops : ℕ → MemOp 32) (l : CachedLsu)

def op : MemOp 32 := ops l.idx
def req : DCacheReq 32 := (l.op ops).dcacheReq

/-- `wb_m_*` of `gen_bus_mux_cached`, with the walker at rest. -/
def busReq : BusReq 32 := if l.dcache.mCyc then l.dcache.busReq C.geometry else idleReq

def newRequest : Bool :=
  (l.busReq C).cyc && (l.busReq C).stb &&
    (!l.dmem.reqActive || (l.busReq C).addr != l.dmem.reqAddr || (l.busReq C).we != l.dmem.reqWe)

def mAck : Bool := if C.memLatencyD = 0 then l.ram.ack (l.busReq C) else l.dmem.model.done
def mDataI : BitVec 32 := if C.memLatencyD = 0 then l.ram.readData else l.dmem.capturedData

def respReady : Bool := l.dcache.respReady C.geometry (l.req ops) (l.mAck C)
def respRdata : BitVec 32 := l.dcache.respRdata C.geometry (l.req ops) (l.mDataI C) (l.mAck C)

def memAccessReady : Bool := if l.fencePending then l.dcache.flushDone else l.respReady C ops

/-- `mem_trigger`. -/
def trigger : Bool :=
  (l.op ops).isLoad || ((l.op ops).isStore && !l.respReady C ops) || l.fencePending

def stall : Bool := l.trigger C ops && !l.memStallDone

def dmemNext : DmemLatency 32 :=
  let new := l.newRequest C
  let capture := l.ram.ack (l.busReq C) && !l.dmem.capturedThisReq
  { reqActive := if new then true else if l.dmem.model.done then false else l.dmem.reqActive
    reqAddr := if new then (l.busReq C).addr else l.dmem.reqAddr
    reqWe := if new then (l.busReq C).we else l.dmem.reqWe
    model := l.dmem.model.step C.memLatencyD new
    capturedThisReq := if new then false else if capture then true else l.dmem.capturedThisReq
    capturedData := if !new && capture then l.ram.readData else l.dmem.capturedData }

/-- One clock edge; a fence raises `fence_pending_r` as it moves to `reg3`. -/
def step : CachedLsu :=
  { dcache := l.dcache.step C.geometry (l.req ops) (l.mDataI C) (l.mAck C)
      (l.fencePending && !l.fenceFlushStarted)
    ram := l.ram.step C.memSizeBytes (l.busReq C)
    dmem := l.dmemNext C
    memStallDone := l.stall C ops && l.memAccessReady C ops
    captured := if l.respReady C ops then l.respRdata C ops else l.captured
    fencePending :=
      if l.dcache.flushDone then false
      else if ops (l.idx + 1) = .fence ∧ l.stall C ops = false then true
      else l.fencePending
    fenceFlushStarted := l.fencePending && (l.dcache.flushActive || l.fenceFlushStarted)
    idx := if l.stall C ops then l.idx else l.idx + 1 }

def run (l₀ : CachedLsu) : ℕ → CachedLsu
  | 0 => l₀
  | n + 1 => (run l₀ n).step C ops

/-- Access `j` leaves MEM in cycle `n`. -/
def Leaves (l₀ : CachedLsu) (n j : ℕ) : Prop :=
  (run C ops l₀ n).idx = j ∧ (run C ops l₀ n).stall C ops = false

/-- Reset, with the first access in MEM, from whatever the registers powered up to. -/
def start (m : Ram 32) (c : DCache 32) (d : DmemLatency 32) (v : BitVec 32) : CachedLsu :=
  { dcache := c.reset
    ram := { dataMemory := m, rawWord := 0, funct3 := 0, memRead := false, memReadPending := false }
    dmem := { d with reqActive := false, model := .reset, capturedThisReq := false }
    memStallDone := false
    captured := v
    fencePending := ops 0 = .fence
    fenceFlushStarted := false
    idx := 0 }

end CachedLsu

/-! ## The same unit in the core -/

/-- Requests the cache cannot tell apart: the data of a load and the address of no request do not
count. -/
structure DCacheReq.Same (q q' : DCacheReq 32) : Prop where
  read : q.read = q'.read
  write : q.write = q'.write
  asks : (q.read || q.write) = true → q.addr = q'.addr ∧ q.funct3 = q'.funct3
  data : q.write = true → q.wdata = q'.wdata

/-- The same cache, but for the store data a missing load has left. -/
structure DCache.Same (c c' : DCache 32) : Prop where
  rest : c' = { c with missWdata := c'.missWdata }
  data : c.missIsWrite = true → c.missWdata = c'.missWdata

section Same

variable {g : CacheGeometry} {c c' : DCache 32} {q q' : DCacheReq 32}

theorem DCache.Same.fillValue (h : c.Same c') (d : BitVec 32) :
    c.fillValue d = c'.fillValue d := by
  rw [h.rest]
  unfold DCache.fillValue
  cases hw : c.missIsWrite with
  | false => rfl
  | true => simp [h.data hw]

theorem DCacheReq.Same.cases (h : q.Same q') : q = { q' with wdata := q.wdata } ∨
    (q.read = false ∧ q.write = false ∧ q'.read = false ∧ q'.write = false) := by
  cases hasks : q.read || q.write with
  | true =>
    obtain ⟨haddr, hf3⟩ := h.asks hasks
    have hr := h.read
    have hw := h.write
    left
    cases q
    cases q'
    simp only at haddr hf3 hr hw
    simp only [haddr, hf3, hr, hw]
  | false =>
    rw [Bool.or_eq_false_iff] at hasks
    exact .inr ⟨hasks.1, hasks.2, h.read ▸ hasks.1, h.write ▸ hasks.2⟩

theorem DCache.Same.resp (h : c.Same c') (hq : q.Same q') (d : BitVec 32) (ack : Bool) :
    c.respReady g q ack = c'.respReady g q' ack ∧
      c.respRdata g q d ack = c'.respRdata g q' d ack := by
  have hfill := h.fillValue d
  rcases hq.cases with hsame | ⟨hr, hw, hr', hw'⟩
  · constructor
    · rw [h.rest, hsame]
      rfl
    · unfold DCache.respRdata
      rw [← hfill, h.rest, hsame]
      rfl
  · simp [DCache.respReady, DCache.respRdata, DCache.hitRdResponds, DCache.fillResponds, hr, hw, hr',
      hw']

theorem DCache.Same.beginMiss (h : c.Same c') (hq : q.Same q')
    (hasks : (q.read || q.write) = true) : (c.beginMiss g q).Same (c'.beginMiss g q') := by
  obtain ⟨hrest, -⟩ := h
  obtain ⟨haddr, hf3⟩ := hq.asks hasks
  generalize c'.missWdata = x at hrest
  subst hrest
  simp only [DCache.beginMiss, haddr, hf3, hq.write, DCache.lineBaseOf]
  have hdata : q'.write = true → q.wdata.setWidth 32 = q'.wdata.setWidth 32 :=
    fun hw ↦ congrArg _ (hq.data (hq.write.trans hw))
  split_ifs
  · exact ⟨rfl, hdata⟩
  · exact ⟨rfl, hdata⟩

theorem DCache.Same.stepIdle (h : c.Same c') (hq : q.Same q') (flush : Bool) :
    (c.stepIdle g q flush).Same (c'.stepIdle g q' flush) := by
  have hmiss := h.beginMiss (g := g) hq
  obtain ⟨hrest, hdata⟩ := h
  generalize c'.missWdata = x at hrest hdata
  subst hrest
  unfold DCache.stepIdle
  rw [← hq.read, ← hq.write]
  by_cases hflush : (flush && !c.flushActive) = true
  · rw [if_pos hflush, if_pos hflush]
    exact ⟨rfl, hdata⟩
  rw [if_neg hflush, if_neg hflush]
  by_cases hasks : (q.read || q.write) = true
  · obtain ⟨haddr, hf3⟩ := hq.asks hasks
    have hhit (y : BitVec 32) : ({ c with missWdata := y } : DCache 32).hit g q' = c.hit g q := by
      unfold DCache.hit
      exact congrArg _ (funext fun n ↦ by simp only [DCache.wayHit, haddr])
    rw [if_pos hasks, if_pos hasks, hhit]
    split_ifs with hit hwr
    · simp only [DCache.hitLineIdx, DCache.hitData, DCache.wayHit, haddr, hf3, hq.data hwr]
      exact ⟨rfl, hdata⟩
    · simp only [DCache.hitLineIdx, DCache.wayHit, haddr, hf3]
      exact ⟨rfl, hdata⟩
    · exact hmiss hasks
  · rw [if_neg hasks, if_neg hasks]
    exact ⟨rfl, hdata⟩

theorem DCache.Same.stepFill (h : c.Same c') (d : BitVec 32) (ack : Bool) :
    (c.stepFill g d ack).Same (c'.stepFill g d ack) := by
  have hfill := h.fillValue d
  obtain ⟨hrest, hdata⟩ := h
  generalize c'.missWdata = x at hrest hdata
  subst hrest
  unfold DCache.stepFill
  rw [← hfill]
  simp only [DCache.isLastWord]
  by_cases hlast : (c.fillWord + 1 == g.lineWords) = true
  · simp only [hlast, if_true]
    split_ifs <;> exact ⟨rfl, hdata⟩
  · simp only [hlast]
    split_ifs <;> exact ⟨rfl, hdata⟩

theorem DCache.Same.step (h : c.Same c') (hq : q.Same q') (d : BitVec 32) (ack flush : Bool) :
    (c.step g q d ack flush).Same (c'.step g q' d ack flush) := by
  have hidle := h.stepIdle (g := g) hq flush
  have hfill := h.stepFill (g := g) d ack
  obtain ⟨hrest, hdata⟩ := h
  generalize c'.missWdata = x at hrest hdata
  subst hrest
  unfold DCache.step
  cases hstate : c.state with
  | idle => simpa only [hstate] using hidle
  | hitRd => exact ⟨rfl, hdata⟩
  | wb =>
    simp only [DCache.stepWb, DCache.advanceScan, DCache.isLastWord]
    split_ifs <;> exact ⟨by simp [hstate], hdata⟩
  | fill => simpa only [hstate] using hfill
  | flushScan =>
    simp only [DCache.lineBaseOf, DCache.advanceScan]
    split_ifs <;> exact ⟨rfl, hdata⟩

end Same

theorem Reg3.isLoad_memOp (r : Reg3 32) (fence : Bool) : (r.memOp fence).isLoad = r.memRead := by
  unfold Reg3.memOp
  cases r.memRead <;> cases r.memWrite <;> cases fence <;> rfl

theorem Reg3.isStore_memOp (r : Reg3 32) (fence : Bool) :
    (r.memOp fence).isStore = (!r.memRead && r.memWrite) := by
  unfold Reg3.memOp
  cases r.memRead <;> cases r.memWrite <;> cases fence <;> rfl

/-- The parameters of the core the unit reads. -/
def Params.cached (P : Params) : CachedParams :=
  { geometry := P.dcache, memSizeBytes := P.memSizeBytes, memLatencyD := P.memLatencyD }

namespace CachedLsu

section Core

variable {k : ℕ} {P : Params} {s : State 32 k} {i : Inputs} {l : CachedLsu} {ops : ℕ → MemOp 32}

/-- The registers of the core the unit has hold what they hold in the unit. -/
structure In (l : CachedLsu) (s : State 32 k) : Prop where
  dcache : l.dcache.Same s.dcache
  ram : l.ram = s.ram
  dmem : l.dmem = s.dmem
  memStallDone : l.memStallDone = s.memStallDone
  captured : l.captured = s.dcacheRdataCaptured
  fencePending : l.fencePending = s.fencePending
  fenceFlushStarted : l.fenceFlushStarted = s.fenceFlushStarted

theorem req_same {fence : Bool} (hacc : s.reg3.OneAccess) (hbusy : s.ptw.busy = false)
    (hop : l.op ops = s.reg3.memOp fence) : (l.req ops).Same (RvPipeline.dcacheReq s) := by
  unfold req RvPipeline.dcacheReq
  rw [hop, hbusy, Reg3.memOp]
  by_cases hr : s.reg3.memRead = true
  · have hw := (hacc.read hr).1
    rw [if_pos hr]
    constructor <;> simp [MemOp.dcacheReq, hr, hw]
  have hr' : s.reg3.memRead = false := by simpa using hr
  rw [if_neg hr]
  by_cases hw : s.reg3.memWrite = true
  · rw [if_pos hw]
    constructor <;> simp [MemOp.dcacheReq, hr', hw]
  · have hw' : s.reg3.memWrite = false := by simpa using hw
    rw [if_neg hw]
    cases fence <;> constructor <;> simp [MemOp.dcacheReq, hr', hw']

theorem In.busReq (h : l.In s) (hmode : P.cacheMode = .writebackSetassoc)
    (hbusy : s.ptw.busy = false) : l.busReq P.cached = RvPipeline.busReq P s := by
  have hcyc : l.dcache.mCyc = s.dcache.mCyc := by
    rw [h.dcache.rest]
    rfl
  simp only [CachedLsu.busReq, RvPipeline.busReq, hmode, hbusy, Bool.false_eq_true, if_false, hcyc]
  rw [h.dcache.rest]
  rfl

/-- A core with the data cache drives it, and the RAM behind it, as the unit does, while the walker
keeps off the bus and every access is to RAM. -/
theorem step_core {fence : Bool} (hmode : P.cacheMode = .writebackSetassoc)
    (hacc : s.reg3.OneAccess) (hamo : s.reg3.isAmo = false) (hbusy : s.ptw.busy = false)
    (hram : ramOnly P (RvPipeline.busReq P s).addr = true) (hop : l.op ops = s.reg3.memOp fence)
    (hfence : memHold P s = false →
      (ops (l.idx + 1) = .fence ↔ (s.reg2.ctl.isFence && !reg2Hold P s i) = true))
    (h : l.In s) :
    l.stall P.cached ops = memHold P s ∧ (l.step P.cached ops).In (RvPipeline.step P s i) := by
  have hreq := req_same hacc hbusy hop
  have hbus := h.busReq hmode hbusy
  simp only [ramOnly, Bool.and_eq_true, Bool.not_eq_true'] at hram
  have hselect : ramReq P s = RvPipeline.busReq P s := by
    simp [ramReq, ramHit, hram, BusReq.select]
  have hlat : P.cached.memLatencyD = P.memLatencyD := rfl
  have hack : l.mAck P.cached = lsuAck P s := by
    simp [mAck, lsuAck, wbSelect, ramHit, uartHit, timerHit, hram, ramAck, ramAckRaw, hselect, hbus,
      h.ram, h.dmem, hlat]
  have hdata : l.mDataI P.cached = readData P s := by
    simp [mDataI, readData, wbSelect, ramHit, uartHit, timerHit, hram, ramData, h.ram, h.dmem, hlat]
  obtain ⟨hready, hrdata⟩ :=
    h.dcache.resp (g := P.dcache) hreq (l.mDataI P.cached) (l.mAck P.cached)
  have hready' : l.respReady P.cached ops = dcacheRespReady P s := by
    simp only [respReady, dcacheRespReady, hmode]
    rw [← hack]
    exact hready
  have hrdata' : l.respRdata P.cached ops = dcacheRespRdata P s := by
    simp only [respRdata, dcacheRespRdata, hmode]
    rw [← hack, ← hdata]
    exact hrdata
  have hhold : memHold P s = memStall P s := by simp [memHold, amoStall, amoActive, hamo]
  have hstall : l.stall P.cached ops = memHold P s := by
    simp only [hhold, stall, trigger, memStall, memTrigger, hmode, hop, Reg3.isLoad_memOp,
      Reg3.isStore_memOp, hready', h.fencePending, h.memStallDone]
    cases s.reg3.memRead <;> simp
  have hflush : l.dcache.flushDone = dcacheFlushDone P s := by
    simp only [dcacheFlushDone, hmode]
    rw [h.dcache.rest]
  have hnew : l.newRequest P.cached = dmemNewRequest P s := by
    simp only [newRequest, dmemNewRequest, hselect, hbus, h.dmem]
  refine ⟨hstall, ?_, ?_, ?_, ?_, ?_, ?_, ?_⟩
  · have hstep := h.dcache.step (g := P.dcache) hreq (l.mDataI P.cached) (l.mAck P.cached)
      (l.fencePending && !l.fenceFlushStarted)
    rw [hack, hdata, h.fencePending, h.fenceFlushStarted] at hstep
    simp only [step, RvPipeline.step, hack, hdata, hbusy, h.fencePending, h.fenceFlushStarted,
      Bool.not_false, Bool.and_true]
    exact hstep
  · simp only [step, RvPipeline.step, hselect, hbus, h.ram]
    rfl
  · simp only [step, RvPipeline.step, CachedLsu.dmemNext, RvPipeline.dmemNext, hnew, hselect, hbus,
      h.ram, h.dmem, ramAckRaw, hlat]
  · simp only [step, RvPipeline.step, hstall, hhold, CachedLsu.memAccessReady,
      RvPipeline.memAccessReady, hmode, hflush, hready', h.fencePending]
  · simp only [step, RvPipeline.step, hready', hrdata', h.captured]
  · have henter : ops (l.idx + 1) = .fence ∧ l.stall P.cached ops = false ↔
        (s.reg2.ctl.isFence && !reg2Hold P s i) = true := by
      cases hm : memHold P s with
      | false => simpa [hstall, hm] using hfence hm
      | true =>
        have hreg2 : reg2Hold P s i = true := by simp [reg2Hold, reg2HoldOf, ← hhold, hm]
        simp [hstall, hm, hreg2]
    simp only [step, RvPipeline.step, fencePendingNext, hflush, henter, hmode, h.fencePending]
    simp
  · simp only [step, RvPipeline.step, h.fencePending, h.fenceFlushStarted, dcacheFlushBusy, hmode]
    rw [h.dcache.rest]

end Core

end CachedLsu

end RvPipeline
