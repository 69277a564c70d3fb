import Mathlib.Data.Prod.Lex
import RvPipeline.Lib.Trace
import RvPipeline.Mem.CachedRun

/-!
# The data cache is invisible to loads

Every access through the cache completes, and every load leaves with the value it gets without the
cache.
-/

namespace RvPipeline

namespace DCache

variable {g : CacheGeometry} {c : DCache 32} {q : DCacheReq 32} {mDataI : BitVec 32}
  {mAck flushAll : Bool}

/-- A flush is under way. -/
def flushing (c : DCache 32) : Bool :=
  c.state == .flushScan || (c.state == .wb && c.wbReturnToFlush)

/-- A flush starts from idle only. -/
theorem step_of_not_flushing (h : c.flushing = false) :
    ((flushAll && !c.flushActive) = true ∧
      (c.step g q mDataI mAck flushAll).flushing = true ∧
      (c.step g q mDataI mAck flushAll).flushActive = true ∧
      (c.step g q mDataI mAck flushAll).flushDone = false) ∨
    ((c.step g q mDataI mAck flushAll).flushing = false ∧
      (c.step g q mDataI mAck flushAll).flushActive = c.flushActive ∧
      (c.step g q mDataI mAck flushAll).flushDone = false) := by
  cases hs : c.state with
  | idle =>
    simp only [step, hs, stepIdle, beginMiss]
    split_ifs with hflush
    · exact .inl ⟨hflush, rfl, rfl, rfl⟩
    all_goals exact .inr ⟨by simp [flushing], rfl, rfl⟩
  | hitRd => exact .inr (by simp [step, hs, flushing])
  | wb =>
    have hret : c.wbReturnToFlush = false := by simpa [flushing, hs] using h
    right
    simp only [step, hs, stepWb, hret]
    split_ifs <;> simp_all [flushing]
  | fill =>
    right
    simp only [step, hs, stepFill]
    split_ifs <;> simp [flushing]
  | flushScan => simp [flushing, hs] at h

/-- A flush goes on, or is done. -/
theorem step_of_flushing (h : c.flushing = true) :
    ((c.step g q mDataI mAck flushAll).flushing = true ∧
      (c.step g q mDataI mAck flushAll).flushActive = c.flushActive ∧
      (c.step g q mDataI mAck flushAll).flushDone = false) ∨
    ((c.step g q mDataI mAck flushAll).state = .idle ∧
      (c.step g q mDataI mAck flushAll).flushActive = false ∧
      (c.step g q mDataI mAck flushAll).flushDone = true) := by
  cases hs : c.state with
  | wb =>
    have hret : c.wbReturnToFlush = true := by simpa [flushing, hs] using h
    simp only [step, hs, stepWb, hret, advanceScan]
    split_ifs <;> simp_all [flushing]
  | flushScan =>
    simp only [step, hs, advanceScan]
    split_ifs <;> simp [flushing]
  | _ => simp [flushing, hs] at h

end DCache

namespace CachedLsu

variable {C : CachedParams} {ops : ℕ → MemOp 32} {m : Ram 32} {l : CachedLsu}

/-! ## Progress -/

/-- A flush belongs to the fence in `reg3` and is started once for it. -/
structure Live (l : CachedLsu) : Prop where
  flush : l.dcache.flushing = true → l.fencePending = true ∧ l.dcache.flushActive = true
  active : l.dcache.flushActive = true → l.dcache.flushing = true
  done : l.dcache.flushDone = true → l.fencePending = true ∧ l.fenceFlushStarted = true
  started : l.fenceFlushStarted = true → l.fencePending = true →
    l.dcache.flushing = true ∨ l.dcache.flushDone = true

theorem stall_of_fence (h : l.Inv C ops m) (hf : l.fencePending = true) :
    l.stall C ops = true := by
  simp [stall, trigger, hf, (h.fence hf).2]

theorem step_fencePending (h : l.Inv C ops m) (hf : l.fencePending = true)
    (hd : l.dcache.flushDone = false) : (l.step C ops).fencePending = true := by
  simp [step, hd, stall_of_fence h hf, hf]

theorem Live.step (hlive : l.Live) (h : l.Inv C ops m) : (l.step C ops).Live := by
  have hdcache : (l.step C ops).dcache = l.dcache.step C.geometry (l.req ops) (l.mDataI C)
    (l.mAck C) (l.fencePending && !l.fenceFlushStarted) := rfl
  have hstarted : (l.step C ops).fenceFlushStarted =
    (l.fencePending && (l.dcache.flushActive || l.fenceFlushStarted)) := rfl
  cases hfl : l.dcache.flushing with
  | false =>
    have hactive : l.dcache.flushActive = false := by
      by_contra ha
      have := hlive.active (Bool.eq_true_of_not_eq_false ha)
      simp [hfl] at this
    rcases DCache.step_of_not_flushing hfl with ⟨hstart, hfl', hact', hdone'⟩ | ⟨hfl', hact', hdone'⟩
    · rw [← hdcache] at hfl' hact' hdone'
      simp only [Bool.and_eq_true, Bool.not_eq_true'] at hstart
      obtain ⟨⟨hf, hst⟩, -⟩ := hstart
      have hd : l.dcache.flushDone = false := by
        by_contra hd
        have := (hlive.done (Bool.eq_true_of_not_eq_false hd)).2
        simp [hst] at this
      exact ⟨fun _ ↦ ⟨step_fencePending h hf hd, hact'⟩, fun _ ↦ hfl',
        fun hd' ↦ by simp [hdone'] at hd', fun _ _ ↦ .inl hfl'⟩
    · rw [← hdcache] at hfl' hact' hdone'
      refine ⟨fun hx ↦ by simp [hfl'] at hx, fun hx ↦ by simp [hact', hactive] at hx,
        fun hx ↦ by simp [hdone'] at hx, fun hst hf' ↦ ?_⟩
      simp only [hstarted, hactive, Bool.false_or, Bool.and_eq_true] at hst
      rcases hlive.started hst.2 hst.1 with hx | hd
      · simp [hfl] at hx
      · simp [CachedLsu.step, hd] at hf'
  | true =>
    obtain ⟨hf, hactive⟩ := hlive.flush hfl
    have hd : l.dcache.flushDone = false := by
      by_contra hd
      have := (h.cache.flushed (Bool.eq_true_of_not_eq_false hd)).1
      simp [DCache.flushing, this] at hfl
    have hf' := step_fencePending h hf hd
    rcases DCache.step_of_flushing hfl with ⟨hfl', hact', hdone'⟩ | ⟨hidle, hact', hdone'⟩
    · rw [← hdcache] at hfl' hact' hdone'
      exact ⟨fun _ ↦ ⟨hf', hact'.trans hactive⟩, fun _ ↦ hfl', fun hx ↦ by simp [hdone'] at hx,
        fun _ _ ↦ .inl hfl'⟩
    · rw [← hdcache] at hidle hact' hdone'
      exact ⟨fun hx ↦ by simp [DCache.flushing, hidle] at hx, fun hx ↦ by simp [hact'] at hx,
        fun _ ↦ ⟨hf', by simp [hstarted, hf, hactive]⟩, fun _ _ ↦ .inr hdone'⟩

section Rank

variable (C ops l)

/-- Where the access stands; smaller is nearer to its end. -/
def phase : ℕ :=
  match l.dcache.state with
  | .idle => if l.fencePending && l.dcache.flushDone then 1 else 6
  | .hitRd => if l.dcache.hitRdResponds (l.req ops) then 1 else 7
  | .wb => if l.dcache.wbReturnToFlush then 4 else 5
  | .fill => 3
  | .flushScan => 4

/-- Words still to move, and for a flush lines still to visit. -/
def todo : ℕ :=
  let words := C.geometry.lineWords - l.dcache.fillWord
  let scan := (C.geometry.numLines - l.dcache.flushScan) * (C.geometry.lineWords + 2)
  match l.dcache.state with
  | .wb => if l.dcache.wbReturnToFlush then scan + words else words
  | .fill => words
  | .flushScan => scan + (C.geometry.lineWords + 1)
  | _ => 0

/-- Cycles until the bus answers. -/
def wait : ℕ :=
  if C.memLatencyD = 0 then if l.ram.memReadPending then 0 else 1
  else if l.dmem.reqActive then if l.dmem.model.done then 0 else l.dmem.model.count + 1
  else C.memLatencyD + 1

def rank : ℕ ×ₗ ℕ ×ₗ ℕ := toLex (l.phase ops, toLex (l.todo C, l.wait C))

end Rank

variable {l' : CachedLsu}

theorem rank_lt_of_phase (h : l'.phase ops < l.phase ops) : l'.rank C ops < l.rank C ops :=
  Prod.Lex.toLex_lt_toLex.2 (.inl h)

theorem rank_lt_of_todo (hp : l'.phase ops = l.phase ops) (h : l'.todo C < l.todo C) :
    l'.rank C ops < l.rank C ops :=
  Prod.Lex.toLex_lt_toLex.2 (.inr ⟨hp, Prod.Lex.toLex_lt_toLex.2 (.inl h)⟩)

theorem rank_lt_of_wait (hp : l'.phase ops = l.phase ops) (ht : l'.todo C = l.todo C)
    (h : l'.wait C < l.wait C) : l'.rank C ops < l.rank C ops :=
  Prod.Lex.toLex_lt_toLex.2 (.inr ⟨hp, Prod.Lex.toLex_lt_toLex.2 (.inr ⟨ht, h⟩)⟩)

/-- The bus answers in the end. -/
theorem wait_step (h : l.Inv C ops m) (hcyc : l.dcache.mCyc = true) (hack : l.mAck C = false) :
    (l.step C ops).wait C < l.wait C := by
  have hbus := h.bus
  by_cases hlat : C.memLatencyD = 0
  · rw [mAck, if_pos hlat, RamPort.ack, Bool.or_eq_false_iff, memWrite_eq] at hack
    obtain ⟨hwb, hpend⟩ := hack
    have hfill : l.dcache.state = .fill :=
      (mCyc_eq_true.1 hcyc).resolve_left fun hs ↦ by simp [hs] at hwb
    have hpend' : (l.step C ops).ram.memReadPending = true := by
      change RamPort.memReadReq (l.busReq C) = true
      rw [memReadReq_eq, hfill]
      rfl
    simp [wait, hlat, hpend, hpend']
  · rw [mAck, if_neg hlat] at hack
    rw [BusInv, if_neg hlat] at hbus
    have hdmem : (l.step C ops).dmem = l.dmemNext C := rfl
    rcases hbus with ⟨hact, hbusy, hdone⟩ | hwait
    · have hreq : (l.busReq C).cyc = true ∧ (l.busReq C).stb = true := by
        rw [busReq_of_cyc hcyc]
        exact ⟨hcyc, hcyc⟩
      have hnew : l.newRequest C = true := by simp [newRequest, hreq, hact]
      simp [wait, hlat, hact, hdmem, dmemNext, hnew, LatencyModel.step, hbusy]
      omega
    · have hnew : l.newRequest C = false := by
        simp [newRequest, hwait.active, hwait.addr, hwait.we]
      have hbusy : l.dmem.model.busy = true := by rw [hwait.busy, hack]; rfl
      simp only [wait, hlat, hdmem, dmemNext, hnew, hack, LatencyModel.step, hbusy, hwait.active]
      by_cases hcount : l.dmem.model.count = 0
      · simp [hcount]
      · simp [hcount]
        omega

theorem rank_step_of_not_ack (h : l.Inv C ops m) (hcyc : l.dcache.mCyc = true)
    (hack : l.mAck C = false) : (l.step C ops).rank C ops < l.rank C ops := by
  have hcache := dcache_of_not_ack ops hcyc hack
  refine rank_lt_of_wait ?_ ?_ (wait_step h hcyc hack)
  · rcases mCyc_eq_true.1 hcyc with hs | hs <;> simp [phase, hcache, hs]
  · rcases mCyc_eq_true.1 hcyc with hs | hs <;> simp [todo, hcache, hs]

/-- The scan comes to its last line. -/
theorem advanceScan_rank (hs : CachedStream C ops) (h : l.Inv C ops m) (hlive : l.Live)
    (hfl : l.dcache.flushing = true) {c : DCache 32}
    (hnext : (l.step C ops).dcache = c.advanceScan C.geometry)
    (hscan : c.flushScan = l.dcache.flushScan) :
    (l.step C ops).rank C ops < l.rank C ops := by
  obtain ⟨hf, -⟩ := hlive.flush hfl
  have hd : l.dcache.flushDone = false := by
    by_contra hd
    have := (h.cache.flushed (Bool.eq_true_of_not_eq_false hd)).1
    simp [DCache.flushing, this] at hfl
  have hf' := step_fencePending h hf hd
  have hphase : l.phase ops = 4 := by
    simp only [DCache.flushing, Bool.or_eq_true, Bool.and_eq_true, beq_iff_eq] at hfl
    rcases hfl with hst | ⟨hst, hret⟩
    · simp [phase, hst]
    · simp [phase, hst, hret]
  by_cases hlast : c.flushScan + 1 = C.geometry.numLines
  · refine rank_lt_of_phase ?_
    rw [hphase]
    simp [phase, hnext, DCache.advanceScan, hlast, hf']
  · have hlt : l.dcache.flushScan < C.geometry.numSets * C.geometry.ways := by
      have hphase := h.cache.phase
      simp only [DCache.flushing, Bool.or_eq_true, Bool.and_eq_true, beq_iff_eq] at hfl
      rcases hfl with hst | ⟨hst, hret⟩
      · simp only [DCache.Phase, hst] at hphase
        exact hphase.1
      · simp only [DCache.Phase, hst, hret, if_true] at hphase
        exact hphase.2.2.1
    have hmod : (c.flushScan + 1) % 2 ^ C.geometry.lineIdxBits = l.dcache.flushScan + 1 := by
      rw [hs.geometry.two_pow_lineIdxBits, hscan, Nat.mod_eq_of_lt]
      have := hs.lines
      omega
    refine rank_lt_of_todo ?_ ?_
    · rw [hphase]
      simp [phase, hnext, DCache.advanceScan, hlast]
    · have htodo : (l.step C ops).todo C = (C.geometry.numLines - (l.dcache.flushScan + 1)) *
          (C.geometry.lineWords + 2) + (C.geometry.lineWords + 1) := by
        simp [todo, hnext, DCache.advanceScan, hlast, hmod]
      have hsplit : (C.geometry.numLines - l.dcache.flushScan) * (C.geometry.lineWords + 2) =
          (C.geometry.numLines - (l.dcache.flushScan + 1)) * (C.geometry.lineWords + 2) +
            (C.geometry.lineWords + 2) := by
        have := hs.lines
        rw [← Nat.succ_mul]
        congr 1
        omega
      rw [htodo]
      simp only [DCache.flushing, Bool.or_eq_true, Bool.and_eq_true, beq_iff_eq] at hfl
      rcases hfl with hst | ⟨hst, hret⟩
      · simp only [todo, hst]
        omega
      · simp only [todo, hst, hret, if_true]
        omega

/-- An access that is answered leaves in the next cycle. -/
theorem step_stall_of_ready (hstall : l.stall C ops = true) (hready : l.memAccessReady C ops = true) :
    (l.step C ops).stall C ops = false := by
  have hdone : (l.step C ops).memStallDone = true := by
    change (l.stall C ops && l.memAccessReady C ops) = true
    rw [hstall, hready]
    rfl
  rw [stall, hdone, Bool.not_true, Bool.and_false]

theorem rank_step_idle (hlive : l.Live) (hst : l.dcache.state = .idle)
    (hstall : l.stall C ops = true) :
    (l.step C ops).stall C ops = false ∨ (l.step C ops).rank C ops < l.rank C ops := by
  have hdcache : (l.step C ops).dcache = l.dcache.stepIdle C.geometry (l.req ops)
      (l.fencePending && !l.fenceFlushStarted) := by
    change l.dcache.step _ _ _ _ _ = _
    rw [DCache.step, hst]
  cases hf : l.fencePending with
  | true =>
    cases hd : l.dcache.flushDone with
    | true => exact .inl (step_stall_of_ready hstall (by simp [memAccessReady, hf, hd]))
    | false =>
      -- the flush starts
      right
      have hfl : l.dcache.flushing = false := by simp [DCache.flushing, hst]
      have hactive : l.dcache.flushActive = false := by
        by_contra ha
        have := hlive.active (Bool.eq_true_of_not_eq_false ha)
        simp [hfl] at this
      have hstarted : l.fenceFlushStarted = false := by
        by_contra hs
        have := hlive.started (Bool.eq_true_of_not_eq_false hs) hf
        simp [hfl, hd] at this
      refine rank_lt_of_phase ?_
      have hphase : l.phase ops = 6 := by simp [phase, hst, hd]
      rw [hphase]
      simp [phase, hdcache, DCache.stepIdle, hf, hactive, hstarted]
  | false =>
    right
    have hphase : l.phase ops = 6 := by simp [phase, hst, hf]
    have hready : l.respReady C ops = (l.dcache.hit C.geometry (l.req ops) && (l.req ops).write) := by
      have hhitRd : (DCacheState.idle == DCacheState.hitRd) = false := rfl
      have hfill : (DCacheState.idle == DCacheState.fill) = false := rfl
      simp [respReady, DCache.respReady, DCache.hitRdResponds, DCache.fillResponds, hst, hhitRd, hfill]
    have hactive : ((l.req ops).read || (l.req ops).write) = true := by
      have htrigger : l.trigger C ops = true := (Bool.and_eq_true_iff.1 hstall).1
      cases hop : l.op ops <;> simp_all [trigger, req, MemOp.dcacheReq, MemOp.isLoad, MemOp.isStore]
    refine rank_lt_of_phase ?_
    rw [hphase, phase, hdcache, DCache.stepIdle, hf, Bool.false_and, if_neg (by simp), if_pos hactive]
    cases hhit : l.dcache.hit C.geometry (l.req ops) with
    | true =>
      have hwrite : (l.req ops).write = false := by
        by_contra hw
        have hw' := Bool.eq_true_of_not_eq_false hw
        rw [hhit, hw'] at hready
        have hstore : (l.op ops).isLoad = false := by
          cases hop : l.op ops <;> simp_all [req, MemOp.dcacheReq, MemOp.isLoad]
        simp [stall, trigger, hready, hf, hstore] at hstall
      have hread : (l.req ops).read = true := by simpa [hwrite] using hactive
      have hreq : (l.step C ops).req ops = l.req ops := by rw [req, step_req_of_stall hstall, req]
      simp [hwrite, DCache.hitRdResponds, hreq, hread]
    | false =>
      simp only [Bool.false_eq_true, if_false, DCache.beginMiss]
      split_ifs <;> simp

theorem rank_step_hitRd (h : l.Inv C ops m) (hst : l.dcache.state = .hitRd)
    (hstall : l.stall C ops = true) :
    (l.step C ops).stall C ops = false ∨ (l.step C ops).rank C ops < l.rank C ops := by
  have hdcache : (l.step C ops).dcache = { l.dcache with flushDone := false, state := .idle } := by
    change l.dcache.step _ _ _ _ _ = _
    rw [DCache.step, hst]
  cases hresp : l.dcache.hitRdResponds (l.req ops) with
  | true =>
    left
    have hf : l.fencePending = false := by
      by_contra hf
      rw [req, (h.fence (Bool.eq_true_of_not_eq_false hf)).1] at hresp
      simp [DCache.hitRdResponds, MemOp.dcacheReq] at hresp
    exact step_stall_of_ready hstall (by simp [memAccessReady, hf, respReady, DCache.respReady, hresp])
  | false =>
    right
    refine rank_lt_of_phase ?_
    simp only [phase, hdcache, hst, hresp]
    split_ifs <;> simp_all

theorem rank_step_wb (hs : CachedStream C ops) (h : l.Inv C ops m) (hlive : l.Live)
    (hst : l.dcache.state = .wb) : (l.step C ops).rank C ops < l.rank C ops := by
  have hcyc : l.dcache.mCyc = true := mCyc_eq_true.2 (.inl hst)
  have hdcache : (l.step C ops).dcache = l.dcache.stepWb C.geometry (l.mAck C) := by
    change l.dcache.step _ _ _ _ _ = _
    rw [DCache.step, hst]
  cases hack : l.mAck C with
  | false => exact rank_step_of_not_ack h hcyc hack
  | true =>
    rw [hack, DCache.stepWb, if_pos rfl] at hdcache
    cases hlast : l.dcache.isLastWord C.geometry with
    | false =>
      have hlt := (h.cache.writingBack hst).lt
      rw [hlast, if_neg Bool.false_ne_true] at hdcache
      refine rank_lt_of_todo ?_ ?_
      · simp [phase, hdcache, hst]
      · simp only [todo, hdcache, hst]
        split_ifs <;> omega
    | true =>
      rw [hlast, if_pos rfl] at hdcache
      cases hret : l.dcache.wbReturnToFlush with
      | true =>
        rw [hret, if_pos rfl] at hdcache
        exact advanceScan_rank hs h hlive (by simp [DCache.flushing, hst, hret]) hdcache rfl
      | false =>
        rw [hret, if_neg Bool.false_ne_true] at hdcache
        refine rank_lt_of_phase ?_
        simp [phase, hdcache, hst, hret]

theorem rank_step_fill (h : l.Inv C ops m) (hst : l.dcache.state = .fill)
    (hstall : l.stall C ops = true) :
    (l.step C ops).stall C ops = false ∨ (l.step C ops).rank C ops < l.rank C ops := by
  have hcyc : l.dcache.mCyc = true := mCyc_eq_true.2 (.inr hst)
  obtain ⟨hmiss, hf⟩ := h.cache.missed hst
  have hdcache : (l.step C ops).dcache = l.dcache.stepFill C.geometry (l.mDataI C) (l.mAck C) := by
    change l.dcache.step _ _ _ _ _ = _
    rw [DCache.step, hst]
  cases hack : l.mAck C with
  | false => exact .inr (rank_step_of_not_ack h hcyc hack)
  | true =>
    cases hlast : l.dcache.isLastWord C.geometry with
    | false =>
      right
      rw [hack, DCache.stepFill, if_pos rfl, hlast, if_neg Bool.false_ne_true] at hdcache
      have hlt := hf.lt
      refine rank_lt_of_todo ?_ ?_
      · simp [phase, hdcache, hst]
      · simp only [todo, hdcache, hst]
        omega
    | true =>
      left
      have hfence : l.fencePending = false := by
        by_contra hf
        have hactive := hmiss.active
        rw [req, (h.fence (Bool.eq_true_of_not_eq_false hf)).1] at hactive
        simp [MemOp.dcacheReq, DCacheReq.active] at hactive
      refine step_stall_of_ready hstall ?_
      rw [memAccessReady, hfence, if_neg Bool.false_ne_true, respReady, h.cache.fill_respReady hst,
        hack, hlast]
      rfl

theorem rank_step_flushScan (hs : CachedStream C ops) (h : l.Inv C ops m) (hlive : l.Live)
    (hst : l.dcache.state = .flushScan) : (l.step C ops).rank C ops < l.rank C ops := by
  by_cases hdirty : (l.dcache.valid l.dcache.flushScan && l.dcache.dirty l.dcache.flushScan) = true
  · have hdcache : (l.step C ops).dcache =
        { l.dcache with
          flushDone := false, wbLine := l.dcache.flushScan
          wbBase := l.dcache.lineBaseOf C.geometry l.dcache.flushScan
          wbReturnToFlush := true, fillWord := 0, state := .wb } := by
      change l.dcache.step _ _ _ _ _ = _
      simp only [DCache.step, hst, if_pos hdirty]
    refine rank_lt_of_todo ?_ ?_
    · simp [phase, hdcache, hst]
    · simp only [todo, hdcache, hst, if_true]
      omega
  · refine advanceScan_rank hs h hlive (by simp [DCache.flushing, hst]) (c := l.dcache) ?_ rfl
    change l.dcache.step _ _ _ _ _ = _
    simp only [DCache.step, hst, if_neg hdirty]

/-- An access that stalls comes nearer to its end. -/
theorem rank_step (hs : CachedStream C ops) (h : l.Inv C ops m) (hlive : l.Live)
    (hstall : l.stall C ops = true) :
    (l.step C ops).stall C ops = false ∨ (l.step C ops).rank C ops < l.rank C ops := by
  cases hst : l.dcache.state with
  | idle => exact rank_step_idle hlive hst hstall
  | hitRd => exact rank_step_hitRd h hst hstall
  | wb => exact .inr (rank_step_wb hs h hlive hst)
  | fill => exact rank_step_fill h hst hstall
  | flushScan => exact .inr (rank_step_flushScan hs h hlive hst)

/-! ## Whole runs -/

section Run

variable (C : CachedParams) (ops : ℕ → MemOp 32) (m : Ram 32) (c : DCache 32) (d : DmemLatency 32)
  (v : BitVec 32)

/-- The RAM after reset, with these contents. -/
def ramOf (m : Ram 32) : RamPort 32 :=
  { dataMemory := m, rawWord := 0, funct3 := 0, memRead := false, memReadPending := false }

/-- Every access completes, and what a load brings to WB is what it brings without the cache. -/
structure Invisible : Prop where
  leaves : ∀ j, ∃ n, Leaves C ops (start ops m c d v) n j
  load : ∀ n n' j addr f3, ops j = .load addr f3 → Leaves C ops (start ops m c d v) n j →
    Lsu.Leaves C.memSizeBytes ops (Lsu.start (ramOf m)) n' j →
    (run C ops (start ops m c d v) n).captured =
      (Lsu.run C.memSizeBytes ops (Lsu.start (ramOf m)) n').ram.readData

variable {C ops m c d v} (hs : CachedStream C ops) (hsame : SameExtension ops)
  (hharm : ∀ n, (run C ops (start ops m c d v) n).FillHarmless C ops)

include hs hsame hharm

theorem live_run (n : ℕ) : (run C ops (start ops m c d v) n).Live := by
  induction n with
  | zero =>
    exact ⟨fun hf ↦ absurd hf (by simp [run, start, DCache.reset, DCache.flushing]),
      fun hf ↦ absurd hf (by simp [run, start, DCache.reset]),
      fun hf ↦ absurd hf (by simp [run, start, DCache.reset]),
      fun hf ↦ absurd hf (by simp [run, start])⟩
  | succ n ih => exact ih.step (inv_run hs hsame hharm n)

/-- The access in `reg3` leaves. -/
theorem exists_leaves (n : ℕ) : ∃ n', (run C ops (start ops m c d v) n').idx =
      (run C ops (start ops m c d v) n).idx ∧
    (run C ops (start ops m c d v) n').stall C ops = false := by
  have hrank : ∀ n, ∃ n', n ≤ n' ∧ (run C ops (start ops m c d v) n').stall C ops = false := by
    intro n
    by_contra hnone
    have hall : ∀ n', n ≤ n' → (run C ops (start ops m c d v) n').stall C ops = true := fun n' hn' ↦
      Bool.eq_true_of_not_eq_false fun hst ↦ hnone ⟨n', hn', hst⟩
    obtain ⟨n', hn', hfalse⟩ := exists_of_rank (p := fun _ ↦ False)
      (fun n ↦ (run C ops (start ops m c d v) n).rank C ops) n fun n' hn' _ ↦
        (rank_step hs (inv_run hs hsame hharm n') (live_run hs hsame hharm n')
          (hall n' hn')).resolve_left fun hst ↦ by
            have := hall (n' + 1) (by omega)
            rw [run, hst] at this
            exact absurd this (by simp)
    exact hfalse
  obtain ⟨n', -, hst, hidx⟩ := exists_first
    (q := fun k ↦ (run C ops (start ops m c d v) k).idx = (run C ops (start ops m c d v) n).idx)
    hrank (fun k hk hst ↦ by
      rw [run, step]
      simpa [Bool.eq_true_of_not_eq_false hst] using hk) rfl
  exact ⟨n', hidx, hst⟩

/-- Where aligned loads and stores go through a cache of whole lines, no load is followed by one of
the same address and another width, and every fill is harmless, the cache is invisible. -/
theorem invisible : Invisible C ops m c d v where
  leaves j := by
    induction j with
    | zero =>
      obtain ⟨n, hn, hst⟩ := exists_leaves hs hsame hharm 0
      exact ⟨n, hn, hst⟩
    | succ j ih =>
      obtain ⟨n, hn, hst⟩ := ih
      have hnext : (run C ops (start ops m c d v) (n + 1)).idx = j + 1 := by
        rw [run, step]
        simp [hst, hn]
      obtain ⟨n', hn', hst'⟩ := exists_leaves hs hsame hharm (n + 1)
      exact ⟨n', hn'.trans hnext, hst'⟩
  load n n' j addr f3 hop hleaves hleaves' := by
    rw [load_value (inv_run hs hsame hharm n) hleaves hop]
    have hinv : (Lsu.run C.memSizeBytes ops (Lsu.start (ramOf m)) n').Inv C.memSizeBytes ops
        (ramOf m) := Lsu.inv_run (.inl rfl) hs.size hs.inRange n'
    obtain ⟨hidx, hstall⟩ := hleaves'
    have hop' : (Lsu.run C.memSizeBytes ops (Lsu.start (ramOf m)) n').op ops = .load addr f3 := by
      rw [Lsu.op, hidx]
      exact hop
    have hdone : (Lsu.run C.memSizeBytes ops (Lsu.start (ramOf m)) n').memStallDone = true := by
      rw [Lsu.stall_load hop'] at hstall
      simpa using hstall
    obtain ⟨addr', f3', hop'', hread⟩ := hinv.done hdone
    rw [hop'] at hop''
    cases hop''
    have hin := hs.inRange j
    have hal := hs.aligned j
    rw [hop] at hin hal
    obtain ⟨hf, hrange⟩ := hin
    obtain ⟨-, hroom⟩ := aligned_room hf hal
    have hpos : 0 < accessBytes f3 := Nat.two_pow_pos _
    have hwhole : C.memSizeBytes % 4 = 0 := by
      have hdvd := hs.whole
      rw [hs.geometry.lineBytes_eq] at hdvd
      exact Nat.mod_eq_zero_of_dvd (dvd_of_mul_right_dvd hdvd)
    rw [hread, golden, if_pos (by rw [wordIdx]; omega)]
    refine extendRead_wordOf _ hf hal fun k hk ↦ ?_
    have h8 : accessBytes f3 ≤ 4 := by omega
    rw [byte_of_rawWord (.inl rfl) _ _ (by omega)]
    have hbyte := hinv.bytes (addr.toNat + k) (by omega)
    rw [hidx, BitVec.ofNat_add, BitVec.ofNat_toNat, BitVec.setWidth_eq] at hbyte
    exact hbyte

end Run

/-! ### A store and a load -/

instance : Decidable (l.FillHarmless C ops) :=
  inferInstanceAs (Decidable (l.dcache.state = .fill →
    (C.memLatencyD = 0 → ∀ i < C.geometry.lineWords,
      l.mem C (C.geometry.blockOf (l.req ops).addr * C.geometry.lineWords + i) =
        l.mem C (C.geometry.blockOf (l.req ops).addr * C.geometry.lineWords)) ∧
    ((l.op ops).isLoad = true → l.mem C (wordIdx (l.req ops).addr) =
      l.mem C (C.geometry.blockOf (l.req ops).addr * C.geometry.lineWords +
        (C.geometry.lineWords - 1)))))

/-- The cache stays idle once nothing is asked for any more. -/
theorem idle_run (l₀ : CachedLsu) {J N : ℕ} (hnone : ∀ j, J ≤ j → ops j = .none)
    (hidx : J ≤ (run C ops l₀ N).idx) (hst : (run C ops l₀ N).dcache.state = .idle)
    (hf : (run C ops l₀ N).fencePending = false) {n : ℕ} (hn : N ≤ n) :
    J ≤ (run C ops l₀ n).idx ∧ (run C ops l₀ n).dcache.state = .idle ∧
      (run C ops l₀ n).fencePending = false := by
  induction n, hn using Nat.le_induction with
  | base => exact ⟨hidx, hst, hf⟩
  | succ n hn ih =>
    obtain ⟨hidx', hst', hf'⟩ := ih
    have hop : (run C ops l₀ n).op ops = .none := hnone _ hidx'
    have hnext : ops ((run C ops l₀ n).idx + 1) = .none := hnone _ (by omega)
    refine ⟨?_, ?_, ?_⟩
    · simp only [run, step]
      split_ifs <;> omega
    · simp [run, step, DCache.step, hst', DCache.stepIdle, req, hop, hf', MemOp.dcacheReq]
    · simp [run, step, hnext, hf']

/-- `sw` to address 8 and `lw` from it. -/
def storeLoadOps : ℕ → MemOp 32
  | 0 => .store 8#32 5#32 0b010#3
  | 1 => .load 8#32 0b010#3
  | _ => .none

/-- A cache of four lines of two words, over 64 bytes of RAM. -/
def smallCache : CachedParams :=
  { geometry := { ways := 2, sizeBytes := 32, lineBytes := 8 }, memSizeBytes := 64 }

theorem invisible_storeLoad :
    Invisible smallCache storeLoadOps (fun _ ↦ 0) default default 0 := by
  have hnone : ∀ j, 2 ≤ j → storeLoadOps j = .none := by
    intro j hj
    obtain ⟨j, rfl⟩ := Nat.exists_eq_add_of_le' hj
    rfl
  refine invisible ⟨⟨⟨1, rfl⟩, ⟨1, rfl⟩, 3, by decide, by decide, rfl⟩, rfl, by decide, by decide,
    fun j ↦ ?_, fun j ↦ ?_⟩ (fun j addr f3 f3' hj hj' ↦ ?_) fun n ↦ ?_
  · match j with
    | 0 => exact ⟨rfl, by decide⟩
    | 1 => exact ⟨rfl, by decide⟩
    | j + 2 => trivial
  · match j with
    | 0 => rfl
    | 1 => rfl
    | j + 2 => trivial
  · match j with
    | 0 => cases hj
    | 1 => cases hj'
    | j + 2 => cases hj
  · have hstart : ∀ n < 8, (run smallCache storeLoadOps
        (start storeLoadOps (fun _ ↦ 0) default default 0) n).FillHarmless smallCache
          storeLoadOps := by
      decide +kernel
    rcases Nat.lt_or_ge n 8 with hn | hn
    · exact hstart n hn
    · intro hfill
      have hidle := (idle_run (C := smallCache) (N := 8)
        (start storeLoadOps (fun _ ↦ 0) default default 0) hnone (by decide +kernel)
        (by decide +kernel) (by decide +kernel) hn).2.1
      rw [hidle] at hfill
      cases hfill

/-- `lw` from address 0 of a RAM that starts with the words 1, 2, 3, 4. -/
theorem invisible_fails :
    ¬ ∀ (C : CachedParams) (ops : ℕ → MemOp 32) (m : Ram 32) (c : DCache 32) (d : DmemLatency 32)
      (v : BitVec 32), CachedStream C ops → Invisible C ops m c d v := by
  intro hall
  have hinv := hall { memLatencyD := 1 } (fun j ↦ if j = 0 then .load 0#32 0b010#3 else .none)
    (fun a ↦ instsOfWords [1, 2, 3, 4] a.toNat) default default 0
    ⟨⟨⟨2, rfl⟩, ⟨6, by decide⟩, 4, by decide, by decide, rfl⟩, by decide, by decide, by decide,
      fun j ↦ by dsimp only; split_ifs <;> trivial, fun j ↦ by split_ifs <;> trivial⟩
  have hload := hinv.load 13 2 0 0#32 0b010#3 rfl ⟨by decide +kernel, by decide +kernel⟩
    ⟨by decide +kernel, by decide +kernel⟩
  exact absurd hload (by decide +kernel)

end CachedLsu

end RvPipeline
