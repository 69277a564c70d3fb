import RvPipeline.Core.Order
import RvPipeline.Mem.Mmio
import RvPipeline.Perf.Instret
import RvPipeline.Lib.Trace

/-!
# Performance events

The event inputs of `CSR.v` against what they are meant to count: branches executed, accesses to
the data cache, traps committed, stalled cycles.
-/

namespace RvPipeline

/-! ## The data cache between requests -/

namespace DCache

variable {w : ℕ} {g : CacheGeometry} {c : DCache w} {q : DCacheReq w} {mDataI : BitVec w}
  {mAck flushAll : Bool} {a : BitVec w}

/-- Some way holds the line of `a`. -/
def holds (g : CacheGeometry) (c : DCache w) (a : BitVec w) : Bool :=
  (List.range g.ways).any fun n ↦
    c.valid (g.lineIdx a n) && c.tagArr (g.lineIdx a n) == g.tagOf a

theorem hit_eq_holds (g : CacheGeometry) (c : DCache w) (q : DCacheReq w) :
    c.hit g q = c.holds g q.addr := rfl

/-- A line is being replaced for a load or store. -/
def refilling (c : DCache w) : Bool :=
  c.state == .fill || (c.state == .wb && !c.wbReturnToFlush)

/-- A flush is under way. -/
def flushBusy (c : DCache w) : Bool :=
  c.state == .flushScan || (c.state == .wb && c.wbReturnToFlush)

/-- The miss registers name the line of `a`. -/
structure AimedAt (g : CacheGeometry) (c : DCache w) (a : BitVec w) : Prop where
  addr : c.missOrigAddr = a
  set : c.missSet = g.setIdx a
  tag : c.missTag = g.tagOf a
  way : c.missWay < g.ways

/-- The last beat of a fill. -/
def fillEnds (g : CacheGeometry) (c : DCache w) (mAck : Bool) : Bool :=
  c.state == .fill && mAck && c.isLastWord g

theorem advanceScan_state (g : CacheGeometry) (c : DCache w) :
    ((c.advanceScan g).state = .idle ∧ (c.advanceScan g).flushDone = true) ∨
      ((c.advanceScan g).state = .flushScan ∧ (c.advanceScan g).flushDone = false ∧
        (c.advanceScan g).flushActive = c.flushActive) := by
  unfold advanceScan
  split_ifs
  · exact .inl ⟨rfl, rfl⟩
  · exact .inr ⟨rfl, rfl, rfl⟩

theorem advanceScan_refilling (g : CacheGeometry) (c : DCache w) :
    (c.advanceScan g).refilling = false := by
  rcases advanceScan_state g c with ⟨hst, -⟩ | ⟨hst, -, -⟩ <;> simp [refilling, hst]

theorem advanceScan_flushActive (h : (c.advanceScan g).flushBusy = true) :
    (c.advanceScan g).flushActive = c.flushActive := by
  rcases advanceScan_state g c with ⟨hst, -⟩ | ⟨-, -, hact⟩
  · simp [flushBusy, hst] at h
  · exact hact

theorem advanceScan_idle (h : (c.advanceScan g).flushDone = true) :
    (c.advanceScan g).state = .idle := by
  rcases advanceScan_state g c with ⟨hst, -⟩ | ⟨-, hdone, -⟩
  · exact hst
  · exact absurd (hdone.symm.trans h) Bool.false_ne_true

theorem advanceScan_ne_hitRd (g : CacheGeometry) (c : DCache w) :
    (c.advanceScan g).state ≠ .hitRd := by
  rcases advanceScan_state g c with ⟨hst, -⟩ | ⟨hst, -, -⟩ <;> simp [hst]

theorem advanceScan_victim : (c.advanceScan g).victim = c.victim := by
  unfold advanceScan
  split_ifs <;> rfl

theorem step_victim (hg : 0 < g.ways) (h : ∀ set, c.victim set < g.ways)
    (hway : c.refilling = true → c.missWay < g.ways) (set : ℕ) :
    (c.step g q mDataI mAck flushAll).victim set < g.ways := by
  unfold step
  cases hs : c.state with
  | idle =>
    simp only [stepIdle, beginMiss]
    split_ifs <;> exact h set
  | hitRd => exact h set
  | wb =>
    simp only [stepWb]
    split_ifs
    · rw [advanceScan_victim]
      exact h set
    all_goals exact h set
  | fill =>
    have hlt := nextWay_lt hg (hway (by simp [refilling, hs]))
    simp only [stepFill]
    split_ifs
    · dsimp only [setCell]
      split_ifs
      · exact hlt
      · exact h set
    all_goals exact h set
  | flushScan =>
    dsimp only
    split_ifs
    · exact h set
    · rw [advanceScan_victim]
      exact h set

/-- A refill goes on, or begins with a request that misses. -/
theorem step_refilling (h : (c.step g q mDataI mAck flushAll).refilling = true) :
    (c.refilling = true ∧ c.fillEnds g mAck = false ∧
      ∀ a, c.AimedAt g a → (c.step g q mDataI mAck flushAll).AimedAt g a) ∨
    (c.state = .idle ∧ (q.read || q.write) = true ∧ c.hit g q = false ∧
      ((∀ set, c.victim set < g.ways) →
        (c.step g q mDataI mAck flushAll).AimedAt g q.addr)) := by
  unfold step at h ⊢
  cases hs : c.state with
  | idle =>
    right
    simp only [hs, stepIdle, beginMiss] at h ⊢
    split_ifs at h ⊢ with h1 h2 h3 h4 h5
    all_goals try simp [refilling] at h
    all_goals exact ⟨trivial, h2, by simpa using h3, fun hv ↦ ⟨rfl, rfl, rfl, hv _⟩⟩
  | hitRd => simp [hs, refilling] at h
  | wb =>
    left
    simp only [hs, stepWb] at h ⊢
    split_ifs at h ⊢ with h1 h2 h3
    · rw [advanceScan_refilling] at h
      exact Bool.noConfusion h
    · exact ⟨by simpa [refilling, hs] using h3, by simp [fillEnds, hs],
        fun _ ha ↦ ⟨ha.addr, ha.set, ha.tag, ha.way⟩⟩
    all_goals
      exact ⟨by simpa [refilling, hs] using h, by simp [fillEnds, hs],
        fun _ ha ↦ ⟨ha.addr, ha.set, ha.tag, ha.way⟩⟩
  | fill =>
    left
    simp only [hs, stepFill] at h ⊢
    split_ifs at h ⊢ with h1 h2
    · simp [refilling] at h
    all_goals
      exact ⟨by simp [refilling, hs], by simp [fillEnds, *],
        fun _ ha ↦ ⟨ha.addr, ha.set, ha.tag, ha.way⟩⟩
  | flushScan =>
    simp only [hs] at h
    split_ifs at h with h1
    · simp [refilling] at h
    · rw [advanceScan_refilling] at h
      exact Bool.noConfusion h

/-- A flush goes on, or begins on request. -/
theorem step_flushBusy (h : (c.step g q mDataI mAck flushAll).flushBusy = true) :
    (c.flushBusy = true ∧ (c.step g q mDataI mAck flushAll).flushActive = c.flushActive) ∨
      (c.state = .idle ∧ flushAll = true ∧
        (c.step g q mDataI mAck flushAll).flushActive = true) := by
  unfold step at h ⊢
  cases hs : c.state with
  | idle =>
    right
    simp only [hs, stepIdle, beginMiss] at h ⊢
    split_ifs at h ⊢ with h1
    · simp only [Bool.and_eq_true] at h1
      exact ⟨trivial, h1.1, rfl⟩
    all_goals simp [flushBusy] at h
  | hitRd => simp [hs, flushBusy] at h
  | wb =>
    left
    simp only [hs, stepWb] at h ⊢
    split_ifs at h ⊢ with h1 h2 h3
    · exact ⟨by simp [flushBusy, hs, h3], advanceScan_flushActive h⟩
    all_goals
      try simp [flushBusy] at h
      try exact ⟨by simpa [flushBusy, hs] using h, rfl⟩
  | fill =>
    simp only [hs, stepFill] at h
    split_ifs at h <;> simp [flushBusy] at h
  | flushScan =>
    left
    simp only [hs] at h ⊢
    refine ⟨by simp [flushBusy, hs], ?_⟩
    split_ifs at h ⊢ with h1
    · rfl
    · exact advanceScan_flushActive h

/-- `flush_done` comes from the end of a flush, in `S_IDLE`. -/
theorem step_flushDone (h : (c.step g q mDataI mAck flushAll).flushDone = true) :
    c.flushBusy = true ∧ (c.step g q mDataI mAck flushAll).state = .idle := by
  unfold step at h ⊢
  cases hs : c.state with
  | idle =>
    simp only [hs, stepIdle, beginMiss] at h
    split_ifs at h
  | hitRd => simp [hs] at h
  | wb =>
    simp only [hs, stepWb] at h ⊢
    split_ifs at h ⊢ with h1 h2 h3
    · exact ⟨by simp [flushBusy, hs, h3], advanceScan_idle h⟩
  | fill =>
    simp only [hs, stepFill] at h
    split_ifs at h
  | flushScan =>
    simp only [hs] at h ⊢
    split_ifs at h ⊢ with h1
    exact ⟨by simp [flushBusy, hs], advanceScan_idle h⟩

/-- `S_HIT_RD` is entered for a read that hits. -/
theorem step_state_hitRd (h : (c.step g q mDataI mAck flushAll).state = .hitRd) :
    (c.step g q mDataI mAck flushAll).holds g (c.step g q mDataI mAck flushAll).servedAddr =
      true := by
  unfold step at h ⊢
  cases hs : c.state with
  | idle =>
    simp only [hs, stepIdle, beginMiss] at h ⊢
    split_ifs at h ⊢ with h1 h2 h3 h4
    all_goals try simp at h
    exact h3
  | hitRd => simp [hs] at h
  | wb =>
    simp only [hs, stepWb] at h
    split_ifs at h
    · exact absurd h (advanceScan_ne_hitRd g _)
  | fill =>
    simp only [hs, stepFill] at h
    split_ifs at h
  | flushScan =>
    simp only [hs] at h
    split_ifs at h
    exact absurd h (advanceScan_ne_hitRd g c)

theorem step_of_hitRd (hs : c.state = .hitRd) :
    (c.step g q mDataI mAck flushAll).state = .idle ∧
      ∀ a, (c.step g q mDataI mAck flushAll).holds g a = c.holds g a := by
  unfold step
  rw [hs]
  exact ⟨rfl, fun _ ↦ rfl⟩

theorem step_of_refilling (h : c.refilling = true) (hend : c.fillEnds g mAck = false) :
    (c.step g q mDataI mAck flushAll).refilling = true := by
  unfold step
  cases hs : c.state with
  | wb =>
    have hret : c.wbReturnToFlush = false := by simpa [refilling, hs] using h
    simp only [stepWb, hret, Bool.false_eq_true, if_false]
    split_ifs <;> simp [refilling, hs]
  | fill =>
    simp only [fillEnds, hs, beq_self_eq_true, Bool.true_and] at hend
    simp only [stepFill]
    split_ifs with h1 h2
    · simp [h1, h2] at hend
    all_goals simp [refilling, hs]
  | _ => simp [refilling, hs] at h

/-- With no flush asked for, `S_IDLE` starts a refill exactly for a request that misses. -/
theorem step_of_idle (hs : c.state = .idle) :
    (c.step g q mDataI mAck false).refilling = ((q.read || q.write) && !c.hit g q) := by
  unfold step
  simp only [hs, stepIdle, Bool.false_and, Bool.false_eq_true, if_false]
  split_ifs with h1 h2 h3
  · simp [refilling, h2]
  · simp [refilling, h2]
  · simp only [beginMiss]
    split_ifs <;> simp [refilling, h1, h2]
  · simp [refilling, h1]

/-- The line is there once its fill has ended. -/
theorem step_of_fillEnds (h : c.fillEnds g mAck = true) (ha : c.AimedAt g a) :
    (c.step g q mDataI mAck flushAll).state = .idle ∧
      (c.step g q mDataI mAck flushAll).holds g a = true := by
  simp only [fillEnds, Bool.and_eq_true, beq_iff_eq] at h
  obtain ⟨⟨hs, hack⟩, hlast⟩ := h
  unfold step
  rw [hs]
  simp only [stepFill, hack, hlast, if_true]
  refine ⟨trivial, ?_⟩
  unfold holds
  rw [List.any_eq_true]
  refine ⟨c.missWay, List.mem_range.2 ha.way, ?_⟩
  simp [setCell, CacheGeometry.lineIdx, ha.set, ha.tag]

end DCache

/-! ## The memory stage and its cache -/

section Cached

variable {w k : ℕ} {P : Params} {s : State w k} {i : Inputs}

/-- A load or a store is in the memory stage. -/
def loadStore (s : State w k) : Bool := s.reg3.memRead || s.reg3.memWrite

/-- What a load or store in the memory stage, a fence and the cache know of each other. -/
structure CacheInv (P : Params) (s : State w k) : Prop where
  victim : ∀ set, s.dcache.victim set < P.dcache.ways
  refill : s.dcache.refilling = true → loadStore s = true ∧ s.ptw.busy = false ∧
    s.memStallDone = false ∧ s.dcache.AimedAt P.dcache s.reg3.aluOut
  flush : s.dcache.flushBusy = true → s.fencePending = true ∧ s.dcache.flushActive = true
  done : s.dcache.flushDone = true → s.dcache.state = .idle ∧ s.fenceFlushStarted = true
  hitRd : s.dcache.state = .hitRd → s.dcache.holds P.dcache s.dcache.servedAddr = true
  fence : s.fencePending = true → loadStore s = false ∧ s.memStallDone = false
  served : loadStore s = true → s.memStallDone = true →
    s.reg3.memRead = true ∧ s.dcache.state = .idle ∧ s.dcache.holds P.dcache s.reg3.aluOut = true

theorem isAmo_of_loadStore (hacc : s.reg3.OneAccess) (h : loadStore s = true) :
    s.reg3.isAmo = false := by
  simp only [loadStore, Bool.or_eq_true] at h
  rcases h with hr | hw
  · exact (hacc.read hr).2
  · exact (hacc.write hw).2

theorem memHold_of_loadStore (hacc : s.reg3.OneAccess) (h : loadStore s = true) :
    memHold P s = memStall P s := by
  simp [memHold, amoStall, amoActive, isAmo_of_loadStore hacc h]

theorem step_reg3_of_hold (h : memHold P s = true) : (step P s i).reg3 = s.reg3 := by
  change s.reg3.step (memHold P s) (reg3Next P s i) = s.reg3
  rw [h]
  rfl

theorem control_fence : ∀ c ∈ ({} :: controlValues : List Control),
    c.isFence = true → c.memRead = false ∧ c.memWrite = false := by
  decide

theorem CacheInv.fencePending_of_loadStore (h : CacheInv P s) (hls : loadStore s = true) :
    s.fencePending = false := by
  by_contra hne
  rw [(h.fence (by simpa using hne)).1] at hls
  exact Bool.noConfusion hls

/-- No walk starts under a load or store. -/
theorem step_ptw_busy (hacc : s.reg3.OneAccess) (hsane : s.ptw.Sane) (h : loadStore s = true)
    (hbusy : s.ptw.busy = false) : (step P s i).ptw.busy = false := by
  have hamo := isAmo_of_loadStore hacc h
  have hcyc : lsuCyc s = true := by
    simpa [lsuCyc, effMemRead, effMemWrite, amoActive, hamo, loadStore] using h
  by_contra hne
  have hup : (ptwNext P s i).busy = true := by
    change ¬(ptwNext P s i).busy = false at hne
    simpa using hne
  obtain ⟨hstart, -⟩ := (ptwNext_of_not_busy hsane hbusy).2 hup
  simp [ptwStart, hcyc] at hstart

variable (hP : P.cacheMode = .writebackSetassoc)

include hP

theorem respReady_eq : dcacheRespReady P s = s.dcache.respReady P.dcache (dcacheReq s) (lsuAck P s) := by
  simp only [dcacheRespReady, hP]

theorem memStall_of_loadStore (hfence : s.fencePending = false) :
    memStall P s =
      ((s.reg3.memRead || (s.reg3.memWrite && !dcacheRespReady P s)) && !s.memStallDone) := by
  simp [memStall, memTrigger, hP, hfence]

theorem step_memStallDone (hfence : s.fencePending = false) :
    (step P s i).memStallDone = (memStall P s && dcacheRespReady P s) := by
  simp [step, memAccessReady, hP, hfence]

theorem CacheInv.fence_step (h : CacheInv P s) (hdec : s.reg2.Decoded)
    (hpend : (step P s i).fencePending = true) :
    loadStore (step P s i) = false ∧ (step P s i).memStallDone = false := by
  change fencePendingNext P s i = true at hpend
  by_cases hf : s.fencePending = true
  · -- the flush goes on, and holds the memory stage
    obtain ⟨hls, hnd⟩ := h.fence hf
    have hstall : memStall P s = true := by simp [memStall, memTrigger, hP, hf, hnd]
    have hdone : dcacheFlushDone P s = false := by
      by_contra hne
      simp [fencePendingNext, hne] at hpend
    constructor
    · rw [loadStore, step_reg3_of_hold (by simp [memHold, hstall])]
      exact hls
    · simp [step, memAccessReady, hP, hf, hdone]
  · -- the fence moves on from EX
    have hgo : s.reg2.ctl.isFence = true ∧ reg2Hold P s i = false := by
      unfold fencePendingNext at hpend
      split_ifs at hpend with h1 h2
      · simp only [Bool.and_eq_true, Bool.not_eq_true'] at h2
        exact ⟨h2.1.2, h2.2⟩
      · exact absurd hpend hf
    have hmem := memHold_eq_false_of_reg2Hold hgo.2
    obtain ⟨hr, hw⟩ := control_fence _ hdec.ctl_mem hgo.1
    constructor
    · have hreg3 : (step P s i).reg3 = reg3Next P s i := by
        change s.reg3.step (memHold P s) (reg3Next P s i) = _
        rw [hmem]
        rfl
      simp [loadStore, hreg3, reg3Next, hr, hw]
    · have hstall : memStall P s = false := by
        simp only [memHold, Bool.or_eq_false_iff] at hmem
        exact hmem.1
      simp [step, hstall]

theorem CacheInv.flush_step (h : CacheInv P s)
    (hflush : (step P s i).dcache.flushBusy = true) :
    (step P s i).fencePending = true ∧ (step P s i).dcache.flushActive = true := by
  rcases DCache.step_flushBusy hflush with ⟨hs, hact⟩ | ⟨hs, hall, hact⟩
  · obtain ⟨hpend, hon⟩ := h.flush hs
    have hdone : s.dcache.flushDone = false := by
      by_contra hne
      have hidle := (h.done (by simpa using hne)).1
      simp [DCache.flushBusy, hidle] at hs
    exact ⟨by simp [step, fencePendingNext, dcacheFlushDone, hP, hdone, hpend], hact.trans hon⟩
  · simp only [Bool.and_eq_true, Bool.not_eq_true'] at hall
    have hdone : s.dcache.flushDone = false := by
      by_contra hne
      have hstarted := (h.done (by simpa using hne)).2
      exact absurd (hall.2.symm.trans hstarted) Bool.false_ne_true
    exact ⟨by simp [step, fencePendingNext, dcacheFlushDone, hP, hdone, hall.1.1], hact⟩

theorem CacheInv.done_step (h : CacheInv P s) (hdone : (step P s i).dcache.flushDone = true) :
    (step P s i).dcache.state = .idle ∧ (step P s i).fenceFlushStarted = true := by
  obtain ⟨hs, hidle⟩ := DCache.step_flushDone hdone
  obtain ⟨hpend, hon⟩ := h.flush hs
  exact ⟨hidle, by simp [step, dcacheFlushBusy, hP, hpend, hon]⟩

/-- A load or store that has not been answered stays. -/
theorem CacheInv.stall_of_not_ready (h : CacheInv P s) (hls : loadStore s = true)
    (hnd : s.memStallDone = false) (hready : dcacheRespReady P s = false) : memStall P s = true := by
  rw [memStall_of_loadStore hP (h.fencePending_of_loadStore hls), hnd, hready]
  simpa [loadStore] using hls

theorem not_ready_of_miss (hs : s.dcache.state = .idle)
    (hmiss : s.dcache.hit P.dcache (dcacheReq s) = false) : dcacheRespReady P s = false := by
  rw [respReady_eq hP]
  simp [DCache.respReady, DCache.hitRdResponds, DCache.fillResponds, hs, hmiss]

theorem not_ready_of_refilling (hs : s.dcache.refilling = true)
    (hend : s.dcache.fillEnds P.dcache (lsuAck P s) = false) : dcacheRespReady P s = false := by
  have hne : s.dcache.state ≠ .idle ∧ s.dcache.state ≠ .hitRd := by
    constructor <;> intro hst <;> simp [DCache.refilling, hst] at hs
  rw [respReady_eq hP]
  simp only [DCache.fillEnds] at hend
  simp [DCache.respReady, DCache.hitRdResponds, DCache.fillResponds, hne, hend]

/-- Before a refill, or in it, there is a load or store without an answer, and no walk. -/
theorem CacheInv.before_refill (h : CacheInv P s)
    (hrefill : (step P s i).dcache.refilling = true) :
    loadStore s = true ∧ s.ptw.busy = false ∧ s.memStallDone = false ∧
      dcacheRespReady P s = false ∧ (step P s i).dcache.AimedAt P.dcache s.reg3.aluOut := by
  rcases DCache.step_refilling hrefill with ⟨hs, hend, haim⟩ | ⟨hs, hreq, hmiss, haim⟩
  · obtain ⟨hls, hbusy, hnd, hat⟩ := h.refill hs
    exact ⟨hls, hbusy, hnd, not_ready_of_refilling hP hs hend, haim _ hat⟩
  · have hpair : loadStore s = true ∧ s.ptw.busy = false := by
      simpa [dcacheReq, loadStore, ← Bool.and_or_distrib_right] using hreq
    have hnd : s.memStallDone = false := by
      by_contra hne
      have hhit := (h.served hpair.1 (by simpa using hne)).2.2
      exact absurd (hmiss.symm.trans hhit) Bool.false_ne_true
    exact ⟨hpair.1, hpair.2, hnd, not_ready_of_miss hP hs hmiss, haim h.victim⟩

theorem CacheInv.refill_step (h : CacheInv P s) (hacc : s.reg3.OneAccess) (hsane : s.ptw.Sane)
    (hrefill : (step P s i).dcache.refilling = true) :
    loadStore (step P s i) = true ∧ (step P s i).ptw.busy = false ∧
      (step P s i).memStallDone = false ∧
      (step P s i).dcache.AimedAt P.dcache (step P s i).reg3.aluOut := by
  obtain ⟨hls, hbusy, hnd, hready, haim⟩ := h.before_refill hP hrefill
  have hstall := h.stall_of_not_ready hP hls hnd hready
  have hreg3 : (step P s i).reg3 = s.reg3 := step_reg3_of_hold (by simp [memHold, hstall])
  refine ⟨by rw [loadStore, hreg3]; exact hls, step_ptw_busy hacc hsane hls hbusy, ?_, ?_⟩
  · rw [step_memStallDone hP (h.fencePending_of_loadStore hls), hready, Bool.and_false]
  · rw [hreg3]
    exact haim

/-- The two answers a load can get: from the line latched in `S_HIT_RD`, or from the last beat of
its own fill. -/
theorem read_ready_cases (hacc : s.reg3.OneAccess) (hr : s.reg3.memRead = true)
    (hready : dcacheRespReady P s = true) :
    (s.dcache.state = .hitRd ∧ s.reg3.aluOut = s.dcache.servedAddr) ∨
      s.dcache.fillEnds P.dcache (lsuAck P s) = true := by
  rw [respReady_eq hP] at hready
  simp only [DCache.respReady, DCache.hitRdResponds, DCache.fillResponds, dcacheReq,
    (hacc.read hr).1, Bool.or_eq_true, Bool.and_eq_true, beq_iff_eq, Bool.false_and,
    Bool.false_eq_true, and_false, false_or] at hready
  rcases hready with hhit | hfill
  · exact .inl ⟨hhit.1.1, hhit.2⟩
  · refine .inr ?_
    simp [DCache.fillEnds, hfill.1.1]

theorem CacheInv.served_step (h : CacheInv P s) (hacc : s.reg3.OneAccess)
    (hls' : loadStore (step P s i) = true) (hdone : (step P s i).memStallDone = true) :
    (step P s i).reg3.memRead = true ∧ (step P s i).dcache.state = .idle ∧
      (step P s i).dcache.holds P.dcache (step P s i).reg3.aluOut = true := by
  have hstall : memStall P s = true := by
    change (memStall P s && memAccessReady P s) = true at hdone
    exact (Bool.and_eq_true _ _ ▸ hdone).1
  have hreg3 : (step P s i).reg3 = s.reg3 := step_reg3_of_hold (by simp [memHold, hstall])
  have hls : loadStore s = true := by rwa [loadStore, hreg3] at hls'
  have hfence := h.fencePending_of_loadStore hls
  rw [step_memStallDone hP hfence, hstall, Bool.true_and] at hdone
  have hr : s.reg3.memRead = true := by
    rw [memStall_of_loadStore hP hfence, hdone] at hstall
    simp only [Bool.not_true, Bool.and_false, Bool.or_false, Bool.and_eq_true] at hstall
    exact hstall.1
  rw [hreg3]
  refine ⟨hr, ?_⟩
  rcases read_ready_cases hP hacc hr hdone with ⟨hs, haddr⟩ | hend
  · have hidle : (step P s i).dcache.state = .idle := (DCache.step_of_hitRd (g := P.dcache) hs).1
    have hsame : ∀ a, (step P s i).dcache.holds P.dcache a = s.dcache.holds P.dcache a :=
      (DCache.step_of_hitRd hs).2
    exact ⟨hidle, (hsame _).trans (haddr ▸ h.hitRd hs)⟩
  · have hrefill : s.dcache.refilling = true := by
      simp only [DCache.fillEnds, Bool.and_eq_true] at hend
      simp [DCache.refilling, hend.1.1]
    exact DCache.step_of_fillEnds hend (h.refill hrefill).2.2.2

theorem cacheInv_step (hg : 0 < P.dcache.ways) (h : CacheInv P s) (hdec : s.reg2.Decoded)
    (hacc : s.reg3.OneAccess) (hsane : s.ptw.Sane) : CacheInv P (step P s i) where
  victim := DCache.step_victim hg h.victim fun hs ↦ (h.refill hs).2.2.2.way
  refill := h.refill_step hP hacc hsane
  flush := h.flush_step hP
  done := h.done_step hP
  hitRd := DCache.step_state_hitRd
  fence := h.fence_step hP hdec
  served := h.served_step hP hacc

theorem cacheInv (hg : 0 < P.dcache.ways) (h : Reachable P s) : CacheInv P s := by
  obtain ⟨_, ins, n, ⟨s₀, rfl⟩, rfl⟩ := h
  induction n with
  | zero =>
    constructor <;> simp [reset, DCache.reset, DCache.refilling, DCache.flushBusy, loadStore,
      Reg3.reset, hg]
  | succ n ih =>
    have hreach := run_reachable P s₀ ins n
    exact cacheInv_step hP hg ih (reg2_decoded hreach) (reg3_oneAccess hreach) (walkInv hreach).sane

/-! ## One pulse for each access -/

omit hP in
/-- The load or store in the memory stage has had its event. -/
def answered (s : State w k) : Bool := s.memStallDone || s.dcache.refilling

omit hP in
/-- Either event of the data cache. -/
def accessPulse (P : Params) (s : State w k) : Bool :=
  s.dcache.accessHit P.dcache (dcacheReq s) || s.dcache.accessMiss P.dcache (dcacheReq s)

omit hP in
/-- Once answered, a load leaves without another event. -/
theorem CacheInv.pulse_of_done (h : CacheInv P s) (hacc : s.reg3.OneAccess)
    (hls : loadStore s = true) (hdone : s.memStallDone = true) :
    accessPulse P s = false ∧ memHold P s = false := by
  obtain ⟨hr, hs, hhit⟩ := h.served hls hdone
  have hw := (hacc.read hr).1
  have hhit' : s.dcache.hit P.dcache (dcacheReq s) = true := hhit
  constructor
  · simp [accessPulse, DCache.accessHit, DCache.accessMiss, DCache.hitRdResponds, hs, hhit']
    simp [dcacheReq, hw]
  · rw [memHold_of_loadStore hacc hls]
    simp [memStall, hdone]

theorem CacheInv.pulse_of_refilling (h : CacheInv P s) (hacc : s.reg3.OneAccess)
    (hs : s.dcache.refilling = true) :
    accessPulse P s = false ∧ (memHold P s = true → answered (step P s i) = true) := by
  obtain ⟨hls, hbusy, hnd, haim⟩ := h.refill hs
  have hne : s.dcache.state ≠ .idle ∧ s.dcache.state ≠ .hitRd := by
    constructor <;> intro hst <;> simp [DCache.refilling, hst] at hs
  refine ⟨by simp [accessPulse, DCache.accessHit, DCache.accessMiss, DCache.hitRdResponds, hne], ?_⟩
  intro hhold
  by_cases hend : s.dcache.fillEnds P.dcache (lsuAck P s) = true
  · -- the last beat answers, so what is still held is a load
    have hready : dcacheRespReady P s = true := by
      have hreq : ((dcacheReq s).read || (dcacheReq s).write) = true := by
        simpa [dcacheReq, hbusy, loadStore] using hls
      have haddr : (dcacheReq s).addr = s.dcache.missOrigAddr := haim.addr.symm
      simp only [DCache.fillEnds, Bool.and_eq_true] at hend
      rw [respReady_eq hP]
      simp [DCache.respReady, DCache.fillResponds, hend, haddr, hreq]
    have hstall : memStall P s = true := by rwa [memHold_of_loadStore hacc hls] at hhold
    rw [answered, step_memStallDone hP (h.fencePending_of_loadStore hls), hstall, hready]
    rfl
  · have hgo : (step P s i).dcache.refilling = true :=
      DCache.step_of_refilling hs (by simpa using hend)
    rw [answered, hgo, Bool.or_true]

/-- Before its event a load or store finds the cache idle, or with a line latched. -/
theorem CacheInv.pulse_of_waiting (h : CacheInv P s) (hacc : s.reg3.OneAccess)
    (hls : loadStore s = true) (hwait : answered s = false) :
    (memHold P s = true → answered (step P s i) = accessPulse P s) ∧
      (memHold P s = false → accessPulse P s = true) := by
  simp only [answered, Bool.or_eq_false_iff] at hwait
  obtain ⟨hnd, hrefill⟩ := hwait
  have hfence := h.fencePending_of_loadStore hls
  have hhold := memHold_of_loadStore (P := P) hacc hls
  have hstall := memStall_of_loadStore hP hfence
  have hdone' : (step P s i).memStallDone = (memStall P s && dcacheRespReady P s) :=
    step_memStallDone hP hfence
  have hone : s.reg3.memWrite = !s.reg3.memRead := by
    cases hr : s.reg3.memRead
    · simpa [loadStore, hr] using hls
    · exact (hacc.read hr).1
  rw [hone, hnd] at hstall
  have hready := respReady_eq (s := s) hP
  cases hs : s.dcache.state with
  | idle =>
    have hnext : (step P s i).dcache.refilling =
        (((dcacheReq s).read || (dcacheReq s).write) && !s.dcache.hit P.dcache (dcacheReq s)) := by
      change (s.dcache.step P.dcache (dcacheReq s) (readData P s) (lsuAck P s)
        (s.fencePending && !s.ptw.busy && !s.fenceFlushStarted)).refilling = _
      rw [hfence]
      exact DCache.step_of_idle hs
    rw [hhold, answered, hdone', hnext, hstall, hready]
    simp only [accessPulse, DCache.accessHit, DCache.accessMiss, DCache.respReady,
      DCache.hitRdResponds, DCache.fillResponds, hs, dcacheReq, hone]
    cases s.reg3.memRead <;> cases s.ptw.busy <;>
      cases s.dcache.hit P.dcache _ <;> simp
  | hitRd =>
    have hnext : (step P s i).dcache.refilling = false := by
      have hidle : (step P s i).dcache.state = .idle := (DCache.step_of_hitRd (g := P.dcache) hs).1
      simp [DCache.refilling, hidle]
    rw [hhold, answered, hdone', hnext, hstall, hready]
    simp only [accessPulse, DCache.accessHit, DCache.accessMiss, DCache.respReady,
      DCache.hitRdResponds, DCache.fillResponds, hs, dcacheReq, hone]
    have hidle : (DCacheState.hitRd == DCacheState.idle) = false := rfl
    have hfill : (DCacheState.hitRd == DCacheState.fill) = false := rfl
    cases s.reg3.memRead <;> cases s.ptw.busy <;> simp [hidle, hfill]
  | fill => simp [DCache.refilling, hs] at hrefill
  | wb =>
    have hflush : s.dcache.flushBusy = true := by
      simpa [DCache.refilling, DCache.flushBusy, hs] using hrefill
    exact absurd (hfence.symm.trans (h.flush hflush).1) Bool.false_ne_true
  | flushScan =>
    have hflush : s.dcache.flushBusy = true := by simp [DCache.flushBusy, hs]
    exact absurd (hfence.symm.trans (h.flush hflush).1) Bool.false_ne_true

end Cached

/-! ## Whole runs -/

section Runs

variable {w k : ℕ} {P : Params} {s₀ : State w k} {ins : ℕ → Inputs}

/-- What enters the memory stage has neither an answer nor a refill before it. -/
theorem answered_of_enters (hP : P.cacheMode = .writebackSetassoc) (hg : 0 < P.dcache.ways)
    {n : ℕ} (henter : EntersMem P s₀ ins n) : answered (run P s₀ ins n) = false := by
  cases n with
  | zero => rfl
  | succ n =>
    have hinv := cacheInv hP hg (run_reachable P s₀ ins n)
    have hgo : memStall P (run P s₀ ins n) = false := by
      change memHold P (run P s₀ ins n) = false at henter
      simp only [memHold, Bool.or_eq_false_iff] at henter
      exact henter.1
    have hdone : (run P s₀ ins (n + 1)).memStallDone = false := by
      change (memStall P (run P s₀ ins n) && _) = false
      rw [hgo, Bool.false_and]
    have hrefill : (run P s₀ ins (n + 1)).dcache.refilling = false := by
      by_contra hne
      have hup : (step P (run P s₀ ins n) (ins n)).dcache.refilling = true := by
        rw [Bool.not_eq_false] at hne
        exact hne
      obtain ⟨hls, -, hnd, hready, -⟩ := hinv.before_refill hP hup
      exact absurd (hgo.symm.trans (hinv.stall_of_not_ready hP hls hnd hready)) Bool.false_ne_true
    rw [answered, hdone, hrefill, Bool.false_or]

/-- From its entry into the memory stage to its leaving it, a load or store has one event. -/
theorem existsUnique_accessPulse (hP : P.cacheMode = .writebackSetassoc) (hg : 0 < P.dcache.ways)
    {n m : ℕ} (henter : EntersMem P s₀ ins n) (hstay : StaysInMem P s₀ ins n m)
    (hleave : memHold P (run P s₀ ins m) = false) (hls : loadStore (run P s₀ ins n) = true) :
    ∃! j, n ≤ j ∧ j ≤ m ∧ accessPulse P (run P s₀ ins j) = true := by
  have hinv := fun j ↦ cacheInv hP hg (run_reachable P s₀ ins j)
  have hacc := fun j ↦ reg3_oneAccess (run_reachable P s₀ ins j)
  have hthere : ∀ j, n ≤ j → j ≤ m → loadStore (run P s₀ ins j) = true := by
    intro j hnj hjm
    rw [loadStore, StaysInMem.reg3_eq ⟨hnj, fun l hl hlj ↦ hstay.2 l hl (by omega)⟩]
    exact hls
  apply existsUnique_of_flag (f := fun j ↦ answered (run P s₀ ins j)) hstay.1
  · exact answered_of_enters hP hg henter
  · intro j hnj hjm
    have hhold := hstay.2 j hnj hjm
    by_cases hdone : (run P s₀ ins j).memStallDone = true
    · have hgo := ((hinv j).pulse_of_done (hacc j) (hthere j hnj hjm.le) hdone).2
      exact absurd (hgo.symm.trans hhold) Bool.false_ne_true
    by_cases hrefill : (run P s₀ ins j).dcache.refilling = true
    · obtain ⟨-, hnext⟩ := (hinv j).pulse_of_refilling (i := ins j) hP (hacc j) hrefill
      have hans : answered (run P s₀ ins j) = true := by simp [answered, hrefill]
      rw [hans, Bool.true_or]
      exact hnext hhold
    · have hwait : answered (run P s₀ ins j) = false := by simp [answered, hdone, hrefill]
      obtain ⟨hnext, -⟩ := (hinv j).pulse_of_waiting (i := ins j) hP (hacc j)
        (hthere j hnj hjm.le) hwait
      rw [hwait, Bool.false_or]
      exact hnext hhold
  · intro j hnj hjm hans
    simp only [answered, Bool.or_eq_true] at hans
    rcases hans with hdone | hrefill
    · exact ((hinv j).pulse_of_done (hacc j) (hthere j hnj hjm) hdone).1
    · exact ((hinv j).pulse_of_refilling (i := ins j) hP (hacc j) hrefill).1
  · by_cases hans : answered (run P s₀ ins m) = true
    · simp [hans]
    · obtain ⟨-, hlast⟩ := (hinv m).pulse_of_waiting (i := ins m) hP (hacc m)
        (hthere m hstay.1 le_rfl) (by simpa using hans)
      simp [hlast hleave]

/-- A branch, jal or jalr leaves EX and does not trap. -/
def branchExecutes (P : Params) (s : State w k) (i : Inputs) : Bool :=
  s.reg2.valid && (s.reg2.ctl.branch || s.reg2.ctl.jump) && !reg2Hold P s i && !exceptionTaken P s

/-- One of the nine per-cause stall events is high. -/
def CsrEvents.anyCause (e : CsrEvents) : Bool :=
  e.stallHazard || e.stallDiv || e.stallMem || e.stallFp || e.stallFloatLu || e.stallItlb ||
    e.stallDtlb || e.stallIcache || e.stallImemWait

/-- Each event pulses once for what it counts: an executed branch, an access to the data cache, a
trap committed to `CSR.v`, a stalled cycle. -/
structure EventsExact (P : Params) (s₀ : State w k) (ins : ℕ → Inputs) : Prop where
  branch : ∀ n, (csrEvents P (run P s₀ ins n) (ins n)).branchRetired =
    branchExecutes P (run P s₀ ins n) (ins n)
  access : P.cacheMode = .writebackSetassoc → ∀ n m, EntersMem P s₀ ins n →
    StaysInMem P s₀ ins n m → memHold P (run P s₀ ins m) = false →
    loadStore (run P s₀ ins n) = true →
    ∃! j, n ≤ j ∧ j ≤ m ∧ ((csrEvents P (run P s₀ ins j) (ins j)).dcacheHit ||
      (csrEvents P (run P s₀ ins j) (ins j)).dcacheMiss) = true
  accessOnly : ∀ n, ((csrEvents P (run P s₀ ins n) (ins n)).dcacheHit = true →
      (csrEvents P (run P s₀ ins n) (ins n)).dcacheMiss = false) ∧
    (((csrEvents P (run P s₀ ins n) (ins n)).dcacheHit ||
      (csrEvents P (run P s₀ ins n) (ins n)).dcacheMiss) = true →
        loadStore (run P s₀ ins n) = true)
  trap : ∀ n, (csrEvents P (run P s₀ ins n) (ins n)).exception.toNat +
    (csrEvents P (run P s₀ ins n) (ins n)).interrupt.toNat =
      (csrIn P (run P s₀ ins n) (ins n)).trapTaken.toNat
  stall : ∀ n, (csrEvents P (run P s₀ ins n) (ins n)).stallCycle =
    (csrEvents P (run P s₀ ins n) (ins n)).anyCause

/-- No branch or jump leaves EX into a trap, and no AMO waits alone. -/
structure EventsClear (P : Params) (s : State w k) (i : Inputs) : Prop where
  branch : exceptionTaken P s = true → reg2Hold P s i = false →
    (s.reg2.ctl.branch || s.reg2.ctl.jump) = false
  stall : amoStall s = true → (csrEvents P s i).anyCause = true

variable {s : State w k} {i : Inputs}

theorem stallCycle_eq : (csrEvents P s i).stallCycle = ((csrEvents P s i).anyCause || amoStall s) :=
  rfl

/-- A branch or jump in EX is an instruction, not a bubble. -/
theorem valid_of_branch (h : Reachable P s) (hb : (s.reg2.ctl.branch || s.reg2.ctl.jump) = true) :
    s.reg2.valid = true := by
  by_contra hne
  rcases (bubble_cases (reg2_decoded h) (bubbleInv h) (by simpa using hne)).1 with hctl | hctl <;>
    simp [hctl] at hb

theorem branchRetired_eq_iff (h : Reachable P s) :
    (csrEvents P s i).branchRetired = branchExecutes P s i ↔
      (exceptionTaken P s = true → reg2Hold P s i = false →
        (s.reg2.ctl.branch || s.reg2.ctl.jump) = false) := by
  change ((s.reg2.ctl.branch || s.reg2.ctl.jump) && !reg2Hold P s i) = _ ↔ _
  cases hb : s.reg2.ctl.branch || s.reg2.ctl.jump with
  | false => simp [branchExecutes, hb]
  | true =>
    have hval := valid_of_branch h hb
    cases hhold : reg2Hold P s i <;> cases hexc : exceptionTaken P s <;>
      simp [branchExecutes, hb, hval, hhold, hexc]

theorem control_branch : ∀ c ∈ ({} :: controlValues : List Control),
    (c.branch || c.jump) = true → c.illegalOpcode = false ∧ c.aluOp ≠ .rtype ∧ c.isCsr = false ∧
      c.isMret = false ∧ c.isSret = false ∧ c.isSfenceVma = false ∧ c.isEcall = false ∧
      c.isEbreak = false ∧ (c.memRead || c.memWrite) = false := by
  decide

/-- A branch or jump has no exception of its own. -/
theorem ifetchFault_of_branch (h : Reachable P s)
    (hb : (s.reg2.ctl.branch || s.reg2.ctl.jump) = true) (hexc : exceptionTaken P s = true) :
    s.reg2.ctx.ifetchFault = true := by
  obtain ⟨hill, hop, hcsr, hm, hs, hf, hec, heb, hmem⟩ :=
    control_branch _ (reg2_decoded h).ctl_mem hb
  have halu : s.reg2.aluCtl ≠ .illegal := by
    unfold Reg2.aluCtl aluCtrl
    cases hcase : s.reg2.ctl.aluOp with
    | rtype => exact absurd hcase hop
    | loadStore => exact AluCtl.noConfusion
    | _ =>
      dsimp only
      split_ifs <;> exact AluCtl.noConfusion
  have hpage : dtlbPageFault P s = false := by
    by_contra hne
    have hacc := mem_of_dtlbPageFault (walkInv h) (by simpa using hne)
    rw [← Bool.or_eq_true, hmem] at hacc
    exact Bool.noConfusion hacc
  simpa [exceptionTaken, Reg2.exceptionTaken, Reg2.illegal, Reg2.csrPrivViolation,
    Reg2.mretPrivViolation, Reg2.sretPrivViolation, Reg2.sfencePrivViolation, hill, hcsr, hm, hs,
    hf, hec, heb, halu, hpage] using hexc

/-- The pulses of one cycle are the traps of that cycle. -/
theorem trap_pulses : (csrEvents P s i).exception.toNat + (csrEvents P s i).interrupt.toNat =
    (csrIn P s i).trapTaken.toNat := by
  change (exceptionTaken P s && !reg2Hold P s i).toNat + (interruptTaken P s i).toNat =
    (exceptionTaken P s && !reg2Hold P s i || interruptTaken P s i).toNat
  cases hint : interruptTaken P s i with
  | false => simp
  | true =>
    have hexc : exceptionTaken P s = false := by
      have hother := (interruptTaken_spec hint).2.1
      simp only [otherRedirectTaken, Bool.or_eq_false_iff] at hother
      exact hother.1.1.2
    simp [hexc]

theorem access_pulses : ((csrEvents P s i).dcacheHit = true → (csrEvents P s i).dcacheMiss = false) ∧
    (((csrEvents P s i).dcacheHit || (csrEvents P s i).dcacheMiss) = true →
      loadStore s = true) := by
  have hreq : (dcacheReq s).read = true ∨ (dcacheReq s).write = true → loadStore s = true := by
    simp only [dcacheReq, loadStore, Bool.and_eq_true, Bool.or_eq_true]
    tauto
  constructor
  · intro hhit
    simp only [csrEvents, DCache.accessHit, DCache.hitRdResponds, Bool.and_eq_true,
      Bool.or_eq_true, beq_iff_eq] at hhit
    rcases hhit.2 with h | h <;> simp [csrEvents, DCache.accessMiss, h]
  · intro hany
    simp only [csrEvents, DCache.accessHit, DCache.accessMiss, DCache.hitRdResponds,
      Bool.and_eq_true, Bool.or_eq_true] at hany
    apply hreq
    tauto

/-! ### Runs without translation and AMOs -/

/-- No fetch faults without translation. -/
theorem ifetchFault_run (hbare : ∀ n, translateEnable (run P s₀ ins n) = false) (n : ℕ) :
    (run P s₀ ins n).reg1.ifetchFault = false ∧ (run P s₀ ins n).reg2.ctx.ifetchFault = false := by
  induction n with
  | zero => exact ⟨rfl, rfl⟩
  | succ n ih =>
    constructor
    · change (Reg1.step _ _ _ _).ifetchFault = false
      unfold Reg1.step
      split_ifs
      · rfl
      · exact ih.1
      · exact ifetchFaultIf_of_bare (walkerIdle_run hbare n) (hbare n)
    · change (Reg2.step _ _ _ _ _).ctx.ifetchFault = false
      unfold Reg2.step
      split_ifs
      · exact ih.2
      · rfl
      · exact ih.1
      · exact ih.1

theorem eventsClear_of_bare (hbare : ∀ n, translateEnable (run P s₀ ins n) = false)
    (hamo : ∀ n, (run P s₀ ins n).reg3.isAmo = false) (n : ℕ) :
    EventsClear P (run P s₀ ins n) (ins n) := by
  constructor
  · intro hexc _
    by_contra hne
    have hfault := ifetchFault_of_branch (run_reachable P s₀ ins n)
      (Bool.eq_true_of_not_eq_false hne) hexc
    exact absurd ((ifetchFault_run hbare n).2.symm.trans hfault) Bool.false_ne_true
  · intro hstall
    simp [amoStall, amoActive, hamo] at hstall

/-! ### Exact events -/

/-- In every run the events are exact if and only if no branch or jump leaves EX into a trap and no
AMO waits in a cycle without another stall. -/
theorem eventsExact_iff (P : Params) (s₀ : State w k) (ins : ℕ → Inputs)
    (hg : P.cacheMode = .writebackSetassoc → 0 < P.dcache.ways) :
    EventsExact P s₀ ins ↔ ∀ n, EventsClear P (run P s₀ ins n) (ins n) := by
  constructor
  · intro h n
    refine ⟨(branchRetired_eq_iff (run_reachable P s₀ ins n)).1 (h.branch n), ?_⟩
    intro hamo
    have hstall := h.stall n
    rw [stallCycle_eq, hamo, Bool.or_true] at hstall
    exact hstall.symm
  · intro h
    refine ⟨?_, ?_, fun n ↦ access_pulses, fun n ↦ trap_pulses, ?_⟩
    · intro n
      exact (branchRetired_eq_iff (run_reachable P s₀ ins n)).2 (h n).branch
    · intro hP n m henter hstay hleave hls
      have hpulse : ∀ j, ((csrEvents P (run P s₀ ins j) (ins j)).dcacheHit ||
          (csrEvents P (run P s₀ ins j) (ins j)).dcacheMiss) =
            accessPulse P (run P s₀ ins j) := by
        intro j
        have hmode : (P.cacheMode != .none) = true := by rw [hP]; rfl
        simp only [csrEvents, hmode, Bool.true_and, accessPulse]
      simp only [hpulse]
      exact existsUnique_accessPulse hP (hg hP) henter hstay hleave hls
    · intro n
      rw [stallCycle_eq]
      cases hamo : amoStall (run P s₀ ins n) with
      | false => rw [Bool.or_false]
      | true => rw [(h n).stall hamo, Bool.or_true]

/-- `addi x3, x0, 64; amoadd.w x1, x2, (x3); nop; j .`, behind the caches, where the AMO waits for
ever. -/
def amoCachedParams : Params :=
  { insts := instsOfWords [0x04000193, 0x0021A0AF, 0x00000013, 0x0000006f]
    cacheMode := .writebackSetassoc }

/-- A loop of a store, a load and a jump is counted exactly; an AMO behind the caches is not, once
the fetch behind it has been served. -/
theorem eventsExact_memLoop :
    EventsExact memLoopParams (default : State 32 0) (fun _ ↦ {}) ∧
      ¬EventsExact amoCachedParams (default : State 32 0) fun _ ↦ {} := by
  constructor
  · have hbare := fun n ↦ translateEnable_of_satp (satp_of_noCsr memLoopParams_noCsr rfl
      (run_reachable memLoopParams (default : State 32 0) (fun _ ↦ {}) n))
    exact (eventsExact_iff memLoopParams default (fun _ ↦ {})
      fun hP ↦ CacheMode.noConfusion hP).2
        (eventsClear_of_bare hbare (isAmo_of_noAmo memLoopParams_noAmo rfl _ _))
  · intro h
    have hclear := (eventsExact_iff amoCachedParams default (fun _ ↦ {}) fun _ ↦ by decide).1 h 14
    exact absurd (hclear.stall (by decide +kernel)) (by decide +kernel)

end Runs

/-- `addi x3, x0, 64; amoadd.w x1, x2, (x3); nop; j .` -/
def amoEventsParams : Params :=
  { insts := instsOfWords [0x04000193, 0x0021A0AF, 0x00000013, 0x0000006f] }

/-- In cycle 5 the AMO holds the pipeline, and none of the nine events says so. -/
theorem not_eventsExact :
    ¬EventsExact amoEventsParams (default : State 32 0) fun _ ↦ {} := by
  intro h
  exact absurd (h.stall 5) (by decide +kernel)

end RvPipeline
