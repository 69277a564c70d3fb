import RvPipeline.Mem.CachedLsu
import RvPipeline.Mem.Words

/-!
# Loads through the data cache

The cache answers a load with the word the access stream has stored, except where the handshake or
the fill goes wrong: the reply of a load is taken once more by the next one, an acknowledge that
stays high moves the fill words by one place, and a load that misses is answered with the last word
of its line.
-/

namespace RvPipeline

/-! ## The RAM as words -/

/-- The words of the data memory. -/
def ramWord (sizeBytes : ℕ) (m : Ram 32) (x : ℕ) : BitVec 32 :=
  if 4 * x + 4 ≤ sizeBytes then wordOf (fun i ↦ m (BitVec.ofNat 32 i)) x else 0

section Ram

variable {sizeBytes : ℕ} {m : Ram 32} {addr : BitVec 32} {x : ℕ} (haddr : addr.toNat = 4 * x)
  (hx : 4 * x + 4 ≤ sizeBytes)

include haddr hx

theorem rawWord_eq_ramWord : m.rawWord addr = ramWord sizeBytes m x := by
  rw [ramWord, if_pos hx]
  refine eq_of_bytes fun k hk ↦ ?_
  rw [byte_of_rawWord (.inl rfl) m addr (by omega), byte_wordOf _ _ hk, BitVec.ofNat_add, ← haddr,
    BitVec.ofNat_toNat, BitVec.setWidth_eq]

theorem ramWord_write (hsize : sizeBytes ≤ 2 ^ 32) (data : BitVec 32) (y : ℕ) :
    ramWord sizeBytes (m.write sizeBytes addr data 0b010#3) y =
      if y = x then data else ramWord sizeBytes m y := by
  have hidx : wordIdx addr = x := by
    rw [wordIdx, haddr]
    omega
  have hal : addr.toNat % accessBytes 0b010#3 = 0 := by
    rw [haddr, show accessBytes 0b010#3 = 4 from rfl]
    omega
  have hbytes : ∀ i < sizeBytes, m.write sizeBytes addr data 0b010#3 (BitVec.ofNat 32 i) =
      storeBytesTo (fun i ↦ m (BitVec.ofNat 32 i)) addr data 0b010#3 i := fun i hi ↦
    write_eq (.inl rfl) hsize (fun _ _ ↦ rfl) (by decide) (by
      have hbytes : accessBytes 0b010#3 = 4 := rfl
      omega) hi
  have hword : 4 * y + 4 ≤ sizeBytes →
      wordOf (fun i ↦ m.write sizeBytes addr data 0b010#3 (BitVec.ofNat 32 i)) y =
        wordOf (storeBytesTo (fun i ↦ m (BitVec.ofNat 32 i)) addr data 0b010#3) y := fun hy ↦ by
    simp only [wordOf]
    rw [hbytes _ (by omega), hbytes _ (by omega), hbytes _ (by omega), hbytes _ (by omega)]
  simp only [ramWord]
  by_cases hy : 4 * y + 4 ≤ sizeBytes
  · rw [if_pos hy, if_pos hy, hword hy, wordOf_storeBytesTo _ (by decide) hal, hidx]
    rfl
  · rw [if_neg hy, if_neg hy, if_neg (by omega)]

end Ram

/-! ## What is kept -/

/-- A stream of aligned RAM accesses, and a cache whose lines are whole and lie in the RAM. -/
structure CachedStream (C : CachedParams) (ops : ℕ → MemOp 32) : Prop where
  geometry : C.geometry.Pow2
  lines : C.geometry.numSets * C.geometry.ways = C.geometry.numLines
  size : C.memSizeBytes ≤ 2 ^ 32
  whole : C.geometry.lineBytes ∣ C.memSizeBytes
  inRange : ∀ j, (ops j).InRange C.memSizeBytes
  aligned : ∀ j, (ops j).Aligned

/-- No load comes right behind a load of the same address with another `funct3`. -/
def SameExtension (ops : ℕ → MemOp 32) : Prop :=
  ∀ j addr f3 f3', ops j = .load addr f3 → ops (j + 1) = .load addr f3' → f3' = f3

namespace CachedLsu

section

variable (C : CachedParams) (ops : ℕ → MemOp 32) (m : Ram 32) (l : CachedLsu)

/-- The words of the RAM behind the cache. -/
def mem : ℕ → BitVec 32 := ramWord C.memSizeBytes l.ram.dataMemory

/-- The words the stream has written before access `j`. -/
def golden (j : ℕ) (x : ℕ) : BitVec 32 :=
  if 4 * x + 4 ≤ C.memSizeBytes then wordOf (bytesAfter (fun i ↦ m (BitVec.ofNat 32 i)) ops j) x
  else 0

/-- While a line is filled for the access in `reg3`: without added latency its words are all the
same, and a load asks for what its last word is. -/
def FillHarmless : Prop :=
  l.dcache.state = .fill →
    let b := C.geometry.blockOf (l.req ops).addr * C.geometry.lineWords
    (C.memLatencyD = 0 → ∀ i < C.geometry.lineWords, l.mem C (b + i) = l.mem C b) ∧
    ((l.op ops).isLoad = true →
      l.mem C (wordIdx (l.req ops).addr) = l.mem C (b + (C.geometry.lineWords - 1)))

/-- The register of a hit: the load it is for is in `reg3`, or has just left. -/
structure HitRead : Prop where
  valid : l.dcache.valid l.dcache.hitLine = true
  block : l.dcache.block C.geometry l.dcache.hitLine = C.geometry.blockOf l.dcache.servedAddr
  word : l.dcache.hitWord = C.geometry.wordOff l.dcache.servedAddr
  byteoff : l.dcache.hitByteoff = l.dcache.servedAddr.setWidth 2
  load : l.op ops = .load l.dcache.servedAddr l.dcache.hitFunct3 ∨
    ∃ j, l.idx = j + 1 ∧ ops j = .load l.dcache.servedAddr l.dcache.hitFunct3

/-- The load in `reg3` has its value and is about to leave. -/
structure Answered (addr : BitVec 32) (f3 : BitVec 3) : Prop where
  op : l.op ops = .load addr f3
  idle : l.dcache.state = .idle
  hit : l.dcache.hit C.geometry (l.req ops) = true
  value : l.captured =
    DCache.extendRead (golden C ops m l.idx (wordIdx addr)) f3 (addr.setWidth 2)

/-- The latency wrapper has nothing to do. -/
def Rest : Prop := l.dmem.reqActive = false ∧ l.dmem.model.busy = false ∧ l.dmem.model.done = false

/-- The latency wrapper works on the word that is on the bus. -/
structure Waiting : Prop where
  cyc : l.dcache.mCyc = true
  active : l.dmem.reqActive = true
  addr : l.dmem.reqAddr = (l.busReq C).addr
  we : l.dmem.reqWe = (l.busReq C).we
  busy : l.dmem.model.busy = !l.dmem.model.done
  word : l.dcache.state = .fill →
    (l.dmem.capturedThisReq = false ∧ l.dmem.model.done = false ∧ l.ram.memReadPending = true ∧
      l.ram.readData = l.mem C (wordIdx (l.busReq C).addr)) ∨
    (l.dmem.capturedThisReq = true ∧ l.dmem.capturedData = l.mem C (wordIdx (l.busReq C).addr))

/-- Replies to a fill are words of its line. -/
def BusInv : Prop :=
  if C.memLatencyD = 0 then
    l.dcache.state = .fill → l.ram.memReadPending = true → ∃ i < C.geometry.lineWords,
      l.ram.readData = l.mem C (C.geometry.blockOf (l.req ops).addr * C.geometry.lineWords + i)
  else l.Rest ∨ l.Waiting C

/-- What every cycle keeps. -/
structure Inv : Prop where
  cache : l.dcache.Inv C.geometry (l.req ops) (l.mem C) (golden C ops m l.idx)
  inRam : ∀ line, l.dcache.valid line = true →
    (l.dcache.block C.geometry line + 1) * C.geometry.lineBytes ≤ C.memSizeBytes
  hitRd : l.dcache.state = .hitRd → l.HitRead C ops
  fence : l.fencePending = true → l.op ops = .fence ∧ l.memStallDone = false
  served : l.memStallDone = true → l.op ops = .fence ∨ ∃ addr f3, l.Answered C ops m addr f3
  bus : l.BusInv C ops

end

variable {C : CachedParams} {ops : ℕ → MemOp 32} {m : Ram 32} {l : CachedLsu}

/-! ## The access in `reg3` -/

theorem req_one (op : MemOp 32) : (op.dcacheReq.read && op.dcacheReq.write) = false := by
  cases op <;> rfl

theorem active_eq (op : MemOp 32) : op.dcacheReq.active = (op.isLoad || op.isStore) := by
  cases op <;> rfl

theorem golden_of_not_store {j : ℕ} (h : (ops j).isStore = false) :
    golden C ops m (j + 1) = golden C ops m j := by
  have hop : ∀ addr data f3, ops j ≠ .store addr data f3 := by
    intro addr data f3 hop
    simp [hop, MemOp.isStore] at h
  funext x
  rw [golden, Lsu.bytesAfter_of_not_store hop, golden]

theorem golden_store (hs : CachedStream C ops) {j : ℕ} {addr data : BitVec 32} {f3 : BitVec 3}
    (hop : ops j = .store addr data f3) :
    golden C ops m (j + 1) = (ops j).dcacheReq.storeTo (golden C ops m j) := by
  have hin := hs.inRange j
  have hal := hs.aligned j
  rw [hop] at hin hal
  obtain ⟨hf, hrange⟩ := hin
  obtain ⟨-, hroom⟩ := aligned_room (loadLegal_of_storeLegal f3 hf) hal
  have hpos : 0 < accessBytes f3 := Nat.two_pow_pos _
  have hwhole : C.memSizeBytes % 4 = 0 := by
    have := hs.whole
    rw [hs.geometry.lineBytes_eq] at this
    exact Nat.mod_eq_zero_of_dvd (dvd_of_mul_right_dvd this)
  funext x
  have hnew : (ops j).dcacheReq.storeTo (golden C ops m j) x = if x = wordIdx addr then
      DCache.mergeWrite (golden C ops m j (wordIdx addr)) (f3.extractLsb' 0 2) (addr.setWidth 2) data
      else golden C ops m j x := by
    rw [hop]
    rfl
  rw [hnew, golden, bytesAfter, hop]
  dsimp only
  rw [wordOf_storeBytesTo _ hf hal]
  by_cases hx : 4 * x + 4 ≤ C.memSizeBytes
  · rw [if_pos hx]
    split_ifs with hidx
    · rw [← hidx, golden, if_pos hx]
    · rw [golden, if_pos hx]
  · have hidx : x ≠ wordIdx addr := by
      rw [wordIdx]
      omega
    rw [if_neg hx, if_neg hidx, golden, if_neg hx]

/-- A store is done in the cycle it leaves. -/
theorem golden_step (hs : CachedStream C ops) (h : l.Inv C ops m) :
    golden C ops m (l.step C ops).idx =
      l.dcache.stored C.geometry (l.req ops) (golden C ops m l.idx) (l.mAck C) := by
  have hidx : (l.step C ops).idx = if l.stall C ops then l.idx else l.idx + 1 := rfl
  have hnot : (l.op ops).isStore = false → l.dcache.stored C.geometry (l.req ops)
      (golden C ops m l.idx) (l.mAck C) = golden C ops m l.idx := by
    intro hst
    refine DCache.stored_of_not_write ?_
    rw [req]
    cases hop : l.op ops with
    | store addr data f3 => simp [hop, MemOp.isStore] at hst
    | _ => rfl
  cases hop : l.op ops with
  | store addr data f3 =>
    have hfence : l.fencePending = false := by
      by_contra hf
      have := (h.fence (Bool.eq_true_of_not_eq_false hf)).1
      simp [hop] at this
    have hdone : l.memStallDone = false := by
      by_contra hd
      rcases h.served (Bool.eq_true_of_not_eq_false hd) with hf | ⟨addr', f3', ha⟩
      · simp [hop] at hf
      · have := ha.op
        simp [hop] at this
    have hstall : l.stall C ops = !l.respReady C ops := by
      simp [stall, trigger, hop, MemOp.isLoad, MemOp.isStore, hfence, hdone]
    have hwrite : (l.req ops).write = true := by rw [req, hop]; rfl
    rw [hidx, hstall, DCache.stored, hwrite]
    change _ = if (true && l.respReady C ops) = true then _ else _
    cases hready : l.respReady C ops with
    | true =>
      simp only [Bool.not_true, Bool.false_eq_true, if_false, Bool.and_self, if_true]
      exact golden_store hs hop
    | false => simp
  | _ =>
    rw [hnot (by rw [hop]; rfl), hidx]
    split_ifs
    · rfl
    · exact golden_of_not_store (by rw [show ops l.idx = l.op ops from rfl, hop]; rfl)

theorem step_req_of_stall (h : l.stall C ops = true) : (l.step C ops).op ops = l.op ops := by
  have hidx : (l.step C ops).idx = l.idx := by simp [step, h]
  rw [op, hidx, op]

/-- An access that is not served stays, except a load that has been. -/
theorem follows (h : l.Inv C ops m) :
    l.dcache.Follows C.geometry (l.req ops) (l.mAck C) ((l.step C ops).req ops) := by
  intro hactive hready
  cases hstall : l.stall C ops with
  | true => exact .inl (by rw [req, step_req_of_stall hstall, req])
  | false =>
    right
    rw [req, active_eq, Bool.or_eq_true] at hactive
    have htrigger : l.trigger C ops = true := by
      have hready' : l.respReady C ops = false := hready
      rcases hactive with hload | hstore
      · simp [trigger, hload]
      · simp [trigger, hstore, hready']
    have hdone : l.memStallDone = true := by
      rw [stall, htrigger, Bool.true_and] at hstall
      simpa using hstall
    rcases h.served hdone with hf | ⟨addr, f3, ha⟩
    · rw [hf] at hactive
      simp [MemOp.isLoad, MemOp.isStore] at hactive
    · exact ⟨ha.idle, ha.hit, req_one _⟩

theorem flush_excl (h : l.Inv C ops m) (hactive : (l.req ops).active = true) :
    (l.fencePending && !l.fenceFlushStarted) = false := by
  have hf : l.fencePending = false := by
    by_contra hf
    rw [req, (h.fence (Bool.eq_true_of_not_eq_false hf)).1] at hactive
    exact absurd hactive (by simp [MemOp.dcacheReq, DCacheReq.active])
  simp [hf]

/-! ## The bus -/

theorem mCyc_eq_true : l.dcache.mCyc = true ↔ l.dcache.state = .wb ∨ l.dcache.state = .fill := by
  simp [DCache.mCyc]

theorem busReq_of_cyc (hcyc : l.dcache.mCyc = true) :
    l.busReq C = l.dcache.busReq C.geometry := if_pos hcyc

theorem memWrite_eq : RamPort.memWrite (l.busReq C) = (l.dcache.state == .wb) := by
  cases hs : l.dcache.state <;>
    simp [busReq, DCache.mCyc, hs, RamPort.memWrite, DCache.busReq, idleReq]

theorem memReadReq_eq : RamPort.memReadReq (l.busReq C) = (l.dcache.state == .fill) := by
  cases hs : l.dcache.state <;>
    simp [busReq, DCache.mCyc, hs, RamPort.memReadReq, DCache.busReq, idleReq]

theorem step_mem_of_ne_wb (hs : l.dcache.state ≠ .wb) : (l.step C ops).mem C = l.mem C := by
  have hw : RamPort.memWrite (l.busReq C) = false := by
    rw [memWrite_eq]
    simpa using hs
  simp [mem, step, RamPort.step, hw]

/-- The block of an address in the RAM lies in it. -/
theorem blockOf_inRam (hs : CachedStream C ops) {a : BitVec 32} (ha : a.toNat < C.memSizeBytes) :
    (C.geometry.blockOf a + 1) * C.geometry.lineBytes ≤ C.memSizeBytes := by
  obtain ⟨d, hd⟩ := hs.whole
  rw [hd, Nat.mul_comm] at ha ⊢
  exact Nat.mul_le_mul_left _ (Nat.div_lt_of_lt_mul (by rwa [Nat.mul_comm] at ha))

theorem op_inRam (hs : CachedStream C ops) (hactive : (l.req ops).active = true) :
    (l.req ops).addr.toNat < C.memSizeBytes := by
  have hin := hs.inRange l.idx
  have hop : ops l.idx = l.op ops := rfl
  rw [hop] at hin
  rw [req] at hactive ⊢
  have hpos : ∀ f3 : BitVec 3, 0 < accessBytes f3 := fun f3 ↦ Nat.two_pow_pos _
  cases h : l.op ops with
  | load addr f3 =>
    rw [h] at hin
    have := hin.2
    have := hpos f3
    change addr.toNat < _
    omega
  | store addr data f3 =>
    rw [h] at hin
    have := hin.2
    have := hpos f3
    change addr.toNat < _
    omega
  | _ => simp [h, MemOp.dcacheReq, DCacheReq.active] at hactive

theorem word_inRam (hs : CachedStream C ops) {b i : ℕ}
    (hb : (b + 1) * C.geometry.lineBytes ≤ C.memSizeBytes) (hi : i < C.geometry.lineWords) :
    4 * (b * C.geometry.lineWords + i) + 4 ≤ C.memSizeBytes := by
  rw [hs.geometry.lineBytes_eq] at hb
  have : (b + 1) * (4 * C.geometry.lineWords) = 4 * (b * C.geometry.lineWords) +
      4 * C.geometry.lineWords := by ring
  omega

section Words

variable (hs : CachedStream C ops) (h : l.Inv C ops m)

include hs h

theorem fill_inRam (hfill : l.dcache.state = .fill) :
    4 * wordIdx (l.dcache.busReq C.geometry).addr + 4 ≤ C.memSizeBytes := by
  obtain ⟨hmiss, hf⟩ := h.cache.missed hfill
  rw [h.cache.fill_addr hs.geometry hfill]
  exact word_inRam hs (blockOf_inRam hs (op_inRam hs hmiss.active)) hf.lt

/-- A read of the bus brings the word of its address. -/
theorem step_readData (hfill : l.dcache.state = .fill) :
    (l.step C ops).ram.memReadPending = true ∧
      (l.step C ops).ram.readData = l.mem C (wordIdx (l.dcache.busReq C.geometry).addr) := by
  have hbus := busReq_of_cyc (C := C) (mCyc_eq_true.2 (.inr hfill))
  have hread : RamPort.memReadReq (l.dcache.busReq C.geometry) = true := by
    rw [← hbus, memReadReq_eq, hfill]
    rfl
  have hraw := rawWord_eq_ramWord (m := l.ram.dataMemory)
    (show (l.dcache.busReq C.geometry).addr.toNat = 4 * wordIdx (l.dcache.busReq C.geometry).addr by
      rw [wordIdx, h.cache.fill_toNat hs.geometry hfill]
      omega) (fill_inRam hs h hfill)
  have hfunct3 : (l.dcache.busReq C.geometry).funct3 = 0b010#3 := rfl
  simp [step, hbus, RamPort.step, RamPort.readData, hread, hraw, mem, loadExtend, hfunct3]

theorem backs (hharm : l.FillHarmless C ops) :
    l.dcache.Backs C.geometry (l.mDataI C) (l.mAck C) (l.mem C) ((l.step C ops).mem C) := by
  have hwrite : l.dcache.state = .wb → ∀ x, (l.step C ops).mem C x =
      if x = wordIdx (l.dcache.busReq C.geometry).addr then (l.dcache.busReq C.geometry).data
      else l.mem C x := by
    intro hwb x
    have hbus := busReq_of_cyc (C := C) (mCyc_eq_true.2 (.inl hwb))
    have hw : RamPort.memWrite (l.dcache.busReq C.geometry) = true := by
      rw [← hbus, memWrite_eq, hwb]
      rfl
    have hback := h.cache.writingBack hwb
    have hin : 4 * wordIdx (l.dcache.busReq C.geometry).addr + 4 ≤ C.memSizeBytes := by
      rw [h.cache.wb_addr hs.geometry hwb]
      exact word_inRam hs (h.inRam _ hback.valid) hback.lt
    have haddr : (l.dcache.busReq C.geometry).addr.toNat =
        4 * wordIdx (l.dcache.busReq C.geometry).addr := by
      rw [wordIdx, h.cache.wb_toNat hs.geometry hwb]
      omega
    simp only [mem, step, hbus, RamPort.step, hw, if_true]
    exact ramWord_write haddr hin hs.size _ x
  refine ⟨fun x hx ↦ ?_, fun hwb _ ↦ ?_, fun hfill hack ↦ ?_⟩
  · by_cases hwb : l.dcache.state = .wb
    · rw [hwrite hwb, if_neg fun he ↦ hx ⟨hwb, he⟩]
    · rw [step_mem_of_ne_wb hwb]
  · rw [hwrite hwb, if_pos rfl]
  · have hbus := h.bus
    obtain ⟨hmiss, hf⟩ := h.cache.missed hfill
    have hcyc := busReq_of_cyc (C := C) (mCyc_eq_true.2 (.inr hfill))
    unfold BusInv at hbus
    unfold mDataI
    unfold mAck at hack
    split_ifs at hbus hack ⊢ with hlat
    · -- the reply is a word of the line, and they are all the same
      have hpend : l.ram.memReadPending = true := by
        rw [RamPort.ack, memWrite_eq, hfill] at hack
        simpa using hack
      obtain ⟨i, hi, hdata⟩ := hbus hfill hpend
      obtain ⟨hsame, -⟩ := hharm hfill
      rw [hdata, h.cache.fill_addr hs.geometry hfill, hsame hlat i hi, hsame hlat _ hf.lt]
    · rcases hbus with hrest | hwait
      · rw [hrest.2.2] at hack
        exact absurd hack (by simp)
      · rcases hwait.word hfill with ⟨-, hd, -⟩ | ⟨-, hdata⟩
        · rw [hd] at hack
          exact absurd hack (by simp)
        · rw [hdata, hcyc]

end Words

/-! ### The bus in one cycle -/

/-- Without an acknowledge the cache asks for the same word again. -/
theorem dcache_of_not_ack (ops : ℕ → MemOp 32) (hcyc : l.dcache.mCyc = true) (hack : l.mAck C = false) :
    (l.step C ops).dcache = { l.dcache with flushDone := false } := by
  have hstep : (l.step C ops).dcache = l.dcache.step C.geometry (l.req ops) (l.mDataI C)
    (l.mAck C) (l.fencePending && !l.fenceFlushStarted) := rfl
  rw [hstep, hack, DCache.step]
  rcases mCyc_eq_true.1 hcyc with hs | hs
  · rw [hs]
    rfl
  · rw [hs]
    rfl

theorem mem_step_of_fill (hfill : l.dcache.state = .fill) :
    (l.step C ops).mem C = l.mem C :=
  step_mem_of_ne_wb (by simp [hfill])

/-- A fill that goes on has not answered. -/
theorem fill_goes_on (h : l.Inv C ops m) (hfill : l.dcache.state = .fill)
    (hfill' : (l.step C ops).dcache.state = .fill) : (l.step C ops).req ops = l.req ops := by
  obtain ⟨hmiss, -⟩ := h.cache.missed hfill
  refine (follows h).eq_of_ne_idle (by simp [hfill]) hmiss.active ?_
  rw [h.cache.fill_respReady hfill]
  by_contra hlast
  have hstep : (l.step C ops).dcache = l.dcache.step C.geometry (l.req ops) (l.mDataI C)
    (l.mAck C) (l.fencePending && !l.fenceFlushStarted) := rfl
  rw [Bool.not_eq_false, Bool.and_eq_true] at hlast
  simp [hstep, DCache.step, hfill, DCache.stepFill, hlast] at hfill'

section Bus

variable (hs : CachedStream C ops) (h : l.Inv C ops m)

include hs h

/-- Without added latency. -/
theorem busInv_step_zero (hlat : C.memLatencyD = 0) : (l.step C ops).BusInv C ops := by
  rw [BusInv, if_pos hlat]
  intro hfill' hpend
  have hread : RamPort.memReadReq (l.busReq C) = true := hpend
  have hfill : l.dcache.state = .fill := by
    rw [memReadReq_eq] at hread
    simpa using hread
  obtain ⟨hmiss, hf⟩ := h.cache.missed hfill
  refine ⟨l.dcache.fillWord, hf.lt, ?_⟩
  rw [(step_readData hs h hfill).2, fill_goes_on h hfill hfill', mem_step_of_fill hfill,
    h.cache.fill_addr hs.geometry hfill]

/-- With added latency. -/
theorem busInv_step_pos (hlat : C.memLatencyD ≠ 0) : (l.step C ops).BusInv C ops := by
  rw [BusInv, if_neg hlat]
  have hbus := h.bus
  rw [BusInv, if_neg hlat] at hbus
  have hdmem : (l.step C ops).dmem = l.dmemNext C := rfl
  have hack : l.mAck C = l.dmem.model.done := if_neg hlat
  rcases hbus with ⟨hact, hbusy, hdone⟩ | hwait
  · cases hcyc : l.dcache.mCyc with
    | false =>
      -- nothing is asked for
      have hidle : l.busReq C = idleReq := by simp [busReq, hcyc]
      have hnew : l.newRequest C = false := by simp [newRequest, hidle, idleReq]
      left
      simp [Rest, hdmem, dmemNext, hnew, hact, hdone, LatencyModel.step, hbusy]
    | true =>
      -- a new word
      have hreq : (l.busReq C).cyc = true ∧ (l.busReq C).stb = true := by
        rw [busReq_of_cyc hcyc]
        exact ⟨hcyc, hcyc⟩
      have hnew : l.newRequest C = true := by simp [newRequest, hreq, hact]
      have hcache := dcache_of_not_ack ops hcyc (hack.trans hdone)
      have hsame : (l.step C ops).busReq C = l.busReq C := by
        rw [busReq, hcache, busReq]
        rfl
      have hmodel : (l.step C ops).dmem.model =
          { busy := true, done := false, count := C.memLatencyD - 1 } := by
        simp [hdmem, dmemNext, hnew, LatencyModel.step, hbusy]
      right
      refine ⟨?_, ?_, ?_, ?_, ?_, fun hfill ↦ .inl ?_⟩
      · rw [hcache]
        exact hcyc
      · simp [hdmem, dmemNext, hnew]
      · rw [hsame]
        simp [hdmem, dmemNext, hnew]
      · rw [hsame]
        simp [hdmem, dmemNext, hnew]
      · rw [hmodel]
        rfl
      · have hfill' : l.dcache.state = .fill := by
          rw [hcache] at hfill
          exact hfill
        obtain ⟨hpend, hdata⟩ := step_readData hs h hfill'
        refine ⟨by simp [hdmem, dmemNext, hnew], by rw [hmodel], hpend, ?_⟩
        rw [hsame, hdata, mem_step_of_fill hfill', busReq_of_cyc hcyc]
  · have hnew : l.newRequest C = false := by simp [newRequest, hwait.active, hwait.addr, hwait.we]
    cases hdone : l.dmem.model.done with
    | true =>
      have hbusy : l.dmem.model.busy = false := by rw [hwait.busy, hdone]; rfl
      left
      simp [Rest, hdmem, dmemNext, hnew, hdone, LatencyModel.step, hbusy]
    | false =>
      have hbusy : l.dmem.model.busy = true := by rw [hwait.busy, hdone]; rfl
      have hcache := dcache_of_not_ack ops hwait.cyc (hack.trans hdone)
      have hsame : (l.step C ops).busReq C = l.busReq C := by
        rw [busReq, hcache, busReq]
        rfl
      right
      refine ⟨?_, ?_, ?_, ?_, ?_, fun hfill ↦ .inr ?_⟩
      · rw [hcache]
        exact hwait.cyc
      · simp [hdmem, dmemNext, hnew, hdone, hwait.active]
      · rw [hsame]
        simp [hdmem, dmemNext, hnew, hwait.addr]
      · rw [hsame]
        simp [hdmem, dmemNext, hnew, hwait.we]
      · simp only [hdmem, dmemNext, hnew, LatencyModel.step, hbusy]
        split_ifs <;> simp_all
      · have hfill' : l.dcache.state = .fill := by
          rw [hcache] at hfill
          exact hfill
        rw [hsame, mem_step_of_fill hfill']
        rcases hwait.word hfill' with ⟨hcap, -, hpend, hdata⟩ | ⟨hcap, hdata⟩
        · have hraw : l.ram.ack (l.busReq C) = true := by simp [RamPort.ack, hpend]
          simp [hdmem, dmemNext, hnew, hraw, hcap, hdata]
        · simp [hdmem, dmemNext, hnew, hcap, hdata]

end Bus

/-! ## One clock edge -/

section Step

variable (hs : CachedStream C ops) (h : l.Inv C ops m)

include hs h

theorem inRam_step {line : ℕ} (hv : (l.step C ops).dcache.valid line = true) :
    ((l.step C ops).dcache.block C.geometry line + 1) * C.geometry.lineBytes ≤ C.memSizeBytes := by
  rcases DCache.step_valid hv with ⟨hv', htag⟩ | ⟨hfill, rfl, htag⟩
  · have hblock : (l.step C ops).dcache.block C.geometry line = l.dcache.block C.geometry line := by
      rw [DCache.block, DCache.block]
      exact congrArg (· * _ + _) htag
    rw [hblock]
    exact h.inRam line hv'
  · obtain ⟨hmiss, -⟩ := h.cache.missed hfill
    have hblock : (l.step C ops).dcache.block C.geometry (l.dcache.fillLine C.geometry) =
        C.geometry.blockOf (l.req ops).addr := by
      rw [DCache.block, ← h.cache.fill_block hs.geometry hfill]
      exact congrArg (· * _ + _) htag
    rw [hblock]
    exact blockOf_inRam hs (op_inRam hs hmiss.active)

/-- A hit is registered from idle, for the load in `reg3`. -/
theorem hitRead_step (hhit : (l.step C ops).dcache.state = .hitRd) :
    (l.step C ops).HitRead C ops := by
  obtain ⟨hhit', hactive, hwrite, hnext⟩ := DCache.step_hitRd hhit
  have hdcache : (l.step C ops).dcache = _ := hnext
  obtain ⟨line, hv, hb⟩ := (DCache.hit_iff hs.geometry h.cache.placed).1 hhit'
  obtain ⟨hline, -⟩ := DCache.hit_spec hs.geometry h.cache.placed hv hb
  obtain ⟨addr, f3, hop⟩ : ∃ addr f3, l.op ops = .load addr f3 := by
    cases hop : l.op ops with
    | load addr f3 => exact ⟨addr, f3, rfl⟩
    | _ => simp [req, hop, MemOp.dcacheReq, DCacheReq.active] at hactive hwrite
  constructor
  · rw [hdcache]
    change l.dcache.valid (l.dcache.hitLineIdx C.geometry (l.req ops)) = true
    rw [hline, hv]
  · rw [hdcache]
    change l.dcache.block C.geometry (l.dcache.hitLineIdx C.geometry (l.req ops)) = _
    rw [hline, hb]
  · rw [hdcache]
  · rw [hdcache]
  · have hserved : MemOp.load (l.step C ops).dcache.servedAddr (l.step C ops).dcache.hitFunct3 =
        l.op ops := by
      rw [hdcache, hop]
      simp [req, hop, MemOp.dcacheReq]
    rw [hserved]
    cases hstall : l.stall C ops with
    | true => exact .inl (step_req_of_stall hstall)
    | false => exact .inr ⟨l.idx, by simp [step, hstall], rfl⟩

theorem cache_step (hharm : l.FillHarmless C ops) :
    (l.step C ops).dcache.Inv C.geometry ((l.step C ops).req ops) ((l.step C ops).mem C)
      (golden C ops m (l.step C ops).idx) := by
  rw [golden_step hs h]
  exact h.cache.step hs.geometry (backs hs h hharm) (follows h) (flush_excl h)

/-- The registered hit is the word the stream has stored. -/
theorem hitRd_word (hst : l.dcache.state = .hitRd) :
    l.dcache.dataArr (l.dcache.hitLine * C.geometry.lineWords + l.dcache.hitWord) =
      golden C ops m l.idx (wordIdx l.dcache.servedAddr) := by
  have hread := h.hitRd hst
  have hline : (l.dcache.overlay C.geometry (l.mem C)).line l.dcache.hitLine =
      some (C.geometry.blockOf l.dcache.servedAddr) :=
    DCache.overlay_line_eq_some.2
      ⟨by rw [DCache.shown_eq_valid (by simp [hst]), hread.valid], hread.block⟩
  rw [hread.word, hs.geometry.wordIdx_eq]
  exact congrFun (h.cache.shows.held _ _ hline) ⟨_, hs.geometry.wordOff_lt _⟩

/-- The last fill word is the one a load asks for. -/
theorem fill_word (hharm : l.FillHarmless C ops) (hfill : l.dcache.state = .fill)
    (hload : (l.op ops).isLoad = true) (hack : l.mAck C = true)
    (hlast : l.dcache.isLastWord C.geometry = true) :
    l.dcache.fillValue (l.mDataI C) = golden C ops m l.idx (wordIdx (l.req ops).addr) := by
  have hwrite : (l.req ops).write = false := by
    rw [req]
    cases hop : l.op ops with
    | store addr data f3 => simp [hop, MemOp.isLoad] at hload
    | _ => rfl
  have hblock := h.cache.shows.rest _ (h.cache.fill_absent hfill)
  have hlast' : l.dcache.fillWord = C.geometry.lineWords - 1 := by
    have : l.dcache.fillWord + 1 = C.geometry.lineWords := by simpa [DCache.isLastWord] using hlast
    omega
  have hpos := hs.geometry.lineWords_pos
  have hword := congrFun hblock ⟨_, hs.geometry.wordOff_lt (l.req ops).addr⟩
  have hend := congrFun hblock ⟨C.geometry.lineWords - 1, by omega⟩
  simp only [DCache.overlay, blocks, ← hs.geometry.wordIdx_eq] at hword hend
  rw [h.cache.fillValue_eq hs.geometry hfill ((backs hs h hharm).read hfill hack), hwrite,
    if_neg Bool.false_ne_true, hlast', ← hend, ← hword, (hharm hfill).2 hload]

/-- The reply of the cache is taken along. -/
theorem answered_step (hsame : SameExtension ops) (hharm : l.FillHarmless C ops)
    {addr : BitVec 32} {f3 : BitVec 3} (hop : l.op ops = .load addr f3)
    (hstall : l.stall C ops = true) (hready : l.respReady C ops = true) :
    (l.step C ops).Answered C ops m addr f3 := by
  have hdcache : (l.step C ops).dcache = l.dcache.step C.geometry (l.req ops) (l.mDataI C)
    (l.mAck C) (l.fencePending && !l.fenceFlushStarted) := rfl
  have hop' : (l.step C ops).op ops = .load addr f3 := (step_req_of_stall hstall).trans hop
  have hidx : (l.step C ops).idx = l.idx := by simp [step, hstall]
  have hcaptured : (l.step C ops).captured = l.respRdata C ops := by simp [step, hready]
  have hreq : l.req ops = { read := true, write := false, addr := addr, wdata := 0, funct3 := f3 } := by
    rw [req, hop]
    rfl
  have hwhich : l.dcache.hitRdResponds (l.req ops) = true ∨
      l.dcache.hitRdResponds (l.req ops) = false ∧
        l.dcache.fillResponds C.geometry (l.req ops) (l.mAck C) = true := by
    have hwrite : (l.req ops).write = false := by rw [hreq]
    have hr : l.dcache.respReady C.geometry (l.req ops) (l.mAck C) = true := hready
    rw [DCache.respReady, hwrite, Bool.and_false, Bool.false_or, Bool.or_eq_true] at hr
    cases hh : l.dcache.hitRdResponds (l.req ops) with
    | true => exact .inl rfl
    | false => exact .inr ⟨rfl, hr.resolve_left (by simp [hh])⟩
  rcases hwhich with hhit | ⟨hhit, hfill⟩
  · have hr := hhit
    simp only [DCache.hitRdResponds, Bool.and_eq_true, beq_iff_eq, hreq] at hr
    obtain ⟨⟨hst, -⟩, hserved⟩ := hr
    have hread := h.hitRd hst
    have hf3 : l.dcache.hitFunct3 = f3 := by
      rcases hread.load with hl | ⟨j, hj, hl⟩
      · rw [hop] at hl
        exact (MemOp.load.inj hl).2.symm
      · rw [← hserved] at hl
        have hnext : ops (j + 1) = .load addr f3 := by
          rw [← hj]
          exact hop
        exact (hsame j addr _ f3 hl hnext).symm
    have hnext : (l.step C ops).dcache = { l.dcache with flushDone := false, state := .idle } := by
      rw [hdcache, DCache.step, hst]
    refine ⟨hop', by rw [hnext], ?_, ?_⟩
    · rw [hnext, req, hop', ← hop]
      exact (DCache.hit_iff hs.geometry h.cache.placed).2
        ⟨_, hread.valid, by rw [hread.block, ← hserved, hop]; rfl⟩
    · rw [hcaptured, hidx, respRdata, DCache.respRdata, if_pos hhit, hitRd_word hs h hst, hf3,
        hread.byteoff, ← hserved, BitVec.setWidth_eq]
  · have hr := hfill
    simp only [DCache.fillResponds, Bool.and_eq_true, beq_iff_eq] at hr
    obtain ⟨⟨⟨⟨hst, hack⟩, hlast⟩, -⟩, -⟩ := hr
    obtain ⟨hmiss, -⟩ := h.cache.missed hst
    have hcache := cache_step hs h hharm
    have hnext : (l.step C ops).dcache.state = .idle ∧
        (l.step C ops).dcache.valid (l.dcache.fillLine C.geometry) = true ∧
        (l.step C ops).dcache.tagArr (l.dcache.fillLine C.geometry) = l.dcache.missTag := by
      simp [hdcache, DCache.step, hst, DCache.stepFill, hack, hlast, setCell, DCache.fillLine]
    refine ⟨hop', hnext.1, ?_, ?_⟩
    · refine (DCache.hit_iff hs.geometry hcache.placed).2 ⟨_, hnext.2.1, ?_⟩
      rw [DCache.block, hnext.2.2, h.cache.fill_block hs.geometry hst, req, req, hop', hop]
    · rw [hcaptured, hidx, respRdata, DCache.respRdata, if_neg (by simp [hhit]), if_pos hfill,
        fill_word hs h hharm hst (by rw [hop]; rfl) hack hlast, hmiss.funct3, hmiss.byteoff, hreq,
        BitVec.setWidth_eq]

/-- One clock edge. -/
theorem Inv.step (hsame : SameExtension ops) (hharm : l.FillHarmless C ops) :
    (l.step C ops).Inv C ops m where
  cache := cache_step hs h hharm
  inRam _ := inRam_step hs h
  hitRd := hitRead_step hs h
  fence := by
    intro hf
    simp only [CachedLsu.step] at hf
    split_ifs at hf with hdone hnext
    · have hidx : (l.step C ops).idx = l.idx + 1 := by simp [CachedLsu.step, hnext.2]
      exact ⟨by rw [op, hidx, hnext.1], by simp [CachedLsu.step, hnext.2]⟩
    · obtain ⟨hop, hd⟩ := h.fence hf
      have hstall : l.stall C ops = true := by simp [stall, trigger, hf, hd]
      refine ⟨(step_req_of_stall hstall).trans hop, ?_⟩
      simp [CachedLsu.step, memAccessReady, hf, hdone]
  served := by
    intro hd
    simp only [CachedLsu.step, Bool.and_eq_true] at hd
    obtain ⟨hstall, hready⟩ := hd
    cases hf : l.fencePending with
    | true => exact .inl ((step_req_of_stall hstall).trans (h.fence hf).1)
    | false =>
      right
      have hready' : l.respReady C ops = true := by simpa [memAccessReady, hf] using hready
      have hload : (l.op ops).isLoad = true := by
        simp only [stall, trigger, hf, hready', Bool.not_true, Bool.and_false, Bool.or_false,
          Bool.and_eq_true] at hstall
        exact hstall.1
      obtain ⟨addr, f3, hop⟩ : ∃ addr f3, l.op ops = .load addr f3 := by
        cases hop : l.op ops with
        | load addr f3 => exact ⟨addr, f3, rfl⟩
        | _ => simp [hop, MemOp.isLoad] at hload
      exact ⟨addr, f3, answered_step hs h hsame hharm hop hstall hready'⟩
  bus := by
    by_cases hlat : C.memLatencyD = 0
    · exact busInv_step_zero hs h hlat
    · exact busInv_step_pos hs h hlat

end Step

/-! ## Whole runs -/

section Run

variable {c : DCache 32} {d : DmemLatency 32} {v : BitVec 32} (hs : CachedStream C ops)

include hs

theorem inv_start : (start ops m c d v).Inv C ops m where
  cache := DCache.Inv.reset hs.geometry c _ _
  inRam line hv := absurd hv (by simp [start, DCache.reset])
  hitRd hst := absurd hst (by simp [start, DCache.reset])
  fence hf := ⟨of_decide_eq_true hf, rfl⟩
  served hd := absurd hd (by simp [start])
  bus := by
    rw [BusInv]
    split_ifs
    · exact fun _ hp ↦ absurd hp (by simp [start])
    · exact .inl ⟨rfl, rfl, rfl⟩

theorem inv_run (hsame : SameExtension ops)
    (hharm : ∀ n, (run C ops (start ops m c d v) n).FillHarmless C ops) (n : ℕ) :
    (run C ops (start ops m c d v) n).Inv C ops m := by
  induction n with
  | zero => exact inv_start hs
  | succ n ih => exact Inv.step hs ih hsame (hharm n)

end Run

/-- The value of a load that leaves. -/
theorem load_value {n j : ℕ} {addr : BitVec 32} {f3 : BitVec 3} {l₀ : CachedLsu}
    (h : (run C ops l₀ n).Inv C ops m) (hleaves : Leaves C ops l₀ n j)
    (hop : ops j = .load addr f3) : (run C ops l₀ n).captured =
      DCache.extendRead (golden C ops m j (wordIdx addr)) f3 (addr.setWidth 2) := by
  obtain ⟨hidx, hstall⟩ := hleaves
  have hop' : (run C ops l₀ n).op ops = .load addr f3 := by
    rw [op, hidx]
    exact hop
  have hdone : (run C ops l₀ n).memStallDone = true := by
    simpa [stall, trigger, hop', MemOp.isLoad] using hstall
  rcases h.served hdone with hf | ⟨addr', f3', ha⟩
  · rw [hop'] at hf
    cases hf
  · have hsame := ha.op
    rw [hop'] at hsame
    cases hsame
    rw [ha.value, hidx]

end CachedLsu

end RvPipeline
