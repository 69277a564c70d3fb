import Mathlib.Tactic.IntervalCases
import Mathlib.Tactic.Ring
import RvPipeline.Design.Cache
import RvPipeline.Lib.Overlay

/-!
# Coherence of the data cache

The data cache as an overlay of the memory behind it.  Every line holds the block its tag and set
name, a write-back runs below a dirty line and a fill above a line that has been given up, so the
overlay always shows the initial memory with the acknowledged stores applied.
-/

namespace RvPipeline

/-! ## Addresses -/

/-- The word of an address. -/
def wordIdx (a : BitVec 32) : ℕ := a.toNat / 4

namespace CacheGeometry

variable {g : CacheGeometry}

/-- The number of the line-sized block an address lies in. -/
def blockOf (g : CacheGeometry) (a : BitVec 32) : ℕ := a.toNat / g.lineBytes

/-- Ways, sets and line size are powers of two. -/
structure Pow2 (g : CacheGeometry) : Prop where
  ways : ∃ v, g.ways = 2 ^ v
  sets : ∃ s, g.numSets = 2 ^ s
  line : ∃ n, 2 ≤ n ∧ n ≤ 32 ∧ g.lineBytes = 2 ^ n

theorem clog2_two_pow (n : ℕ) : clog2 (2 ^ n) = n := by
  rw [clog2]
  cases n with
  | zero => rfl
  | succ n =>
    have hpos := Nat.one_le_two_pow (n := n)
    rw [if_neg (by omega)]
    congr 1
    rw [Nat.log2_eq_iff (by omega)]
    omega

theorem blockOf_lt (a : BitVec 32) : g.blockOf a * g.lineBytes < 2 ^ 32 :=
  lt_of_le_of_lt (Nat.div_mul_le_self _ _) a.isLt

namespace Pow2

variable (h : g.Pow2)

include h

theorem two_pow_offsetBits : 2 ^ g.offsetBits = g.lineBytes := by
  obtain ⟨n, -, -, hn⟩ := h.line
  rw [offsetBits, hn, clog2_two_pow]

theorem two_pow_setBits : 2 ^ g.setBits = g.numSets := by
  obtain ⟨s, hs⟩ := h.sets
  rw [setBits, hs, clog2_two_pow]

theorem two_pow_lineIdxBits : 2 ^ g.lineIdxBits = g.numSets * g.ways := by
  obtain ⟨v, hv⟩ := h.ways
  rw [lineIdxBits, pow_add, h.two_pow_setBits, hv, clog2_two_pow]

theorem lineBytes_eq : g.lineBytes = 4 * g.lineWords := by
  obtain ⟨n, hn, -, hl⟩ := h.line
  obtain ⟨m, rfl⟩ := Nat.exists_eq_add_of_le hn
  rw [lineWords, hl, pow_add]
  omega

theorem two_pow_wordOff : 2 ^ (g.offsetBits - 2) = g.lineWords := by
  obtain ⟨n, hn, -, hl⟩ := h.line
  obtain ⟨m, rfl⟩ := Nat.exists_eq_add_of_le hn
  have hoff : g.offsetBits = 2 + m := by rw [offsetBits, hl, clog2_two_pow]
  rw [hoff, lineWords, hl, pow_add, Nat.add_sub_cancel_left]
  omega

theorem lineWords_pos : 0 < g.lineWords := by
  rw [← h.two_pow_wordOff]
  exact Nat.two_pow_pos _

theorem ways_pos : 0 < g.ways := by
  obtain ⟨v, hv⟩ := h.ways
  rw [hv]
  exact Nat.two_pow_pos v

theorem numSets_pos : 0 < g.numSets := by
  rw [← h.two_pow_setBits]
  exact Nat.two_pow_pos _

theorem lineBytes_pos : 0 < g.lineBytes := by
  rw [← h.two_pow_offsetBits]
  exact Nat.two_pow_pos _

theorem wordOff_lt {w : ℕ} (a : BitVec w) : g.wordOff a < g.lineWords := by
  rw [wordOff, h.two_pow_wordOff]
  exact Nat.mod_lt _ h.lineWords_pos

/-- A word is the block and the place in it. -/
theorem wordIdx_eq (a : BitVec 32) : wordIdx a = g.blockOf a * g.lineWords + g.wordOff a := by
  rw [wordIdx, blockOf, wordOff, h.two_pow_wordOff, h.lineBytes_eq, ← Nat.div_div_eq_div_mul]
  exact (Nat.div_add_mod' _ _).symm

theorem setIdx_eq (a : BitVec 32) : g.setIdx a = g.blockOf a % g.numSets := by
  rw [setIdx, blockOf, h.two_pow_offsetBits, h.two_pow_setBits]

theorem setIdx_lt (a : BitVec 32) : g.setIdx a < g.numSets := by
  rw [h.setIdx_eq]
  exact Nat.mod_lt _ h.numSets_pos

theorem tagOf_eq (a : BitVec 32) : g.tagOf a = g.blockOf a / g.numSets := by
  rw [tagOf, blockOf, pow_add, h.two_pow_offsetBits, h.two_pow_setBits, Nat.div_div_eq_div_mul]

theorem tag_set_eq (a : BitVec 32) : g.tagOf a * g.numSets + g.setIdx a = g.blockOf a := by
  rw [h.tagOf_eq, h.setIdx_eq]
  exact Nat.div_add_mod' _ _

theorem lineBase_eq (a : BitVec 32) :
    g.lineBase a = BitVec.ofNat 32 (g.blockOf a * g.lineBytes) := by
  rw [lineBase, blockOf, h.two_pow_offsetBits]

/-- The address on the bus while a block is moved. -/
theorem toNat_bus {b i : ℕ} (hb : b * g.lineBytes < 2 ^ 32) (hi : i < g.lineWords) :
    (BitVec.ofNat 32 (b * g.lineBytes) + BitVec.ofNat 32 (4 * i)).toNat =
      4 * (b * g.lineWords + i) := by
  obtain ⟨n, -, hn, hl⟩ := h.line
  have hdvd : g.lineBytes ∣ 2 ^ 32 := hl ▸ pow_dvd_pow 2 hn
  have hle : b * g.lineBytes + g.lineBytes ≤ 2 ^ 32 := by
    obtain ⟨d, hd⟩ := hdvd
    rw [hd, Nat.mul_comm] at hb
    rw [hd, Nat.mul_comm, ← Nat.mul_succ]
    exact Nat.mul_le_mul_left _ (Nat.lt_of_mul_lt_mul_left hb)
  have hbytes := h.lineBytes_eq
  rw [BitVec.toNat_add, BitVec.toNat_ofNat, BitVec.toNat_ofNat, ← Nat.add_mod,
    Nat.mod_eq_of_lt (by omega), hbytes]
  ring

theorem wordIdx_bus {b i : ℕ} (hb : b * g.lineBytes < 2 ^ 32) (hi : i < g.lineWords) :
    wordIdx (BitVec.ofNat 32 (b * g.lineBytes) + BitVec.ofNat 32 (4 * i)) =
      b * g.lineWords + i := by
  rw [wordIdx, h.toNat_bus hb hi]
  omega

end Pow2

end CacheGeometry

/-- With one way selected, the OR over all ways is its value. -/
theorem foldl_single {α : Type} {op : α → α → α} {z : α} (hl : ∀ x, op x z = x)
    (hr : ∀ x, op z x = x) (v : ℕ → α) {n₀ : ℕ} :
    ∀ N, n₀ < N → (∀ n < N, n ≠ n₀ → v n = z) →
      (List.range N).foldl (fun acc n ↦ op acc (v n)) z = v n₀ := by
  have hnone : ∀ N, (∀ n < N, v n = z) →
      (List.range N).foldl (fun acc n ↦ op acc (v n)) z = z := by
    intro N hz
    induction N with
    | zero => rfl
    | succ N ih =>
      rw [List.range_succ, List.foldl_append, ih fun n hn ↦ hz n (by omega)]
      simp [hz N (Nat.lt_succ_self N), hl]
  intro N hN hz
  induction N with
  | zero => omega
  | succ N ih =>
    rw [List.range_succ, List.foldl_append]
    rcases Nat.lt_or_ge n₀ N with hlt | hge
    · rw [ih hlt fun n hn ↦ hz n (by omega)]
      simp [hz N (Nat.lt_succ_self N) (by omega), hl]
    · obtain rfl : n₀ = N := by omega
      rw [hnone n₀ fun n hn ↦ hz n (by omega) (by omega)]
      simp [hr]

/-! ## Lines -/

/-- A memory of words, cut into blocks. -/
def blocks (n : ℕ) (m : ℕ → BitVec 32) : ℕ → Fin n → BitVec 32 := fun b i ↦ m (b * n + i)

theorem setCell_eq_update {α : Type} (f : ℕ → α) (n : ℕ) (v : α) :
    setCell f n v = Function.update f n v := by
  funext m
  simp [setCell, Function.update_apply]

theorem mul_add_inj {n b b' i i' : ℕ} (hi : i < n) (hi' : i' < n)
    (h : b * n + i = b' * n + i') : b = b' ∧ i = i' := by
  have hdiv := congrArg (· / n) h
  have hmod := congrArg (· % n) h
  have hn : 0 < n := by omega
  simp only [Nat.mul_comm b, Nat.mul_comm b', Nat.mul_add_div hn, Nat.div_eq_of_lt hi,
    Nat.div_eq_of_lt hi', Nat.add_zero] at hdiv
  simp only [Nat.mul_comm b, Nat.mul_comm b', Nat.mul_add_mod, Nat.mod_eq_of_lt hi,
    Nat.mod_eq_of_lt hi'] at hmod
  exact ⟨hdiv, hmod⟩

theorem blocks_setCell {n : ℕ} (m : ℕ → BitVec 32) (b : ℕ) (i : Fin n) (v : BitVec 32) :
    blocks n (setCell m (b * n + i) v) = writeWord (blocks n m) b i v := by
  funext b' i'
  simp only [blocks, setCell]
  split_ifs with he
  · obtain ⟨rfl, hi⟩ := mul_add_inj i'.isLt i.isLt he
    obtain rfl : i' = i := Fin.ext hi
    simp
  · rcases eq_or_ne b' b with rfl | hb
    · have hi : i' ≠ i := by
        rintro rfl
        exact he rfl
      simp [hi, blocks]
    · rw [writeWord_of_ne _ hb, blocks]

/-- The memory after a store. -/
def DCacheReq.storeTo (q : DCacheReq 32) (m : ℕ → BitVec 32) : ℕ → BitVec 32 :=
  setCell m (wordIdx q.addr)
    (DCache.mergeWrite (m (wordIdx q.addr)) (q.funct3.extractLsb' 0 2) (q.addr.setWidth 2) q.wdata)

/-- The request port is in use. -/
def DCacheReq.active (q : DCacheReq 32) : Bool := q.read || q.write

namespace DCache

section Overlay

variable (g : CacheGeometry) (c : DCache 32)

/-- The block a line holds. -/
def block (l : ℕ) : ℕ := c.tagArr l * g.numSets + l / g.ways

/-- The line a miss brings its block into. -/
def fillLine : ℕ := c.missSet * g.ways + c.missWay

/-- A valid line counts, except while a fill overwrites it. -/
def shown (l : ℕ) : Bool := c.valid l && !(c.state == .fill && l == c.fillLine g)

/-- The lines over the memory behind them. -/
def overlay (mem : ℕ → BitVec 32) : Overlay ℕ ℕ (Fin g.lineWords) (BitVec 32) where
  line l := if c.shown g l then some (c.block g l) else none
  dirty := c.dirty
  data := blocks g.lineWords c.dataArr
  mem := blocks g.lineWords mem

/-- What the cache and the memory behind it hold at an address. -/
def view (mem : ℕ → BitVec 32) (a : BitVec 32) : BitVec 32 :=
  match (List.range g.ways).find? fun n ↦
      c.shown g (g.lineIdx a n) && c.tagArr (g.lineIdx a n) == g.tagOf a with
  | some n => c.dataArr (g.lineIdx a n * g.lineWords + g.wordOff a)
  | none => mem (wordIdx a)

/-- Every valid line is in a set and holds a block of its own. -/
structure WellPlaced : Prop where
  lt : ∀ l, c.valid l = true → l < g.numSets * g.ways
  addr : ∀ l, c.valid l = true → c.block g l * g.lineBytes < 2 ^ 32
  unique : ∀ l l', c.valid l = true → c.valid l' = true → c.block g l = c.block g l' → l = l'
  victim : ∀ set, c.victim set < g.ways

end Overlay

variable {g : CacheGeometry} {c c' : DCache 32} {q : DCacheReq 32} {mem : ℕ → BitVec 32}

theorem shown_eq_valid (h : c.state ≠ .fill) (l : ℕ) : c.shown g l = c.valid l := by
  simp [shown, h]

/-- Outside a fill the overlay is what the four arrays say. -/
theorem overlay_congr (hs : c.state ≠ .fill) (hs' : c'.state ≠ .fill) (hvalid : c'.valid = c.valid)
    (htag : c'.tagArr = c.tagArr) (hdirty : c'.dirty = c.dirty) (hdata : c'.dataArr = c.dataArr) :
    c'.overlay g mem = c.overlay g mem := by
  simp [overlay, shown_eq_valid hs, shown_eq_valid hs', block, hvalid, htag, hdirty, hdata]

theorem fillLine_hidden (hs : c.state = .fill) : (c.overlay g mem).line (c.fillLine g) = none := by
  simp [overlay, shown, hs]

/-- A fill gives the line up. -/
theorem overlay_of_fill (hs : c.state ≠ .fill) (hs' : c'.state = .fill)
    (hvalid : c'.valid = c.valid) (htag : c'.tagArr = c.tagArr) (hdirty : c'.dirty = c.dirty)
    (hdata : c'.dataArr = c.dataArr) :
    c'.overlay g mem = (c.overlay g mem).drop (c'.fillLine g) := by
  simp only [overlay, Overlay.drop, hdirty, hdata, Overlay.mk.injEq, and_true]
  funext l
  rcases eq_or_ne l (c'.fillLine g) with rfl | hne
  · simp [shown, hs']
  · simp [shown, hs, hne, hvalid, block, htag]

theorem overlay_line_eq_some {l b : ℕ} :
    (c.overlay g mem).line l = some b ↔ c.shown g l = true ∧ c.block g l = b := by
  simp [overlay]

section Hits

variable (hg : g.Pow2)

include hg

theorem lineIdx_div (a : BitVec 32) {n : ℕ} (hn : n < g.ways) : g.lineIdx a n / g.ways = g.setIdx a := by
  rw [CacheGeometry.lineIdx, Nat.mul_comm, Nat.mul_add_div hg.ways_pos, Nat.div_eq_of_lt hn]
  rfl

theorem tag_eq_iff (a : BitVec 32) {n : ℕ} (hn : n < g.ways) :
    c.tagArr (g.lineIdx a n) = g.tagOf a ↔ c.block g (g.lineIdx a n) = g.blockOf a := by
  rw [block, lineIdx_div hg a hn, ← hg.tag_set_eq a]
  constructor
  · intro h
    rw [h]
  · intro h
    exact Nat.eq_of_mul_eq_mul_right hg.numSets_pos (Nat.add_right_cancel h)

/-- A line that holds the block of `a` is one of the ways of its set. -/
theorem exists_way {l : ℕ} {a : BitVec 32} (hl : l < g.numSets * g.ways)
    (hb : c.block g l = g.blockOf a) : ∃ n < g.ways, l = g.lineIdx a n := by
  have hset : l / g.ways = g.setIdx a := by
    have hlt : l / g.ways < g.numSets := Nat.div_lt_of_lt_mul (by rwa [Nat.mul_comm])
    rw [hg.setIdx_eq, ← hb, block, Nat.mul_comm, Nat.mul_add_mod, Nat.mod_eq_of_lt hlt]
  refine ⟨l % g.ways, Nat.mod_lt _ hg.ways_pos, ?_⟩
  rw [CacheGeometry.lineIdx, ← hset]
  exact (Nat.div_add_mod' l g.ways).symm

theorem wayHit_iff {n : ℕ} (hn : n < g.ways) : c.wayHit g q n = true ↔
    c.valid (g.lineIdx q.addr n) = true ∧ c.block g (g.lineIdx q.addr n) = g.blockOf q.addr := by
  rw [wayHit, Bool.and_eq_true, beq_iff_eq, tag_eq_iff hg q.addr hn]

theorem hit_iff (hc : c.WellPlaced g) :
    c.hit g q = true ↔ ∃ l, c.valid l = true ∧ c.block g l = g.blockOf q.addr := by
  simp only [hit, List.any_eq_true, List.mem_range]
  constructor
  · rintro ⟨n, hn, h⟩
    exact ⟨_, (wayHit_iff hg hn).1 h⟩
  · rintro ⟨l, hv, hb⟩
    obtain ⟨n, hn, rfl⟩ := exists_way hg (hc.lt l hv) hb
    exact ⟨n, hn, (wayHit_iff hg hn).2 ⟨hv, hb⟩⟩

/-- The hitting line and its word. -/
theorem hit_spec (hc : c.WellPlaced g) {l : ℕ} (hv : c.valid l = true)
    (hb : c.block g l = g.blockOf q.addr) :
    c.hitLineIdx g q = l ∧
      c.hitData g q = c.dataArr (l * g.lineWords + g.wordOff q.addr) := by
  obtain ⟨n₀, hn₀, rfl⟩ := exists_way hg (hc.lt l hv) hb
  have hhit : c.wayHit g q n₀ = true := (wayHit_iff hg hn₀).2 ⟨hv, hb⟩
  have hmiss : ∀ n < g.ways, n ≠ n₀ → c.wayHit g q n = false := by
    intro n hn hne
    by_contra h
    obtain ⟨hv', hb'⟩ := (wayHit_iff hg hn).1 (Bool.eq_true_of_not_eq_false h)
    have := hc.unique _ _ hv' hv (hb'.trans hb.symm)
    simp only [CacheGeometry.lineIdx] at this
    omega
  constructor
  · rw [hitLineIdx, foldl_single (by simp) (by simp) _ g.ways hn₀ fun n hn hne ↦ by
      simp [hmiss n hn hne]]
    simp [hhit]
  · rw [hitData, foldl_single (by simp) (by simp) _ g.ways hn₀ fun n hn hne ↦ by
      simp [hmiss n hn hne]]
    simp [hhit]

theorem view_eq (hc : c.WellPlaced g) {gold : ℕ → BitVec 32}
    (h : (c.overlay g mem).Represents (blocks g.lineWords gold)) (a : BitVec 32) :
    c.view g mem a = gold (wordIdx a) := by
  have hword := hg.wordIdx_eq a
  rw [view]
  split
  next n hfind =>
    have hn : n < g.ways := List.mem_range.1 (List.mem_of_find?_eq_some hfind)
    have hshown := List.find?_some hfind
    rw [Bool.and_eq_true, beq_iff_eq, tag_eq_iff hg a hn] at hshown
    have hheld := h.held _ _ (overlay_line_eq_some.2 hshown)
    rw [hword]
    exact congrFun hheld ⟨g.wordOff a, hg.wordOff_lt a⟩
  next hfind =>
    have hrest := h.rest (g.blockOf a) fun l hl ↦ by
      obtain ⟨hshown, hb⟩ := overlay_line_eq_some.1 hl
      have hv : c.valid l = true := (Bool.and_eq_true_iff.1 hshown).1
      obtain ⟨n, hn, rfl⟩ := exists_way hg (hc.lt l hv) hb
      refine List.find?_eq_none.1 hfind n (List.mem_range.2 hn) ?_
      rw [hshown, Bool.true_and, beq_iff_eq]
      exact (tag_eq_iff hg a hn).2 hb
    rw [hword]
    exact congrFun hrest ⟨g.wordOff a, hg.wordOff_lt a⟩

end Hits

/-- Lines come in through a fill only. -/
theorem step_valid {mDataI : BitVec 32} {mAck flushAll : Bool} {l : ℕ}
    (h : (c.step g q mDataI mAck flushAll).valid l = true) :
    (c.valid l = true ∧ (c.step g q mDataI mAck flushAll).tagArr l = c.tagArr l) ∨
      (c.state = .fill ∧ l = c.fillLine g ∧
        (c.step g q mDataI mAck flushAll).tagArr l = c.missTag) := by
  cases hs : c.state with
  | idle =>
    left
    simp only [step, hs, stepIdle, beginMiss] at h ⊢
    split_ifs at h ⊢ <;> exact ⟨h, rfl⟩
  | hitRd =>
    left
    simp only [step, hs] at h ⊢
    exact ⟨h, trivial⟩
  | wb =>
    left
    simp only [step, hs, stepWb, advanceScan] at h ⊢
    split_ifs at h ⊢ <;> exact ⟨h, rfl⟩
  | fill =>
    simp only [step, hs, stepFill] at h ⊢
    split_ifs at h ⊢ with hack hlast
    · by_cases hl : l = c.missSet * g.ways + c.missWay
      · exact .inr ⟨trivial, hl, by simp [setCell, hl]⟩
      · exact .inl ⟨by simpa [setCell, hl] using h, by simp [setCell, hl]⟩
    · exact .inl ⟨h, rfl⟩
    · exact .inl ⟨h, rfl⟩
  | flushScan =>
    left
    simp only [step, hs, advanceScan] at h ⊢
    split_ifs at h ⊢ <;> exact ⟨h, rfl⟩

/-- A hit is registered from idle, for a load. -/
theorem step_hitRd {mDataI : BitVec 32} {mAck flushAll : Bool}
    (h : (c.step g q mDataI mAck flushAll).state = .hitRd) :
    c.hit g q = true ∧ q.active = true ∧ q.write = false ∧
      c.step g q mDataI mAck flushAll =
        { c with
          flushDone := false, hitLine := c.hitLineIdx g q, hitWord := g.wordOff q.addr
          hitFunct3 := q.funct3, hitByteoff := q.addr.setWidth 2, state := .hitRd
          servedAddr := q.addr } := by
  cases hs : c.state with
  | idle =>
    simp only [step, hs, stepIdle, beginMiss] at h ⊢
    split_ifs at h ⊢ with hflush hactive hhit hwrite hdirty
    exact ⟨hhit, hactive, by simpa using hwrite, rfl⟩
  | hitRd => simp [step, hs] at h
  | wb =>
    simp only [step, hs, stepWb, advanceScan] at h
    split_ifs at h
  | fill =>
    simp only [step, hs, stepFill] at h
    split_ifs at h
  | flushScan =>
    simp only [step, hs, advanceScan] at h
    split_ifs at h

/-! ## The invariant -/

section Phases

variable (g : CacheGeometry) (c : DCache 32) (q : DCacheReq 32) (mem gold : ℕ → BitVec 32)

/-- The memory behind the cache in one cycle: a write-back reaches it by the time it is
acknowledged, a fill word is what it holds, and nothing else changes it. -/
structure Backs (mDataI : BitVec 32) (mAck : Bool) (mem mem' : ℕ → BitVec 32) : Prop where
  kept : ∀ x, ¬(c.state = .wb ∧ x = wordIdx (c.busReq g).addr) → mem' x = mem x
  written : c.state = .wb → mAck = true → mem' (wordIdx (c.busReq g).addr) = (c.busReq g).data
  read : c.state = .fill → mAck = true → mDataI = mem (wordIdx (c.busReq g).addr)

/-- `wb_line_r` is on its way to the memory. -/
structure WritingBack : Prop where
  valid : c.valid c.wbLine = true
  dirty : c.dirty c.wbLine = true
  base : c.wbBase = c.lineBaseOf g c.wbLine
  lt : c.fillWord < g.lineWords
  done : ∀ i < c.fillWord,
    mem (c.block g c.wbLine * g.lineWords + i) = c.dataArr (c.wbLine * g.lineWords + i)

/-- The miss registers have the request, which no line holds. -/
structure Missed : Prop where
  active : q.active = true
  set : c.missSet = g.setIdx q.addr
  way : c.missWay < g.ways
  tag : c.missTag = g.tagOf q.addr
  base : c.missBase = g.lineBase q.addr
  wordOff : c.missWordOff = g.wordOff q.addr
  byteoff : c.missByteoff = q.addr.setWidth 2
  funct3 : c.missFunct3 = q.funct3
  isWrite : c.missIsWrite = q.write
  wdata : c.missWdata = q.wdata
  origAddr : c.missOrigAddr = q.addr
  absent : ∀ l, c.valid l = true → c.block g l ≠ g.blockOf q.addr

/-- The words filled so far, with the store merged in. -/
structure Filling : Prop where
  lt : c.fillWord < g.lineWords
  done : ∀ i < c.fillWord, c.dataArr (c.fillLine g * g.lineWords + i) =
    (if q.write then q.storeTo gold else gold) (g.blockOf q.addr * g.lineWords + i)

/-- The lines the flush has passed are clean. -/
def Scanned : Prop := c.flushScan < g.numSets * g.ways ∧
  ∀ l < c.flushScan, c.valid l = true → c.dirty l = false

/-- What the state of the FSM means. -/
def Phase : Prop :=
  match c.state with
  | .idle => True
  | .hitRd => (q.read && q.write) = false
  | .wb => c.WritingBack g mem ∧
      if c.wbReturnToFlush then c.wbLine = c.flushScan ∧ c.Scanned g
      else c.wbLine = c.fillLine g ∧ c.Missed g q
  | .fill => c.Missed g q ∧ c.Filling g q gold
  | .flushScan => c.Scanned g

/-- `gold` is the memory the cache and what is behind it stand for. -/
structure Inv : Prop where
  placed : c.WellPlaced g
  shows : (c.overlay g mem).Represents (blocks g.lineWords gold)
  phase : c.Phase g q mem gold
  flushed : c.flushDone = true → c.state = .idle ∧ ∀ l, c.valid l = true → c.dirty l = false

/-- The memory with the store that is acknowledged in this cycle. -/
def stored (mAck : Bool) : ℕ → BitVec 32 :=
  if q.write && c.respReady g q mAck then q.storeTo gold else gold

/-- What the next cycle may ask for: a request that is not served stays, except a load that hits. -/
def Follows (mAck : Bool) (q' : DCacheReq 32) : Prop :=
  q.active = true → c.respReady g q mAck = false →
    q' = q ∨ c.state = .idle ∧ c.hit g q = true ∧ (q'.read && q'.write) = false

end Phases

theorem Follows.eq_of_ne_idle {mAck : Bool} {q' : DCacheReq 32} (h : c.Follows g q mAck q')
    (hs : c.state ≠ .idle) (hactive : q.active = true) (hready : c.respReady g q mAck = false) :
    q' = q :=
  (h hactive hready).resolve_right fun hidle ↦ hs hidle.1

theorem stored_of_not_ready {mAck : Bool} {gold : ℕ → BitVec 32}
    (h : c.respReady g q mAck = false) : c.stored g q gold mAck = gold := by
  simp [stored, h]

theorem stored_of_not_write {mAck : Bool} {gold : ℕ → BitVec 32} (h : q.write = false) :
    c.stored g q gold mAck = gold := by
  simp [stored, h]

theorem blocks_storeTo (hg : g.Pow2) (gold : ℕ → BitVec 32) :
    blocks g.lineWords (q.storeTo gold) = writeWord (blocks g.lineWords gold) (g.blockOf q.addr)
      ⟨g.wordOff q.addr, hg.wordOff_lt q.addr⟩
      (mergeWrite (gold (wordIdx q.addr)) (q.funct3.extractLsb' 0 2) (q.addr.setWidth 2)
        q.wdata) := by
  rw [← blocks_setCell, ← hg.wordIdx_eq]
  rfl

theorem WellPlaced.congr (h : c.WellPlaced g) (hvalid : c'.valid = c.valid)
    (htag : c'.tagArr = c.tagArr) (hvictim : c'.victim = c.victim) : c'.WellPlaced g := by
  have hblock : c'.block g = c.block g := by
    funext l
    rw [block, htag, block]
  constructor
  · rw [hvalid]
    exact h.lt
  · rw [hvalid, hblock]
    exact h.addr
  · rw [hvalid, hblock]
    exact h.unique
  · rw [hvictim]
    exact h.victim

namespace Inv

variable {q' : DCacheReq 32} {mem' gold : ℕ → BitVec 32} {mDataI : BitVec 32} {mAck flushAll : Bool}

/-- Steps that leave the arrays alone. -/
theorem congr (h : c.Inv g q mem gold) (hs : c.state ≠ .fill) (hs' : c'.state ≠ .fill)
    (hvalid : c'.valid = c.valid) (htag : c'.tagArr = c.tagArr) (hdirty : c'.dirty = c.dirty)
    (hdata : c'.dataArr = c.dataArr) (hvictim : c'.victim = c.victim)
    (hphase : c'.Phase g q' mem gold)
    (hflushed : c'.flushDone = true → c'.state = .idle ∧ ∀ l, c'.valid l = true → c'.dirty l = false) :
    c'.Inv g q' mem gold where
  placed := h.placed.congr hvalid htag hvictim
  shows := by
    rw [overlay_congr hs hs' hvalid htag hdirty hdata]
    exact h.shows
  phase := hphase
  flushed := hflushed

/-- A fill begins in a line that has nothing the memory does not have. -/
theorem startFill (hg : g.Pow2) (h : c.Inv g q mem gold) (hs : c.state ≠ .fill)
    (hs' : c'.state = .fill) (hvalid : c'.valid = c.valid) (htag : c'.tagArr = c.tagArr)
    (hdirty : c'.dirty = c.dirty) (hdata : c'.dataArr = c.dataArr) (hvictim : c'.victim = c.victim)
    (hclean : c.valid (c'.fillLine g) = true → c.dirty (c'.fillLine g) = false)
    (hmissed : c'.Missed g q') (hzero : c'.fillWord = 0) (hdone : c'.flushDone = false) :
    c'.Inv g q' mem gold := by
  refine ⟨h.placed.congr hvalid htag hvictim, ?_, ?_, fun hd ↦ absurd (hdone.symm.trans hd) (by simp)⟩
  · rw [overlay_of_fill hs hs' hvalid htag hdirty hdata]
    refine h.shows.drop fun hl ↦ hclean ?_
    by_contra hv
    exact hl (by simp [overlay, shown, hv])
  · simp only [Phase, hs']
    refine ⟨hmissed, by rw [hzero]; exact hg.lineWords_pos, fun i hi ↦ ?_⟩
    rw [hzero] at hi
    exact absurd hi (Nat.not_lt_zero i)

section Idle

variable (hg : g.Pow2) (h : c.Inv g q mem gold) (hs : c.state = .idle)

include hg h hs

theorem store_hit (hhit : c.hit g q = true) (q' : DCacheReq 32) :
    { c with
      flushDone := false
      dataArr := setCell c.dataArr (c.hitLineIdx g q * g.lineWords + g.wordOff q.addr)
        (mergeWrite (c.hitData g q) (q.funct3.extractLsb' 0 2) (q.addr.setWidth 2)
          (q.wdata.setWidth 32))
      dirty := setCell c.dirty (c.hitLineIdx g q) true }.Inv g q' mem (q.storeTo gold) := by
  obtain ⟨l, hv, hb⟩ := (hit_iff hg h.placed).1 hhit
  obtain ⟨hline, hdata⟩ := hit_spec hg h.placed hv hb
  have hl : (c.overlay g mem).line l = some (g.blockOf q.addr) :=
    overlay_line_eq_some.2 ⟨by rw [shown_eq_valid (by simp [hs]), hv], hb⟩
  -- the old word is the one of `gold`, since the line shows its block
  have hword : c.hitData g q = gold (wordIdx q.addr) := by
    rw [hdata, hg.wordIdx_eq]
    exact congrFun (h.shows.held l _ hl) ⟨g.wordOff q.addr, hg.wordOff_lt q.addr⟩
  refine ⟨h.placed.congr rfl rfl rfl, ?_, ?_, fun hd ↦ absurd hd (by simp)⟩
  · have hstore := h.shows.store hl ⟨g.wordOff q.addr, hg.wordOff_lt q.addr⟩
      (mergeWrite (gold (wordIdx q.addr)) (q.funct3.extractLsb' 0 2) (q.addr.setWidth 2) q.wdata)
    rw [← blocks_storeTo hg] at hstore
    convert hstore using 1
    rw [hline, hword, BitVec.setWidth_eq]
    simp only [overlay, Overlay.store, setCell_eq_update c.dirty, ← blocks_setCell]
    rfl
  · simp [Phase, hs]

theorem beginMiss (hmiss : c.hit g q = false) (hactive : q.active = true) :
    (c.beginMiss g q).Inv g q mem gold := by
  have habsent : ∀ l, c.valid l = true → c.block g l ≠ g.blockOf q.addr := by
    intro l hv hb
    rw [(hit_iff hg h.placed).2 ⟨l, hv, hb⟩] at hmiss
    exact absurd hmiss (by simp)
  have hmissed : ∀ c' : DCache 32, c'.missSet = g.setIdx q.addr → c'.missTag = g.tagOf q.addr →
      c'.missWay = c.victim (g.setIdx q.addr) → c'.missBase = g.lineBase q.addr →
      c'.missWordOff = g.wordOff q.addr → c'.missByteoff = q.addr.setWidth 2 →
      c'.missFunct3 = q.funct3 → c'.missIsWrite = q.write → c'.missWdata = q.wdata →
      c'.missOrigAddr = q.addr → c'.valid = c.valid → c'.tagArr = c.tagArr → c'.Missed g q := by
    intro c' h₁ h₂ h₃ h₄ h₅ h₆ h₇ h₈ h₉ h₁₀ hvalid htag
    refine ⟨hactive, h₁, ?_, h₂, h₄, h₅, h₆, h₇, h₈, h₉, h₁₀, ?_⟩
    · rw [h₃]
      exact h.placed.victim _
    · intro l hv
      rw [block, htag]
      exact habsent l (hvalid ▸ hv)
  rw [DCache.beginMiss]
  split_ifs with hdirty
  · rw [Bool.and_eq_true] at hdirty
    refine h.congr (by simp [hs]) (by simp) rfl rfl rfl rfl rfl ?_ fun hd ↦ absurd hd (by simp)
    refine ⟨⟨hdirty.1, hdirty.2, rfl, hg.lineWords_pos, fun i hi ↦ absurd hi (Nat.not_lt_zero i)⟩, ?_⟩
    exact ⟨rfl, hmissed _ rfl rfl rfl rfl rfl rfl rfl rfl (BitVec.setWidth_eq _) rfl rfl rfl⟩
  · refine h.startFill hg (by simp [hs]) rfl rfl rfl rfl rfl rfl (fun hv ↦ ?_) ?_ rfl rfl
    · have hv' : c.valid (g.lineIdx q.addr (c.victim (g.setIdx q.addr))) = true := hv
      change c.dirty (g.lineIdx q.addr (c.victim (g.setIdx q.addr))) = false
      simpa [hv'] using hdirty
    · exact hmissed _ rfl rfl rfl rfl rfl rfl rfl rfl (BitVec.setWidth_eq _) rfl rfl rfl

end Idle

/-- The scan goes on from a line that is clean now. -/
theorem advanceScan (hg : g.Pow2) (h : c.Inv g q mem gold) (hs : c.state ≠ .fill)
    (hscan : c.Scanned g) (hclean : c.valid c.flushScan = true → c.dirty c.flushScan = false)
    (q' : DCacheReq 32) : (c.advanceScan g).Inv g q' mem gold := by
  have hall : ∀ l < c.flushScan + 1, c.valid l = true → c.dirty l = false := by
    intro l hl hv
    rcases Nat.lt_or_ge l c.flushScan with hlt | hge
    · exact hscan.2 l hlt hv
    · obtain rfl : l = c.flushScan := by omega
      exact hclean hv
  rw [DCache.advanceScan]
  split_ifs with hlast
  · refine h.congr hs (by simp) rfl rfl rfl rfl rfl trivial fun _ ↦ ⟨rfl, fun l hv ↦ ?_⟩
    have hlt := h.placed.lt l hv
    have hle : g.numSets * g.ways ≤ g.numLines := Nat.div_mul_le_self _ _
    exact hall l (by omega) hv
  · refine h.congr hs (by simp) rfl rfl rfl rfl rfl ?_ fun hd ↦ absurd hd (by simp)
    change Scanned g _
    have hpos : 0 < g.numSets * g.ways := Nat.mul_pos hg.numSets_pos hg.ways_pos
    rw [Scanned, hg.two_pow_lineIdxBits]
    refine ⟨Nat.mod_lt _ hpos, fun l hl hv ↦ hall l ?_ hv⟩
    exact lt_of_lt_of_le hl (Nat.mod_le _ _)

theorem writingBack (h : c.Inv g q mem gold) (hs : c.state = .wb) : c.WritingBack g mem := by
  have hphase := h.phase
  simp only [Phase, hs] at hphase
  exact hphase.1

section Wb

variable (hg : g.Pow2) (h : c.Inv g q mem gold) (hs : c.state = .wb)
  (hmem : c.Backs g mDataI mAck mem mem')

include hg h hs

theorem wb_toNat :
    (c.busReq g).addr.toNat = 4 * (c.block g c.wbLine * g.lineWords + c.fillWord) := by
  have hwb := h.writingBack hs
  have hlt := h.placed.lt _ hwb.valid
  have hset : c.wbLine / g.ways < g.numSets := Nat.div_lt_of_lt_mul (by rwa [Nat.mul_comm])
  rw [← hg.toNat_bus (h.placed.addr _ hwb.valid) hwb.lt]
  simp only [busReq, hs, if_true, hwb.base, lineBaseOf, hg.two_pow_setBits, hg.two_pow_offsetBits,
    Nat.mod_eq_of_lt hset, block]

theorem wb_addr : wordIdx (c.busReq g).addr = c.block g c.wbLine * g.lineWords + c.fillWord := by
  rw [wordIdx, h.wb_toNat hg hs]
  omega

include hmem

/-- A write-back stays below its line. -/
theorem wb_mem : c.Inv g q mem' gold := by
  have hwb := h.writingBack hs
  have haddr := h.wb_addr hg hs
  refine ⟨h.placed, ?_, ?_, h.flushed⟩
  · refine h.shows.withMem (l := c.wbLine) (b := c.block g c.wbLine) ?_ hwb.dirty fun b' hb ↦ ?_
    · exact overlay_line_eq_some.2 ⟨by rw [shown_eq_valid (by simp [hs]), hwb.valid], rfl⟩
    · funext i
      refine hmem.kept _ fun hx ↦ hb ?_
      rw [haddr] at hx
      exact (mul_add_inj i.isLt hwb.lt hx.2).1
  · have hphase := h.phase
    simp only [Phase, hs] at hphase ⊢
    refine ⟨⟨hwb.valid, hwb.dirty, hwb.base, hwb.lt, fun i hi ↦ ?_⟩, hphase.2⟩
    rw [hmem.kept, hwb.done i hi]
    rw [haddr]
    omega

theorem wb_written (hack : mAck = true) {i : ℕ} (hi : i < c.fillWord + 1) :
    mem' (c.block g c.wbLine * g.lineWords + i) = c.dataArr (c.wbLine * g.lineWords + i) := by
  rcases Nat.lt_or_ge i c.fillWord with hlt | hge
  · exact ((h.wb_mem hg hs hmem).writingBack hs).done i hlt
  · obtain rfl : i = c.fillWord := by omega
    rw [← h.wb_addr hg hs, hmem.written hs hack]
    simp [busReq, hs]

/-- After the last word the line is clean. -/
theorem wb_clean (hack : mAck = true) (hlast : c.isLastWord g = true) :
    { c with
      dirty := setCell c.dirty c.wbLine false, state := .idle
      flushDone := false }.Inv g q mem' gold := by
  have hwb := h.writingBack hs
  have hlast' : c.fillWord + 1 = g.lineWords := by simpa [isLastWord] using hlast
  have hmem' := h.wb_mem hg hs hmem
  refine ⟨h.placed.congr rfl rfl rfl, ?_, trivial, fun hd ↦ absurd hd (by simp)⟩
  have hwash := hmem'.shows.wash (l := c.wbLine) (b := c.block g c.wbLine)
    (overlay_line_eq_some.2 ⟨by rw [shown_eq_valid (by simp [hs]), hwb.valid], rfl⟩)
    (funext fun i ↦ h.wb_written hg hs hmem hack (by rw [hlast']; exact i.isLt))
  convert hwash using 1
  simp [overlay, Overlay.wash, shown, hs, setCell_eq_update, block]

theorem stepWb (hheld : q.active = true → q' = q) : (c.stepWb g mAck).Inv g q' mem' gold := by
  have hmem' := h.wb_mem hg hs hmem
  have hwb := hmem'.writingBack hs
  have hphase := hmem'.phase
  simp only [Phase, hs] at hphase
  have hmissed : c.wbReturnToFlush = false → c.wbLine = c.fillLine g ∧ c.Missed g q' := by
    intro hret
    rw [hret] at hphase
    obtain ⟨-, hline, hmiss⟩ := hphase
    rw [hheld hmiss.active]
    exact ⟨hline, hmiss⟩
  rw [DCache.stepWb]
  split_ifs with hack hlast hret
  · -- the flush goes on
    rw [if_pos hret] at hphase
    obtain ⟨-, hline, hscan⟩ := hphase
    have hclean := h.wb_clean hg hs hmem hack hlast
    have hpassed : ∀ l < c.flushScan, c.valid l = true →
        setCell c.dirty c.wbLine false l = false := by
      intro l hl hv
      simp only [setCell]
      split_ifs
      · rfl
      · exact hscan.2 l hl hv
    have hnext := hclean.advanceScan hg (by simp) ⟨hscan.1, hpassed⟩
      (fun _ ↦ by simp [setCell, hline]) q'
    exact hnext
  · -- the fill begins
    obtain ⟨hline, hmiss⟩ := hmissed (by simpa using hret)
    refine (h.wb_clean hg hs hmem hack hlast).startFill hg (by simp) rfl rfl rfl rfl rfl rfl
      (fun _ ↦ ?_) ?_ rfl rfl
    · change setCell c.dirty c.wbLine false (c.fillLine g) = false
      simp [setCell, hline]
    · exact { hmiss with }
  · refine hmem'.congr (by simp [hs]) (by simp [hs]) rfl rfl rfl rfl rfl ?_
      fun hd ↦ absurd hd (by simp)
    have hne : c.fillWord + 1 ≠ g.lineWords := by simpa [isLastWord] using hlast
    simp only [Phase, hs]
    refine ⟨⟨hwb.valid, hwb.dirty, hwb.base, Nat.lt_of_le_of_ne hwb.lt hne, fun i hi ↦
      h.wb_written hg hs hmem hack hi⟩, ?_⟩
    split_ifs with hret
    · rw [if_pos hret] at hphase
      exact hphase.2
    · obtain ⟨hline, hmiss⟩ := hmissed (by simpa using hret)
      exact ⟨hline, { hmiss with }⟩
  · refine hmem'.congr (by simp [hs]) (by simp [hs]) rfl rfl rfl rfl rfl ?_
      fun hd ↦ absurd hd (by simp)
    simp only [Phase, hs]
    refine ⟨{ hwb with }, ?_⟩
    split_ifs with hret
    · rw [if_pos hret] at hphase
      exact hphase.2
    · obtain ⟨hline, hmiss⟩ := hmissed (by simpa using hret)
      exact ⟨hline, { hmiss with }⟩

end Wb

section Fill

variable (hg : g.Pow2) (h : c.Inv g q mem gold) (hs : c.state = .fill)

include h hs

theorem missed : c.Missed g q ∧ c.Filling g q gold := by
  have hphase := h.phase
  simpa only [Phase, hs] using hphase

/-- No line shows the block that is on its way. -/
theorem fill_absent (l : ℕ) : (c.overlay g mem).line l ≠ some (g.blockOf q.addr) := by
  intro hl
  obtain ⟨hshown, hb⟩ := overlay_line_eq_some.1 hl
  exact (h.missed hs).1.absent l (Bool.and_eq_true_iff.1 hshown).1 hb

/-- The last fill beat answers the request. -/
theorem fill_respReady (mAck : Bool) : c.respReady g q mAck = (mAck && c.isLastWord g) := by
  obtain ⟨hmiss, -⟩ := h.missed hs
  have hactive : (q.read || q.write) = true := hmiss.active
  simp [respReady, hitRdResponds, fillResponds, hs, hactive, hmiss.origAddr]

/-- A fill beat writes above a line that is not shown. -/
theorem fill_beat (v : BitVec 32) :
    ({ c with
      flushDone := false
      dataArr := setCell c.dataArr (c.fillLine g * g.lineWords + c.fillWord) v }.overlay g mem
      ).Represents (blocks g.lineWords gold) := by
  obtain ⟨-, hfill⟩ := h.missed hs
  convert h.shows.fill (fillLine_hidden hs) ⟨c.fillWord, hfill.lt⟩ v using 1
  simp only [overlay, Overlay.fill, ← blocks_setCell]
  rfl

include hg

theorem fill_block : c.missTag * g.numSets + c.fillLine g / g.ways = g.blockOf q.addr := by
  obtain ⟨hmiss, -⟩ := h.missed hs
  rw [hmiss.tag, fillLine, hmiss.set, ← hg.tag_set_eq]
  congr 1
  exact lineIdx_div hg q.addr hmiss.way

theorem fill_toNat :
    (c.busReq g).addr.toNat = 4 * (g.blockOf q.addr * g.lineWords + c.fillWord) := by
  obtain ⟨hmiss, hfill⟩ := h.missed hs
  rw [← hg.toNat_bus (CacheGeometry.blockOf_lt q.addr) hfill.lt, ← hg.lineBase_eq, ← hmiss.base]
  simp [busReq, hs]

theorem fill_addr :
    wordIdx (c.busReq g).addr = g.blockOf q.addr * g.lineWords + c.fillWord := by
  rw [wordIdx, h.fill_toNat hg hs]
  omega

/-- The word a fill beat writes is the one the block has after the store. -/
theorem fillValue_eq (hread : mDataI = mem (wordIdx (c.busReq g).addr)) :
    c.fillValue mDataI = (if q.write then q.storeTo gold else gold)
      (g.blockOf q.addr * g.lineWords + c.fillWord) := by
  obtain ⟨hmiss, hfill⟩ := h.missed hs
  have hword : mDataI = gold (g.blockOf q.addr * g.lineWords + c.fillWord) := by
    rw [hread, h.fill_addr hg hs]
    exact congrFun (h.shows.rest _ (h.fill_absent hs)) ⟨c.fillWord, hfill.lt⟩
  have hidx := hg.wordIdx_eq q.addr
  simp only [fillValue, hmiss.isWrite, hmiss.wordOff, hmiss.funct3, hmiss.byteoff, hmiss.wdata,
    BitVec.setWidth_eq, Bool.and_eq_true, beq_iff_eq, hword]
  cases q.write with
  | false => simp
  | true =>
    simp only [true_and, if_true, DCacheReq.storeTo, setCell, hidx]
    by_cases hoff : c.fillWord = g.wordOff q.addr
    · rw [if_pos hoff, if_pos (by rw [hoff]), hoff]
    · rw [if_neg hoff, if_neg (by omega)]

theorem fill_data (hread : mDataI = mem (wordIdx (c.busReq g).addr)) {i : ℕ}
    (hi : i < c.fillWord + 1) :
    setCell c.dataArr (c.fillLine g * g.lineWords + c.fillWord) (c.fillValue mDataI)
        (c.fillLine g * g.lineWords + i) =
      (if q.write then q.storeTo gold else gold) (g.blockOf q.addr * g.lineWords + i) := by
  rcases Nat.lt_or_ge i c.fillWord with hlt | hge
  · rw [setCell, if_neg (by omega)]
    exact (h.missed hs).2.done i hlt
  · obtain rfl : i = c.fillWord := by omega
    rw [setCell, if_pos rfl]
    exact h.fillValue_eq hg hs hread

/-- The line takes its block. -/
theorem fill_last (hread : mDataI = mem (wordIdx (c.busReq g).addr))
    (hlast : c.isLastWord g = true) (q' : DCacheReq 32) :
    { c with
      flushDone := false
      dataArr := setCell c.dataArr (c.fillLine g * g.lineWords + c.fillWord) (c.fillValue mDataI)
      valid := setCell c.valid (c.fillLine g) true
      tagArr := setCell c.tagArr (c.fillLine g) c.missTag
      dirty := setCell c.dirty (c.fillLine g) c.missIsWrite
      victim := setCell c.victim c.missSet (g.nextWay c.missWay)
      state := .idle }.Inv g q' mem (if q.write then q.storeTo gold else gold) := by
  obtain ⟨hmiss, hfill⟩ := h.missed hs
  have hlast' : c.fillWord + 1 = g.lineWords := by simpa [isLastWord] using hlast
  have hblock : ∀ l, setCell c.tagArr (c.fillLine g) c.missTag l * g.numSets + l / g.ways =
      if l = c.fillLine g then g.blockOf q.addr else c.block g l := by
    intro l
    simp only [setCell]
    split_ifs with hl
    · rw [hl, h.fill_block hg hs]
    · rfl
  refine ⟨⟨?_, ?_, ?_, ?_⟩, ?_, trivial, fun hd ↦ absurd hd (by simp)⟩
  · intro l hv
    simp only [setCell] at hv
    split_ifs at hv with hl
    · rw [hl, fillLine, hmiss.set]
      calc g.setIdx q.addr * g.ways + c.missWay
          < g.setIdx q.addr * g.ways + g.ways := Nat.add_lt_add_left hmiss.way _
        _ = (g.setIdx q.addr + 1) * g.ways := by ring
        _ ≤ g.numSets * g.ways := Nat.mul_le_mul_right _ (hg.setIdx_lt q.addr)
    · exact h.placed.lt l hv
  · intro l hv
    simp only [block, hblock]
    split_ifs with hl
    · exact CacheGeometry.blockOf_lt q.addr
    · exact h.placed.addr l (by simpa [setCell, hl] using hv)
  · intro l l' hv hv'
    simp only [block, hblock]
    simp only [setCell] at hv hv'
    split_ifs at hv hv' ⊢ with hl hl' hl'
    · exact fun _ ↦ hl.trans hl'.symm
    · exact fun hb ↦ absurd hb.symm (hmiss.absent l' hv')
    · exact fun hb ↦ absurd hb (hmiss.absent l hv)
    · exact h.placed.unique l l' hv hv'
  · intro set
    simp only [setCell]
    split_ifs
    · rw [CacheGeometry.nextWay]
      have := hmiss.way
      split_ifs <;> omega
    · exact h.placed.victim set
  · have hinstall := (h.fill_beat hs (c.fillValue mDataI)).install
      (blocks g.lineWords (if q.write then q.storeTo gold else gold)) (l := c.fillLine g)
      (b := g.blockOf q.addr) (d := c.missIsWrite) (fillLine_hidden hs) (h.fill_absent hs)
      (funext fun i ↦ h.fill_data hg hs hread (by rw [hlast']; exact i.isLt))
      (fun b' hb ↦ ?_) fun hw ↦ ?_
    · convert hinstall using 1
      simp only [overlay, Overlay.install, Overlay.mk.injEq, setCell_eq_update c.dirty, and_true]
      funext l
      simp only [block, hblock, shown, hs]
      rcases eq_or_ne l (c.fillLine g) with rfl | hne
      · simp [setCell]
      · have hne' : l ≠ c.missSet * g.ways + c.missWay := hne
        simp [setCell, hne', fillLine]
    · split_ifs
      · rw [blocks_storeTo hg, writeWord_of_ne _ hb]
      · rfl
    · rw [hmiss.isWrite] at hw
      simp [hw]

theorem stepFill (hread : mAck = true → mDataI = mem (wordIdx (c.busReq g).addr))
    (hnext : c.Follows g q mAck q') :
    (c.stepFill g mDataI mAck).Inv g q' mem (c.stored g q gold mAck) := by
  obtain ⟨hmiss, hfill⟩ := h.missed hs
  have hheld := hnext.eq_of_ne_idle (by simp [hs]) hmiss.active
  have hready := h.fill_respReady hs mAck
  have hstored : c.stored g q gold mAck =
      if (mAck && c.isLastWord g) && q.write then q.storeTo gold else gold := by
    rw [stored, hready, Bool.and_comm]
  have hline : c.missSet * g.ways + c.missWay = c.fillLine g := rfl
  simp only [DCache.stepFill, hline]
  split_ifs with hack hlast
  · have hdone := h.fill_last hg hs (hread hack) hlast q'
    rw [hstored, hack, hlast]
    exact hdone
  · have hready' : (mAck && c.isLastWord g) = false := by simp [hlast]
    rw [hready, hready'] at hheld
    rw [hstored, hready', hheld rfl]
    have hne : c.fillWord + 1 ≠ g.lineWords := by simpa [isLastWord] using hlast
    refine ⟨h.placed.congr rfl rfl rfl, h.fill_beat hs _, ?_, fun hd ↦ absurd hd (by simp)⟩
    simp only [Phase, hs]
    exact ⟨{ hmiss with }, Nat.lt_of_le_of_ne hfill.lt hne, fun i hi ↦
      h.fill_data hg hs (hread hack) hi⟩
  · have hready' : (mAck && c.isLastWord g) = false := by simp [hack]
    rw [hready, hready'] at hheld
    rw [hstored, hready', hheld rfl]
    refine ⟨h.placed.congr rfl rfl rfl, h.shows, ?_, fun hd ↦ absurd hd (by simp)⟩
    simp only [Phase, hs]
    exact ⟨{ hmiss with }, { hfill with }⟩

end Fill

theorem stepIdle (hg : g.Pow2) (h : c.Inv g q mem gold) (hs : c.state = .idle)
    (hnext : c.Follows g q mAck q') (hexcl : q.active = true → flushAll = false) :
    (c.stepIdle g q flushAll).Inv g q' mem (c.stored g q gold mAck) := by
  have hready : c.respReady g q mAck = (c.hit g q && q.write) := by
    have hhitRd : (DCacheState.idle == DCacheState.hitRd) = false := rfl
    have hfill : (DCacheState.idle == DCacheState.fill) = false := rfl
    simp [respReady, hitRdResponds, fillResponds, hs, hhitRd, hfill]
  rw [DCache.stepIdle]
  split_ifs with hflush hactive hhit hwrite
  · have hinactive : q.active = false := by
      by_contra hactive
      have := hexcl (Bool.eq_true_of_not_eq_false hactive)
      simp [this] at hflush
    rw [stored_of_not_write (Bool.or_eq_false_iff.1 hinactive).2]
    refine h.congr (by simp [hs]) (by simp) rfl rfl rfl rfl rfl ?_ fun hd ↦ absurd hd (by simp)
    exact ⟨Nat.mul_pos hg.numSets_pos hg.ways_pos, fun l hl ↦ absurd hl (Nat.not_lt_zero l)⟩
  · rw [stored, hready, hhit, hwrite]
    exact h.store_hit hg hs hhit q'
  · have hwrite' : q.write = false := by simpa using hwrite
    have hready' : c.respReady g q mAck = false := by rw [hready, hwrite', Bool.and_false]
    rw [stored_of_not_write hwrite']
    refine h.congr (by simp [hs]) (by simp) rfl rfl rfl rfl rfl ?_ fun hd ↦ absurd hd (by simp)
    rcases hnext hactive hready' with rfl | ⟨-, -, hone⟩
    · exact (congrArg (q'.read && ·) hwrite').trans (Bool.and_false _)
    · exact hone
  · have hhit' : c.hit g q = false := by simpa using hhit
    have hready' : c.respReady g q mAck = false := by rw [hready, hhit', Bool.false_and]
    have hsame : q' = q := (hnext hactive hready').resolve_right fun hhits ↦ hhit hhits.2.1
    rw [stored_of_not_ready hready', hsame]
    exact h.beginMiss hg hs hhit' hactive
  · rw [stored_of_not_write (by simp_all)]
    refine h.congr (by simp [hs]) (by simp [hs]) rfl rfl rfl rfl rfl ?_ fun hd ↦ absurd hd (by simp)
    simp [Phase, hs]

/-- One clock edge. -/
theorem step (hg : g.Pow2) (h : c.Inv g q mem gold) (hmem : c.Backs g mDataI mAck mem mem')
    (hnext : c.Follows g q mAck q') (hexcl : q.active = true → flushAll = false) :
    (c.step g q mDataI mAck flushAll).Inv g q' mem' (c.stored g q gold mAck) := by
  have hkept : c.state ≠ .wb → mem' = mem := fun hs ↦ funext fun x ↦ hmem.kept x fun hx ↦ hs hx.1
  have hquiet : c.state ≠ .idle → c.state ≠ .hitRd → c.state ≠ .fill →
      c.respReady g q mAck = false := by
    intro h₁ h₂ h₃
    simp [respReady, hitRdResponds, fillResponds, h₁, h₂, h₃]
  cases hs : c.state with
  | idle =>
    rw [DCache.step, hs, hkept (by simp [hs])]
    exact h.stepIdle hg hs hnext hexcl
  | hitRd =>
    have hone : (q.read && q.write) = false := by simpa only [Phase, hs] using h.phase
    have hstored : c.stored g q gold mAck = gold := by
      cases hr : q.read with
      | true => exact stored_of_not_write (by simpa [hr] using hone)
      | false => exact stored_of_not_ready (by simp [respReady, hitRdResponds, fillResponds, hs, hr])
    rw [DCache.step, hs, hkept (by simp [hs]), hstored]
    exact h.congr (by simp [hs]) (by simp) rfl rfl rfl rfl rfl trivial fun hd ↦ absurd hd (by simp)
  | wb =>
    have hready := hquiet (by simp [hs]) (by simp [hs]) (by simp [hs])
    rw [DCache.step, hs, stored_of_not_ready hready]
    exact h.stepWb hg hs hmem fun hactive ↦ hnext.eq_of_ne_idle (by simp [hs]) hactive hready
  | fill =>
    rw [DCache.step, hs, hkept (by simp [hs])]
    exact h.stepFill hg hs (hmem.read hs) hnext
  | flushScan =>
    have hready := hquiet (by simp [hs]) (by simp [hs]) (by simp [hs])
    have hscan : c.Scanned g := by simpa only [Phase, hs] using h.phase
    rw [DCache.step, hs, hkept (by simp [hs]), stored_of_not_ready hready]
    dsimp only
    split_ifs with hdirty
    · rw [Bool.and_eq_true] at hdirty
      refine h.congr (by simp [hs]) (by simp) rfl rfl rfl rfl rfl ?_ fun hd ↦ absurd hd (by simp)
      exact ⟨⟨hdirty.1, hdirty.2, rfl, hg.lineWords_pos, fun i hi ↦ absurd hi (Nat.not_lt_zero i)⟩,
        rfl, hscan⟩
    · exact h.advanceScan hg (by simp [hs]) hscan (fun hv ↦ by simpa [hv] using hdirty) q'

theorem reset (hg : g.Pow2) (c : DCache 32) (q : DCacheReq 32) (mem : ℕ → BitVec 32) :
    c.reset.Inv g q mem mem where
  placed := ⟨fun l hv ↦ absurd hv (by simp [DCache.reset]), fun l hv ↦ absurd hv (by simp [DCache.reset]),
    fun l l' hv ↦ absurd hv (by simp [DCache.reset]), fun _ ↦ hg.ways_pos⟩
  shows :=
    { unique := fun l l' b hl ↦ absurd hl (by simp [overlay, shown, DCache.reset])
      held := fun l b hl ↦ absurd hl (by simp [overlay, shown, DCache.reset])
      clean := fun l b hl ↦ absurd hl (by simp [overlay, shown, DCache.reset])
      rest := fun _ _ ↦ rfl }
  phase := trivial
  flushed hd := absurd hd (by simp [DCache.reset])

theorem clean_line (hg : g.Pow2) (h : c.Inv g q mem gold) (hs : c.state ≠ .fill) {l i : ℕ}
    (hv : c.valid l = true) (hd : c.dirty l = false) (hi : i < g.lineWords) :
    c.dataArr (l * g.lineWords + i) = mem (wordIdx (c.lineBaseOf g l) + i) := by
  have hl : (c.overlay g mem).line l = some (c.block g l) :=
    overlay_line_eq_some.2 ⟨by rw [shown_eq_valid hs, hv], rfl⟩
  have hset : l / g.ways < g.numSets :=
    Nat.div_lt_of_lt_mul (by rw [Nat.mul_comm]; exact h.placed.lt l hv)
  have hbase : wordIdx (c.lineBaseOf g l) = c.block g l * g.lineWords := by
    have hbus := hg.wordIdx_bus (h.placed.addr l hv) hg.lineWords_pos
    rw [Nat.mul_zero, BitVec.add_zero, Nat.add_zero] at hbus
    simp only [lineBaseOf, hg.two_pow_setBits, hg.two_pow_offsetBits, Nat.mod_eq_of_lt hset]
    exact hbus
  have hmem := (h.shows.held l _ hl).trans (h.shows.clean l _ hl hd).symm
  rw [hbase]
  exact congrFun hmem ⟨i, hi⟩

end Inv

end DCache

/-! ## Whole runs -/

/-- A run of the cache from reset, over a memory that answers after any delay.  Requests are held
until they are served, and a flush is never asked for together with one. -/
structure CacheRun (g : CacheGeometry) where
  cache : ℕ → DCache 32
  mem : ℕ → ℕ → BitVec 32
  req : ℕ → DCacheReq 32
  flushAll : ℕ → Bool
  mAck : ℕ → Bool
  mDataI : ℕ → BitVec 32
  start : ∃ c : DCache 32, cache 0 = c.reset
  next : ∀ n, cache (n + 1) = (cache n).step g (req n) (mDataI n) (mAck n) (flushAll n)
  backs : ∀ n, (cache n).Backs g (mDataI n) (mAck n) (mem n) (mem (n + 1))
  held : ∀ n, (req n).active = true → (cache n).respReady g (req n) (mAck n) = false →
    req (n + 1) = req n
  excl : ∀ n, (req n).active = true → flushAll n = false

namespace CacheRun

variable {g : CacheGeometry} (R : CacheRun g)

/-- The initial memory with the stores acknowledged before cycle `n`. -/
def gold : ℕ → ℕ → BitVec 32
  | 0 => R.mem 0
  | n + 1 =>
    if (R.req n).write && (R.cache n).respReady g (R.req n) (R.mAck n) then
      (R.req n).storeTo (gold n)
    else gold n

/-- Tags are unique in a set, clean lines agree with the memory, cache and memory together show
the acknowledged stores, and after a flush the memory does by itself. -/
structure Coherent (n : ℕ) : Prop where
  unique : ∀ set i j, i < g.ways → j < g.ways → (R.cache n).valid (set * g.ways + i) = true →
    (R.cache n).valid (set * g.ways + j) = true →
    (R.cache n).tagArr (set * g.ways + i) = (R.cache n).tagArr (set * g.ways + j) → i = j
  clean : (R.cache n).state ≠ .wb → (R.cache n).state ≠ .fill → ∀ l, (R.cache n).valid l = true →
    (R.cache n).dirty l = false → ∀ i < g.lineWords, (R.cache n).dataArr (l * g.lineWords + i) =
      R.mem n (wordIdx ((R.cache n).lineBaseOf g l) + i)
  view : ∀ a, (R.cache n).view g (R.mem n) a = R.gold n (wordIdx a)
  flushed : (R.cache n).flushDone = true → ∀ a, R.mem n (wordIdx a) = R.gold n (wordIdx a)

theorem inv (hg : g.Pow2) (n : ℕ) : (R.cache n).Inv g (R.req n) (R.mem n) (R.gold n) := by
  induction n with
  | zero =>
    obtain ⟨c, hc⟩ := R.start
    rw [hc]
    exact DCache.Inv.reset hg c _ _
  | succ n ih =>
    rw [R.next n]
    exact ih.step hg (R.backs n) (fun ha hr ↦ .inl (R.held n ha hr)) (R.excl n)

/-- With ways, sets and line size powers of two the cache is coherent in every cycle. -/
theorem coherent (hg : g.Pow2) (n : ℕ) : R.Coherent n where
  unique set i j hi hj hv hv' htag := by
    have hdiv : ∀ k < g.ways, (set * g.ways + k) / g.ways = set := fun k hk ↦ by
      rw [Nat.mul_comm, Nat.mul_add_div hg.ways_pos, Nat.div_eq_of_lt hk, Nat.add_zero]
    have := (R.inv hg n).placed.unique _ _ hv hv' (by
      rw [DCache.block, DCache.block, htag, hdiv i hi, hdiv j hj])
    omega
  clean _ hs l hv hd i hi := (R.inv hg n).clean_line hg hs hv hd hi
  view a := DCache.view_eq hg (R.inv hg n).placed (R.inv hg n).shows a
  flushed hdone a := by
    obtain ⟨hs, hclean⟩ := (R.inv hg n).flushed hdone
    have hmem := (R.inv hg n).shows.mem_eq fun l b hl ↦
      hclean l (Bool.and_eq_true_iff.1 (DCache.overlay_line_eq_some.1 hl).1).1
    rw [hg.wordIdx_eq]
    exact congrFun (congrFun hmem (g.blockOf a)) ⟨g.wordOff a, hg.wordOff_lt a⟩

/-! ### Runs on a memory that writes when it acknowledges -/

section Drive

variable (g) (mem₀ : ℕ → BitVec 32) (req : ℕ → DCacheReq 32) (flushAll mAck : ℕ → Bool)

/-- Cache and memory, driven by the requests, flushes and acknowledges of each cycle. -/
def drive : ℕ → DCache 32 × (ℕ → BitVec 32)
  | 0 => (DCache.reset default, mem₀)
  | n + 1 =>
    let (c, m) := drive n
    let x := wordIdx (c.busReq g).addr
    (c.step g (req n) (m x) (mAck n) (flushAll n),
      if c.state = .wb ∧ mAck n = true then setCell m x (c.busReq g).data else m)

/-- The run so driven. -/
def driven
    (held : ∀ n, (req n).active = true →
      (drive g mem₀ req flushAll mAck n).1.respReady g (req n) (mAck n) = false →
      req (n + 1) = req n)
    (excl : ∀ n, (req n).active = true → flushAll n = false) : CacheRun g where
  cache n := (drive g mem₀ req flushAll mAck n).1
  mem n := (drive g mem₀ req flushAll mAck n).2
  req := req
  flushAll := flushAll
  mAck := mAck
  mDataI n := (drive g mem₀ req flushAll mAck n).2
    (wordIdx ((drive g mem₀ req flushAll mAck n).1.busReq g).addr)
  start := ⟨default, rfl⟩
  next _ := rfl
  backs n :=
    { kept := fun x hx ↦ by
        simp only [drive]
        split_ifs with hwb
        · rw [setCell, if_neg fun he ↦ hx ⟨hwb.1, he⟩]
        · rfl
      written := fun hs hack ↦ by simp [drive, hs, hack, setCell]
      read := fun _ _ ↦ rfl }
  held := held
  excl := excl

end Drive

/-- A store that is presented in cycles 0, 1 and 2 and served in the last one, and a flush right
after it. -/
def storeThenFlush : CacheRun { ways := 2, sizeBytes := 32, lineBytes := 8 } :=
  driven _ (fun _ ↦ 0)
    (fun n ↦ ⟨false, decide (n < 3), 12#32, 0xFFFFFFFF#32, 0b010#3⟩) (fun n ↦ n == 3) (fun _ ↦ true)
    (fun n hactive hready ↦ by
      have hn : n < 3 := by simpa [DCacheReq.active] using hactive
      interval_cases n
      · rfl
      · rfl
      · exact absurd hready (by decide +kernel))
    (fun n hactive ↦ by
      have hn : n < 3 := by simpa [DCacheReq.active] using hactive
      simp only [beq_eq_false_iff_ne]
      omega)

theorem coherent_storeThenFlush :
    (storeThenFlush.cache 10).flushDone = true ∧ storeThenFlush.Coherent 10 :=
  ⟨by decide +kernel, storeThenFlush.coherent
    ⟨⟨1, rfl⟩, ⟨1, rfl⟩, 3, by decide, by decide, rfl⟩ 10⟩

/-- The same store, over lines of three words: word 3 of its line is never filled. -/
def storePastLine : CacheRun { ways := 2, sizeBytes := 48, lineBytes := 12 } :=
  driven _ (fun _ ↦ 0) (fun _ ↦ ⟨false, true, 12#32, 0xFFFFFFFF#32, 0b010#3⟩) (fun _ ↦ false)
    (fun _ ↦ true) (fun _ _ _ ↦ rfl) (fun _ _ ↦ rfl)

theorem not_coherent_storePastLine :
    ¬ ∀ (g : CacheGeometry) (R : CacheRun g), (∃ v, g.ways = 2 ^ v) → (∃ s, g.numSets = 2 ^ s) →
      ∀ n, R.Coherent n := by
  intro hall
  have hview := (hall _ storePastLine ⟨1, rfl⟩ ⟨1, rfl⟩ 4).view 12#32
  exact absurd hview (by decide +kernel)

end CacheRun

end RvPipeline
