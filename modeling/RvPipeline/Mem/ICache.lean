import RvPipeline.Lib.Clocked
import RvPipeline.Mem.Coherence

/-!
# The instruction cache and the memory behind it

A hit reads the aligned word of its address, or, from the line a fill is overwriting, a word of the
block that comes in.  The cache is invisible exactly where these two are not met.
-/

namespace RvPipeline

variable {w : ℕ}

/-! ## Words of a line -/

/-- The aligned word an address lies in. -/
def alignWord (a : BitVec w) : BitVec w := BitVec.ofNat w (4 * (a.toNat / 4))

theorem toNat_alignWord (a : BitVec w) : (alignWord a).toNat = 4 * (a.toNat / 4) := by
  have hlt := a.isLt
  rw [alignWord, BitVec.toNat_ofNat, Nat.mod_eq_of_lt (by omega)]

theorem alignWord_eq_iff (a : BitVec w) : alignWord a = a ↔ a.toNat % 4 = 0 := by
  rw [← BitVec.toNat_inj, toNat_alignWord]
  omega

namespace CacheGeometry

variable {g : CacheGeometry}

/-- Word `k` of the block that a tag and a set name. -/
def wordAddr (g : CacheGeometry) (w tag set k : ℕ) : BitVec w :=
  BitVec.ofNat w ((tag * 2 ^ g.setBits + set) * g.lineBytes + 4 * k)

/-- The tag and the set of `a` name its block. -/
theorem tagOf_setIdx (g : CacheGeometry) (a : BitVec w) :
    g.tagOf a * 2 ^ g.setBits + g.setIdx a = a.toNat / 2 ^ g.offsetBits := by
  rw [tagOf, setIdx, pow_add, ← Nat.div_div_eq_div_mul]
  exact Nat.div_add_mod' _ _

theorem wordAddr_zero_add (tag set k : ℕ) :
    g.wordAddr w tag set 0 + BitVec.ofNat w (4 * k) = g.wordAddr w tag set k := by
  rw [wordAddr, wordAddr, Nat.mul_zero, Nat.add_zero, BitVec.ofNat_add]

namespace Pow2

variable (h : g.Pow2)

include h

theorem wordAddr_alignWord (a : BitVec w) :
    g.wordAddr w (g.tagOf a) (g.setIdx a) (g.wordOff a) = alignWord a := by
  rw [wordAddr, alignWord, g.tagOf_setIdx, h.two_pow_offsetBits, wordOff, h.two_pow_wordOff,
    h.lineBytes_eq, ← Nat.div_div_eq_div_mul]
  congr 1
  have hdiv := Nat.div_add_mod (a.toNat / 4) g.lineWords
  calc a.toNat / 4 / g.lineWords * (4 * g.lineWords) + 4 * (a.toNat / 4 % g.lineWords)
      = 4 * (g.lineWords * (a.toNat / 4 / g.lineWords) + a.toNat / 4 % g.lineWords) := by ring
    _ = 4 * (a.toNat / 4) := by rw [hdiv]

theorem lineBase_wordAddr (a : BitVec w) :
    g.lineBase a = g.wordAddr w (g.tagOf a) (g.setIdx a) 0 := by
  rw [lineBase, wordAddr, g.tagOf_setIdx, h.two_pow_offsetBits, Nat.mul_zero, Nat.add_zero]

/-- A word of a block below `2 ^ w` is in that block. -/
theorem wordAddr_div (hw : 32 ≤ w) {tag set k : ℕ}
    (hlt : (tag * 2 ^ g.setBits + set) * g.lineBytes < 2 ^ w) (hk : k < g.lineWords) :
    (g.wordAddr w tag set k).toNat / g.lineBytes = tag * 2 ^ g.setBits + set := by
  obtain ⟨n, -, hn, hl⟩ := h.line
  have hdvd : g.lineBytes ∣ 2 ^ w := hl ▸ pow_dvd_pow 2 (hn.trans hw)
  have hbytes := h.lineBytes_eq
  have hle : (tag * 2 ^ g.setBits + set) * g.lineBytes + g.lineBytes ≤ 2 ^ w := by
    obtain ⟨d, hd⟩ := hdvd
    rw [hd, Nat.mul_comm] at hlt
    rw [hd, Nat.mul_comm, ← Nat.mul_succ]
    exact Nat.mul_le_mul_left _ (Nat.lt_of_mul_lt_mul_left hlt)
  rw [wordAddr, BitVec.toNat_ofNat, Nat.mod_eq_of_lt (by omega), Nat.mul_comm,
    Nat.mul_add_div h.lineBytes_pos, Nat.div_eq_of_lt (by omega), Nat.add_zero]

end Pow2

end CacheGeometry

/-- The places of two words in the data array. -/
theorem dataIdx_inj {ways words set set' n n' k k' : ℕ} (hn : n < ways) (hn' : n' < ways)
    (hk : k < words) (hk' : k' < words)
    (h : (set * ways + n) * words + k = (set' * ways + n') * words + k') :
    set = set' ∧ n = n' ∧ k = k' := by
  obtain ⟨hline, hword⟩ := mul_add_inj hk hk' h
  obtain ⟨hset, hway⟩ := mul_add_inj hn hn' hline
  exact ⟨hset, hway, hword⟩

namespace ICache

/-! ## The invariant -/

section Invariant

variable (g : CacheGeometry) (imem : BitVec w → BitVec 32) (c : ICache w)

/-- The word of way `n` in `set`. -/
def word (set n k : ℕ) : BitVec 32 := c.dataArr ((set * g.ways + n) * g.lineWords + k)

/-- A fill under way: the words it has brought in, for a block that no way holds. -/
structure Filling : Prop where
  way : c.fillWay < g.ways
  bound : c.fillWord < g.lineWords
  base : c.fillBase = g.wordAddr w c.fillTag c.fillSet 0
  written : ∀ k < c.fillWord,
    c.word g c.fillSet c.fillWay k = imem (g.wordAddr w c.fillTag c.fillSet k)
  absent : ∀ n < g.ways, c.valid (c.fillSet * g.ways + n) = true →
    c.tagArr (c.fillSet * g.ways + n) ≠ c.fillTag
  range : (c.fillTag * 2 ^ g.setBits + c.fillSet) * g.lineBytes < 2 ^ w

/-- The fill has replaced word `k` of way `n` in `set`. -/
def Replaced (set n k : ℕ) : Prop :=
  c.filling = true ∧ set = c.fillSet ∧ n = c.fillWay ∧ k < c.fillWord

structure Inv : Prop where
  victim : ∀ set, c.victim set < g.ways
  unique : ∀ set n m, n < g.ways → m < g.ways → c.valid (set * g.ways + n) = true →
    c.valid (set * g.ways + m) = true →
    c.tagArr (set * g.ways + n) = c.tagArr (set * g.ways + m) → n = m
  held : ∀ set n k, n < g.ways → k < g.lineWords → c.valid (set * g.ways + n) = true →
    ¬c.Replaced set n k →
    c.word g set n k = imem (g.wordAddr w (c.tagArr (set * g.ways + n)) set k)
  fill : c.filling = true → c.Filling g imem

end Invariant

variable {g : CacheGeometry} {imem : BitVec w → BitVec 32} {c : ICache w} {a : BitVec w}

theorem inv_reset (hg : g.Pow2) (c : ICache w) : c.reset.Inv g imem where
  victim _ := hg.ways_pos
  unique _ _ _ _ _ h := by simp [reset] at h
  held _ _ _ _ _ h := by simp [reset] at h
  fill h := by simp [reset] at h

theorem wayHit_iff {n : ℕ} : c.wayHit g a n = true ↔
    c.valid (g.setIdx a * g.ways + n) = true ∧
      c.tagArr (g.setIdx a * g.ways + n) = g.tagOf a := by
  rw [wayHit, Bool.and_eq_true, beq_iff_eq]
  rfl

theorem hit_iff : c.hit g a = true ↔ ∃ n < g.ways, c.wayHit g a n = true := by
  simp [hit]

namespace Inv

variable (h : c.Inv g imem)

include h

/-- A fill begins on a miss. -/
theorem beginFill (hg : g.Pow2) (hf : c.filling = false) (hmiss : c.hit g a = false) {d : Bool}
    {l : LatencyModel} :
    { c with
      done := d, latency := l, filling := true, fillSet := g.setIdx a, fillTag := g.tagOf a,
      fillWay := c.victim (g.setIdx a), fillBase := g.lineBase a, fillWord := 0 }.Inv g imem where
  victim := h.victim
  unique := h.unique
  held set n k hn hk hv _ := h.held set n k hn hk hv (by simp [Replaced, hf])
  fill _ :=
    { way := h.victim _
      bound := hg.lineWords_pos
      base := hg.lineBase_wordAddr a
      written := fun _ hk ↦ absurd hk (Nat.not_lt_zero _)
      absent := fun n hn hv ht ↦ by
        have hhit : c.hit g a = true := hit_iff.2 ⟨n, hn, wayHit_iff.2 ⟨hv, ht⟩⟩
        rw [hmiss] at hhit
        cases hhit
      range := by
        change (g.tagOf a * 2 ^ g.setBits + g.setIdx a) * g.lineBytes < 2 ^ w
        rw [g.tagOf_setIdx, hg.two_pow_offsetBits]
        exact lt_of_le_of_lt (Nat.div_mul_le_self _ _) a.isLt }

end Inv

/-! ## One word of a fill -/

/-- The data array after the next word has come in. -/
def fillData (g : CacheGeometry) (imem : BitVec w → BitVec 32) (c : ICache w) : ℕ → BitVec 32 :=
  setCell c.dataArr ((c.fillSet * g.ways + c.fillWay) * g.lineWords + c.fillWord)
    (imem (c.fillBase + BitVec.ofNat w (4 * c.fillWord)))

section FillWord

variable (h : c.Inv g imem) (hf : c.filling = true)

include h hf

theorem fillData_new :
    c.fillData g imem ((c.fillSet * g.ways + c.fillWay) * g.lineWords + c.fillWord) =
      imem (g.wordAddr w c.fillTag c.fillSet c.fillWord) := by
  rw [fillData, setCell, if_pos rfl, (h.fill hf).base, CacheGeometry.wordAddr_zero_add]

theorem fillData_old {set n k : ℕ} (hn : n < g.ways) (hk : k < g.lineWords)
    (hne : ¬(set = c.fillSet ∧ n = c.fillWay ∧ k = c.fillWord)) :
    c.fillData g imem ((set * g.ways + n) * g.lineWords + k) = c.word g set n k := by
  have hF := h.fill hf
  rw [fillData, setCell, if_neg, word]
  exact fun heq ↦ hne (dataIdx_inj hn hF.way hk hF.bound heq)

/-- What has come in, with the next word. -/
theorem fillData_written {k : ℕ} (hk : k ≤ c.fillWord) :
    c.fillData g imem ((c.fillSet * g.ways + c.fillWay) * g.lineWords + k) =
      imem (g.wordAddr w c.fillTag c.fillSet k) := by
  have hF := h.fill hf
  rcases eq_or_lt_of_le hk with rfl | hlt
  · exact fillData_new h hf
  · rw [fillData_old h hf hF.way (hlt.trans hF.bound) (by omega)]
    exact hF.written k hlt

theorem Inv.fillNext (hlast : c.fillWord + 1 ≠ g.lineWords) {d : Bool}
    {l : LatencyModel} :
    { c with
      done := d, latency := l, dataArr := c.fillData g imem,
      fillWord := c.fillWord + 1 }.Inv g imem where
  victim := h.victim
  unique := h.unique
  held set n k hn hk hv hr := by
    have hne : ¬(set = c.fillSet ∧ n = c.fillWay ∧ k < c.fillWord + 1) := fun hc ↦ hr ⟨hf, hc⟩
    change c.fillData g imem _ = _
    rw [fillData_old h hf hn hk fun hc ↦ hne ⟨hc.1, hc.2.1, by omega⟩]
    exact h.held set n k hn hk hv fun hc ↦ hne ⟨hc.2.1, hc.2.2.1, by have := hc.2.2.2; omega⟩
  fill _ :=
    { way := (h.fill hf).way
      bound := by
        have := (h.fill hf).bound
        change c.fillWord + 1 < g.lineWords
        omega
      base := (h.fill hf).base
      written := fun k hk ↦ fillData_written h hf (Nat.le_of_lt_succ hk)
      absent := (h.fill hf).absent
      range := (h.fill hf).range }

/-- The last word makes the line valid under the new tag. -/
theorem Inv.fillLast (hlast : c.fillWord + 1 = g.lineWords) {d : Bool}
    {l : LatencyModel} :
    { c with
      done := d, latency := l, dataArr := c.fillData g imem,
      valid := setCell c.valid (c.fillSet * g.ways + c.fillWay) true,
      tagArr := setCell c.tagArr (c.fillSet * g.ways + c.fillWay) c.fillTag,
      victim := setCell c.victim c.fillSet (g.nextWay c.fillWay),
      filling := false }.Inv g imem := by
  have hF := h.fill hf
  have hline : ∀ {set n}, n < g.ways → set * g.ways + n = c.fillSet * g.ways + c.fillWay →
      set = c.fillSet ∧ n = c.fillWay := fun hn heq ↦ mul_add_inj hn hF.way heq
  constructor
  case victim =>
    intro set
    simp only [setCell]
    split_ifs
    · have hway := hF.way
      rw [CacheGeometry.nextWay]
      split_ifs <;> omega
    · exact h.victim set
  case unique =>
    intro set n m hn hm hvn hvm htag
    simp only [setCell] at hvn hvm htag
    split_ifs at hvn hvm htag with h1 h2 h2
    · exact (hline hn h1).2.trans (hline hm h2).2.symm
    · obtain ⟨rfl, -⟩ := hline hn h1
      exact absurd htag.symm (hF.absent m hm hvm)
    · obtain ⟨rfl, -⟩ := hline hm h2
      exact absurd htag (hF.absent n hn hvn)
    · exact h.unique set n m hn hm hvn hvm htag
  case held =>
    intro set n k hn hk hv _
    simp only [setCell] at hv
    change c.fillData g imem _ = imem (g.wordAddr w (setCell _ _ _ _) set k)
    rw [setCell]
    split_ifs at hv ⊢ with h1
    · obtain ⟨rfl, rfl⟩ := hline hn h1
      exact fillData_written h hf (by omega)
    · have hne : ¬(set = c.fillSet ∧ n = c.fillWay) := by
        rintro ⟨rfl, rfl⟩
        exact h1 rfl
      rw [fillData_old h hf hn hk fun hc ↦ hne ⟨hc.1, hc.2.1⟩]
      exact h.held set n k hn hk hv fun hc ↦ hne ⟨hc.2.1, hc.2.2.1⟩
  case fill =>
    intro hfill
    cases hfill

end FillWord

/-- Registers that the lines do not depend on. -/
theorem Inv.congr {d : Bool} {l : LatencyModel} (h : c.Inv g imem) :
    { c with done := d, latency := l }.Inv g imem where
  victim := h.victim
  unique := h.unique
  held := h.held
  fill hf := ⟨(h.fill hf).way, (h.fill hf).bound, (h.fill hf).base, (h.fill hf).written,
    (h.fill hf).absent, (h.fill hf).range⟩

theorem Inv.step (hg : g.Pow2) (h : c.Inv g imem) (memLatency : ℕ) (a : BitVec w) :
    (c.step g memLatency imem a).Inv g imem := by
  unfold ICache.step
  dsimp only
  split_ifs with hidle hmiss hready hlast
  · exact h.beginFill hg (by simpa using hidle) (by simpa using hmiss)
  · exact h.congr
  · exact h.fillLast (by simpa using hidle) hlast
  · exact h.fillNext (by simpa using hidle) hlast
  · exact h.congr

/-! ## What a hit reads -/

/-- The query reads a word that the fill has already replaced, under the tag of the old line. -/
def torn (g : CacheGeometry) (c : ICache w) (a : BitVec w) : Bool :=
  c.filling && c.fillSet == g.setIdx a && c.wayHit g a c.fillWay && decide (g.wordOff a < c.fillWord)

/-- The address of the word that a hit returns. -/
def source (g : CacheGeometry) (c : ICache w) (a : BitVec w) : BitVec w :=
  if c.torn g a then g.wordAddr w c.fillTag c.fillSet (g.wordOff a) else alignWord a

theorem inst_of_wayHit (h : c.Inv g imem) {n : ℕ} (hn : n < g.ways)
    (hhit : c.wayHit g a n = true) : c.inst g a = c.word g (g.setIdx a) n (g.wordOff a) := by
  have hmiss : ∀ m < g.ways, m ≠ n → c.wayHit g a m = false := by
    intro m hm hne
    by_contra hm'
    rw [Bool.not_eq_false, wayHit_iff] at hm'
    obtain ⟨hv, ht⟩ := wayHit_iff.1 hhit
    exact hne (h.unique _ m n hm hn hm'.1 hv (hm'.2.trans ht.symm))
  rw [inst, foldl_single (by simp) (by simp) _ g.ways hn fun m hm hne ↦ by
    simp [hmiss m hm hne]]
  simp only [hhit, if_true]
  rfl

theorem inst_eq_source (hg : g.Pow2) (h : c.Inv g imem) (hhit : c.hit g a = true) :
    c.inst g a = imem (c.source g a) := by
  obtain ⟨n, hn, hway⟩ := hit_iff.1 hhit
  obtain ⟨hv, ht⟩ := wayHit_iff.1 hway
  rw [inst_of_wayHit h hn hway, source]
  split_ifs with htorn
  · obtain ⟨⟨⟨hf, hset⟩, hway'⟩, hlt⟩ : ((c.filling = true ∧ c.fillSet = g.setIdx a) ∧
        c.wayHit g a c.fillWay = true) ∧ g.wordOff a < c.fillWord := by simpa [torn] using htorn
    -- the way of the fill is the one that hits
    obtain ⟨hv', ht'⟩ := wayHit_iff.1 hway'
    have hn' : n = c.fillWay := h.unique _ n _ hn (h.fill hf).way hv hv' (ht.trans ht'.symm)
    rw [hn', ← hset]
    exact (h.fill hf).written _ hlt
  · rw [h.held _ n _ hn (hg.wordOff_lt a) hv, ht, hg.wordAddr_alignWord]
    rintro ⟨hf, hset, rfl, hlt⟩
    exact htorn (by simp [torn, hf, hset, hway, hlt])

/-- The address is aligned and the word is not torn. -/
def Intact (g : CacheGeometry) (c : ICache w) (a : BitVec w) : Prop :=
  a.toNat % 4 = 0 ∧ c.torn g a = false

theorem source_eq_iff (hg : g.Pow2) (hw : 32 ≤ w) (h : c.Inv g imem) :
    c.source g a = a ↔ c.Intact g a := by
  rw [source, Intact]
  cases htorn : c.torn g a with
  | false => simp [alignWord_eq_iff]
  | true =>
    simp only [if_true, Bool.true_eq_false, and_false, iff_false]
    obtain ⟨⟨⟨hf, hset⟩, hway⟩, -⟩ : ((c.filling = true ∧ c.fillSet = g.setIdx a) ∧
        c.wayHit g a c.fillWay = true) ∧ g.wordOff a < c.fillWord := by simpa [torn] using htorn
    have hF := h.fill hf
    obtain ⟨hv, ht⟩ := wayHit_iff.1 hway
    rw [← hset] at hv ht
    intro heq
    -- the two blocks have the same set and different tags
    have hdiv := hg.wordAddr_div hw hF.range (hg.wordOff_lt a)
    rw [heq, ← hg.two_pow_offsetBits, ← g.tagOf_setIdx a, ← hset] at hdiv
    have htag := Nat.eq_of_mul_eq_mul_right (Nat.two_pow_pos _) (Nat.add_right_cancel hdiv)
    exact hF.absent _ hF.way hv (ht.trans htag)

/-! ## Runs -/

/-- The cache in front of a memory, with a fetch address in every cycle. -/
def clocked (g : CacheGeometry) (memLatency : ℕ) (imem : BitVec w → BitVec 32) :
    Clocked (ICache w) (BitVec w) where
  Init c := ∃ c₀, c = reset c₀
  step c a := c.step g memLatency imem a

theorem inv_run (imem : BitVec w → BitVec 32) (hg : g.Pow2) (memLatency : ℕ) (c₀ : ICache w)
    (addrs : ℕ → BitVec w) (n : ℕ) :
    ((clocked g memLatency imem).run c₀.reset addrs n).Inv g imem :=
  (clocked g memLatency imem).run_invariant (fun c ↦ c.Inv g imem) (fun _ _ ↦ True)
    (inv_reset hg c₀) (fun _ ↦ trivial) (fun _ a h _ ↦ h.step hg memLatency a) n

/-- Everything but the data. -/
def control (c : ICache w) : ICache w := { c with dataArr := fun _ ↦ 0 }

theorem control_step {c' : ICache w} {imem' : BitVec w → BitVec 32} (memLatency : ℕ)
    (h : c.control = c'.control) :
    (c.step g memLatency imem a).control = (c'.step g memLatency imem' a).control := by
  obtain ⟨d, rfl⟩ : ∃ d, c' = { c with dataArr := d } := by
    refine ⟨c'.dataArr, ?_⟩
    cases c'
    simp only [control, mk.injEq, true_and] at h
    simp [h]
  have hhit : ({ c with dataArr := d } : ICache w).hit g a = c.hit g a := rfl
  unfold ICache.step
  dsimp only
  rw [hhit]
  split_ifs <;> rfl

/-- The memory decides nothing but the data. -/
theorem control_run (g : CacheGeometry) (imem imem' : BitVec w → BitVec 32) (memLatency : ℕ)
    (c₀ : ICache w) (addrs : ℕ → BitVec w) (n : ℕ) :
    ((clocked g memLatency imem).run c₀ addrs n).control =
      ((clocked g memLatency imem').run c₀ addrs n).control := by
  induction n with
  | zero => rfl
  | succ n ih => exact control_step memLatency ih

/-! ## Invisibility -/

/-- Whatever the image, hits return the words of the memory, and when no fill is under way so do
all valid lines. -/
def Invisible (g : CacheGeometry) (memLatency : ℕ) (c₀ : ICache w) (addrs : ℕ → BitVec w) : Prop :=
  ∀ (insts : ℕ → BitVec 8) (sizeBytes n : ℕ),
    let imem := instructionMemory insts sizeBytes
    let c := (clocked g memLatency imem).run c₀.reset addrs n
    (c.hit g (addrs n) = true → c.inst g (addrs n) = imem (addrs n)) ∧
    (c.filling = false → ∀ set way k, way < g.ways → k < g.lineWords →
      c.valid (set * g.ways + way) = true →
      c.word g set way k = imem (g.wordAddr w (c.tagArr (set * g.ways + way)) set k))

/-- An image whose words tell `a` from every other address. -/
def markedAt (a : BitVec w) (n : ℕ) : BitVec 8 := if n = a.toNat then 1 else 0

theorem instructionMemory_markedAt (a u : BitVec w)
    (h : instructionMemory (markedAt a) (2 ^ w) u = instructionMemory (markedAt a) (2 ^ w) a) :
    u = a := by
  have hrange : ∀ x : BitVec w, ¬2 ^ w ≤ x.toNat := fun x ↦ not_le.2 x.isLt
  have hlow := congrArg (BitVec.extractLsb' 0 8) h
  simp only [instructionMemory, if_neg (hrange _), BitVec.extractLsb'_append_eq_right] at hlow
  rw [markedAt, markedAt, if_pos rfl] at hlow
  split_ifs at hlow with hu
  · exact BitVec.eq_of_toNat_eq hu
  · exact absurd hlow (by decide)

/-- The fetch addresses for which the cache is invisible. -/
theorem invisible_iff (hg : g.Pow2) (hw : 32 ≤ w) (memLatency : ℕ) (c₀ : ICache w)
    (addrs : ℕ → BitVec w) :
    Invisible g memLatency c₀ addrs ↔
      ∀ (insts : ℕ → BitVec 8) (sizeBytes n : ℕ),
        let c := (clocked g memLatency (instructionMemory insts sizeBytes)).run c₀.reset addrs n
        c.hit g (addrs n) = true → c.Intact g (addrs n) := by
  constructor
  · intro h insts sizeBytes n c hhit
    -- the run on the image that marks this address takes the same course
    have hsame := control_run g (instructionMemory insts sizeBytes)
      (instructionMemory (markedAt (addrs n)) (2 ^ w)) memLatency c₀.reset addrs n
    have hinv := inv_run (instructionMemory (markedAt (addrs n)) (2 ^ w)) hg memLatency c₀ addrs n
    have hinst := (h (markedAt (addrs n)) (2 ^ w) n).1
    set c' := (clocked g memLatency (instructionMemory (markedAt (addrs n)) (2 ^ w))).run c₀.reset
      addrs n
    have hhit' : c'.hit g (addrs n) = true := by
      change c'.control.hit g (addrs n) = true
      rw [← hsame]
      exact hhit
    change c.control.Intact g (addrs n)
    rw [hsame]
    change c'.Intact g (addrs n)
    rw [← source_eq_iff hg hw hinv]
    have heq := hinst hhit'
    rw [inst_eq_source hg hinv hhit'] at heq
    exact instructionMemory_markedAt _ _ heq
  · intro h insts sizeBytes n imem c
    have hinv : c.Inv g imem := inv_run imem hg memLatency c₀ addrs n
    constructor
    · intro hhit
      rw [inst_eq_source hg hinv hhit, (source_eq_iff hg hw hinv).2 (h insts sizeBytes n hhit)]
    · intro hf set way k hway hk hv
      exact hinv.held set way k hway hk hv fun hr ↦ by simp [hr.1] at hf

theorem pow2_default : ({} : CacheGeometry).Pow2 :=
  ⟨⟨2, rfl⟩, ⟨6, rfl⟩, ⟨4, by decide, by decide, rfl⟩⟩

/-- While one address is fetched, the line that comes in is the one that holds it. -/
theorem fillTag_of_constant (memLatency : ℕ) (imem : BitVec w → BitVec 32) (c₀ : ICache w)
    (a : BitVec w) (n : ℕ) :
    let c := (clocked g memLatency imem).run c₀.reset (fun _ ↦ a) n
    c.filling = true → c.fillTag = g.tagOf a := by
  refine (clocked g memLatency imem).run_invariant
    (fun c ↦ c.filling = true → c.fillTag = g.tagOf a) (fun _ i ↦ i = a) (fun h ↦ ?_)
    (fun _ ↦ rfl) (fun c i hc hi ↦ ?_) n
  · simp [reset] at h
  · subst hi
    simp only [clocked, ICache.step]
    split_ifs <;> simp_all

/-- A fetch that stays at one aligned address finds nothing torn. -/
theorem intact_of_constant (hg : g.Pow2) (memLatency : ℕ) (imem : BitVec w → BitVec 32)
    (c₀ : ICache w) {a : BitVec w} (ha : a.toNat % 4 = 0) (n : ℕ) :
    ((clocked g memLatency imem).run c₀.reset (fun _ ↦ a) n).Intact g a := by
  refine ⟨ha, ?_⟩
  have htag := fillTag_of_constant (g := g) memLatency imem c₀ a n
  have hinv := inv_run imem hg memLatency c₀ (fun _ ↦ a) n
  set c := (clocked g memLatency imem).run c₀.reset (fun _ ↦ a) n
  cases htorn : c.torn g a with
  | false => rfl
  | true =>
    obtain ⟨⟨⟨hf, hset⟩, hway⟩, -⟩ : ((c.filling = true ∧ c.fillSet = g.setIdx a) ∧
        c.wayHit g a c.fillWay = true) ∧ g.wordOff a < c.fillWord := by simpa [torn] using htorn
    obtain ⟨hv, ht⟩ := wayHit_iff.1 hway
    rw [← hset] at hv ht
    exact absurd (ht.trans (htag hf).symm) ((hinv.fill hf).absent _ (hinv.fill hf).way hv)

/-- A fetch in the middle of a word of the line that has come in. -/
def halfwordFetch (n : ℕ) : BitVec 32 := if n < 5 then 0 else 2

/-- The loop `j .` at address 4 is fetched as it is; the halfword is not. -/
theorem invisible_iff_default :
    Invisible {} 0 (default : ICache 32) (fun _ ↦ 4) ∧
      ¬∀ (insts : ℕ → BitVec 8) (sizeBytes n : ℕ),
        let c := (clocked {} 0 (instructionMemory insts sizeBytes)).run (reset default)
          halfwordFetch n
        c.hit {} (halfwordFetch n) = true → c.Intact {} (halfwordFetch n) := by
  constructor
  · exact (invisible_iff pow2_default le_rfl 0 default _).2 fun _ _ n _ ↦
      intact_of_constant pow2_default 0 _ default rfl n
  · intro h
    have hvis := (invisible_iff pow2_default le_rfl 0 default halfwordFetch).2 h
    exact absurd (hvis (instsOfWords [0x00000013, 0x00000013]) 128 5).1 (by decide +kernel)

/-- Four lines fill a set; a fifth takes the way of the first, which is fetched meanwhile. -/
def redirectFetch (n : ℕ) : BitVec 32 := if n < 22 then BitVec.ofNat 32 (1024 * (n / 5)) else 0

theorem not_invisible :
    ¬Invisible {} 0 (default : ICache 32) halfwordFetch ∧
    ¬Invisible {} 0 (default : ICache 32) redirectFetch := by
  constructor
  · intro h
    exact absurd (h (instsOfWords [0x00000013, 0x00000013]) 128 5).1 (by decide +kernel)
  · intro h
    exact absurd (h (fun n ↦ if n < 4096 then 0 else 1) 8192 22).1 (by decide +kernel)

end ICache

end RvPipeline
