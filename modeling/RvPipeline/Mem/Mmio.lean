import RvPipeline.Design.Bits
import RvPipeline.Design.Pipeline
import Mathlib.Tactic

/-!
# Peripherals behind the cache

With `CACHE_WRITEBACK_SETASSOC` every load and store goes through `DCache.v`, which knows nothing of
`MMIO_BASE`: a peripheral access is a line fill.  Only a program that keeps away from the
peripherals leaves them alone.
-/

namespace RvPipeline

/-- `MMIO_BASE`. -/
abbrev mmioBase : ℕ := 0x10000000

/-! ## Blocks below a bound -/

namespace CacheGeometry

variable {g : CacheGeometry} {w : ℕ} {L : ℕ}

/-- The parameters a cache can be built with, of lines no longer than the memory map allows. -/
structure Fits (g : CacheGeometry) (L : ℕ) : Prop where
  ways : 0 < g.ways
  line : 4 ≤ g.lineBytes
  dvd : 2 ^ g.offsetBits ∣ L

/-- Block `b` ends at or below `L`. -/
def BlockBelow (g : CacheGeometry) (L b : ℕ) : Prop := (b + 1) * 2 ^ g.offsetBits ≤ L

theorem lineWords_le (g : CacheGeometry) : 4 * g.lineWords ≤ 2 ^ g.offsetBits := by
  have h := le_two_pow_clog2 g.lineBytes
  unfold lineWords offsetBits
  omega

theorem blockBelow_of_addr (hg : g.Fits L) {a : ℕ} (ha : a < L) :
    g.BlockBelow L (a / 2 ^ g.offsetBits) := by
  obtain ⟨n, rfl⟩ := hg.dvd
  rw [mul_comm] at ha
  have hlt : a / 2 ^ g.offsetBits < n := (Nat.div_lt_iff_lt_mul (Nat.two_pow_pos _)).2 ha
  unfold BlockBelow
  rw [mul_comm]
  exact Nat.mul_le_mul_left _ hlt

/-- Tag and set of an address name its block. -/
theorem tag_set (g : CacheGeometry) (a : BitVec w) :
    g.tagOf a * 2 ^ g.setBits + g.setIdx a = a.toNat / 2 ^ g.offsetBits := by
  unfold tagOf setIdx
  rw [pow_add, ← Nat.div_div_eq_div_mul]
  exact Nat.div_add_mod' _ _

/-- An address inside a block below `L`. -/
theorem BlockBelow.word {b i : ℕ} (h : g.BlockBelow L b) (hi : i < g.lineWords) :
    (BitVec.ofNat w (b * 2 ^ g.offsetBits) + BitVec.ofNat w (4 * i)).toNat < L := by
  have hwords := g.lineWords_le
  have h1 : (BitVec.ofNat w (b * 2 ^ g.offsetBits) + BitVec.ofNat w (4 * i)).toNat ≤
      b * 2 ^ g.offsetBits + 4 * i := by
    rw [BitVec.toNat_add, BitVec.toNat_ofNat, BitVec.toNat_ofNat]
    exact (Nat.mod_le _ _).trans (Nat.add_le_add (Nat.mod_le _ _) (Nat.mod_le _ _))
  unfold BlockBelow at h
  rw [Nat.add_mul, one_mul] at h
  omega

end CacheGeometry

/-! ## The cache -/

namespace DCache

open CacheGeometry

variable {w : ℕ} {g : CacheGeometry} {L : ℕ} {c : DCache w} {q : DCacheReq w} {mDataI : BitVec w}
  {mAck flushAll : Bool}

/-- The number of the block in line `l`. -/
def blockNum (g : CacheGeometry) (c : DCache w) (l : ℕ) : ℕ :=
  c.tagArr l * 2 ^ g.setBits + l / g.ways % 2 ^ g.setBits

/-- The miss under way is for block `b`. -/
structure Missing (g : CacheGeometry) (c : DCache w) (b : ℕ) : Prop where
  set : c.missSet < 2 ^ g.setBits
  way : c.missWay < g.ways
  block : c.missTag * 2 ^ g.setBits + c.missSet = b
  base : c.missBase = BitVec.ofNat w (b * 2 ^ g.offsetBits)

/-- Everything the cache holds or moves is below `L`. -/
structure Below (g : CacheGeometry) (L : ℕ) (c : DCache w) : Prop where
  lines : ∀ l, c.valid l = true → g.BlockBelow L (c.blockNum g l)
  victim : ∀ set, c.victim set < g.ways
  word : c.mCyc = true → c.fillWord < g.lineWords
  wb : c.state = .wb → ∃ b, g.BlockBelow L b ∧ c.wbBase = BitVec.ofNat w (b * 2 ^ g.offsetBits)
  miss : c.state = .fill ∨ (c.state = .wb ∧ c.wbReturnToFlush = false) →
    ∃ b, g.BlockBelow L b ∧ c.Missing g b

/-- No bus request leaves the bound. -/
theorem Below.busReq_lt (h : c.Below g L) (hcyc : c.mCyc = true) : (c.busReq g).addr.toNat < L := by
  have hword := h.word hcyc
  unfold busReq
  dsimp only
  split_ifs with hs
  · obtain ⟨b, hb, hbase⟩ := h.wb hs
    rw [hbase]
    exact hb.word hword
  · have hfill : c.state = .fill := by
      simpa [mCyc, hs] using hcyc
    obtain ⟨b, hb, hmiss⟩ := h.miss (.inl hfill)
    rw [hmiss.base]
    exact hb.word hword

theorem below_reset (hg : 0 < g.ways) (c : DCache w) : c.reset.Below g L where
  lines l h := by simp [reset] at h
  victim _ := hg
  word h := by simp [reset, mCyc] at h
  wb h := by simp [reset] at h
  miss h := by simp [reset] at h

/-- The arrays stay and the bus is left alone. -/
theorem Below.quiet {c' : DCache w} (h : c.Below g L) (hvalid : c'.valid = c.valid)
    (htag : c'.tagArr = c.tagArr) (hvictim : c'.victim = c.victim) (hcyc : c'.mCyc = false) :
    c'.Below g L := by
  have hs : c'.state ≠ .wb ∧ c'.state ≠ .fill := by
    simpa [mCyc] using hcyc
  refine ⟨?_, ?_, ?_, fun hwb ↦ absurd hwb hs.1, ?_⟩
  · rw [hvalid]
    unfold blockNum
    rw [htag]
    exact h.lines
  · rw [hvictim]
    exact h.victim
  · rw [hcyc]
    exact fun hc ↦ absurd hc Bool.false_ne_true
  · rintro (hfill | ⟨hwb, -⟩)
    · exact absurd hfill hs.2
    · exact absurd hwb hs.1

theorem lineBaseOf_eq (g : CacheGeometry) (c : DCache w) (l : ℕ) :
    c.lineBaseOf g l = BitVec.ofNat w (c.blockNum g l * 2 ^ g.offsetBits) := rfl

theorem Below.beginMiss (hg : g.Fits L) (h : c.Below g L) (hq : q.addr.toNat < L) :
    (c.beginMiss g q).Below g L := by
  have hwords : 0 < g.lineWords := Nat.div_pos hg.line (by decide)
  have hblock := blockBelow_of_addr hg hq
  have hset : g.setIdx q.addr < 2 ^ g.setBits := Nat.mod_lt _ (Nat.two_pow_pos _)
  unfold DCache.beginMiss
  dsimp only
  split_ifs with hdirty
  · rw [Bool.and_eq_true] at hdirty
    exact
      { lines := h.lines
        victim := h.victim
        word := fun _ ↦ hwords
        wb := fun _ ↦ ⟨_, h.lines _ hdirty.1, rfl⟩
        miss := fun _ ↦ ⟨_, hblock, hset, h.victim _, g.tag_set q.addr, rfl⟩ }
  · exact
      { lines := h.lines
        victim := h.victim
        word := fun _ ↦ hwords
        wb := fun hwb ↦ by cases hwb
        miss := fun _ ↦ ⟨_, hblock, hset, h.victim _, g.tag_set q.addr, rfl⟩ }

theorem Below.stepIdle (hg : g.Fits L) (h : c.Below g L) (hs : c.state = .idle)
    (hq : (q.read || q.write) = true → q.addr.toNat < L) : (c.stepIdle g q flushAll).Below g L := by
  unfold DCache.stepIdle
  split_ifs with hflush hreq hhit hwrite
  · exact h.quiet rfl rfl rfl rfl
  · exact h.quiet rfl rfl rfl (by simp [mCyc, hs])
  · exact h.quiet rfl rfl rfl rfl
  · exact h.beginMiss hg (hq hreq)
  · exact h.quiet rfl rfl rfl (by simp [mCyc, hs])

theorem Below.advanceScan {c' : DCache w} (h : c.Below g L) (hvalid : c'.valid = c.valid)
    (htag : c'.tagArr = c.tagArr) (hvictim : c'.victim = c.victim) :
    (c'.advanceScan g).Below g L := by
  unfold DCache.advanceScan
  split_ifs
  · exact h.quiet hvalid htag hvictim rfl
  · exact h.quiet hvalid htag hvictim rfl

theorem fillWord_succ_lt (hword : c.fillWord < g.lineWords) (hlast : ¬c.isLastWord g = true) :
    c.fillWord + 1 < g.lineWords := by
  unfold isLastWord at hlast
  rw [beq_iff_eq] at hlast
  omega

theorem Below.stepWb (hg : g.Fits L) (h : c.Below g L) (hs : c.state = .wb) :
    (c.stepWb g mAck).Below g L := by
  have hwords : 0 < g.lineWords := Nat.div_pos hg.line (by decide)
  have hword := h.word (by simp [mCyc, hs])
  unfold DCache.stepWb
  dsimp only
  split_ifs with hack hlast hflush
  · exact h.advanceScan rfl rfl rfl
  · obtain ⟨b, hb, hm⟩ := h.miss (.inr ⟨hs, by simpa using hflush⟩)
    exact
      { lines := h.lines
        victim := h.victim
        word := fun _ ↦ hwords
        wb := fun hwb ↦ by cases hwb
        miss := fun _ ↦ ⟨b, hb, hm.set, hm.way, hm.block, hm.base⟩ }
  · exact
      { lines := h.lines
        victim := h.victim
        word := fun _ ↦ fillWord_succ_lt hword hlast
        wb := fun _ ↦ h.wb hs
        miss := fun hm ↦ (h.miss hm).imp fun b hb ↦ ⟨hb.1, hb.2.set, hb.2.way, hb.2.block, hb.2.base⟩ }
  · exact
      { lines := h.lines
        victim := h.victim
        word := fun _ ↦ hword
        wb := fun _ ↦ h.wb hs
        miss := fun hm ↦ (h.miss hm).imp fun b hb ↦ ⟨hb.1, hb.2.set, hb.2.way, hb.2.block, hb.2.base⟩ }

theorem nextWay_lt (hg : 0 < g.ways) {n : ℕ} (hn : n < g.ways) : g.nextWay n < g.ways := by
  unfold nextWay
  split_ifs <;> omega

theorem Below.stepFill (hg : g.Fits L) (h : c.Below g L) (hs : c.state = .fill) :
    (c.stepFill g mDataI mAck).Below g L := by
  have hword := h.word (by simp [mCyc, hs])
  obtain ⟨b, hb, hm⟩ := h.miss (.inl hs)
  unfold DCache.stepFill
  dsimp only
  split_ifs with hack hlast
  · refine ⟨?_, ?_, fun hc ↦ (by cases hc), fun hwb ↦ (by cases hwb), ?_⟩
    · intro l hl
      unfold blockNum
      dsimp only [setCell] at hl ⊢
      split_ifs at hl ⊢ with heq
      · rw [heq, Nat.mul_comm c.missSet, Nat.mul_add_div hg.ways, Nat.div_eq_of_lt hm.way, add_zero,
          Nat.mod_eq_of_lt hm.set, hm.block]
        exact hb
      · exact h.lines l hl
    · intro set
      dsimp only [setCell]
      split_ifs
      · exact nextWay_lt hg.ways hm.way
      · exact h.victim set
    · rintro (hf | ⟨hf, -⟩) <;> cases hf
  · exact
      { lines := h.lines
        victim := h.victim
        word := fun _ ↦ fillWord_succ_lt hword hlast
        wb := fun hwb ↦ absurd (hs.symm.trans hwb) (by decide)
        miss := fun _ ↦ ⟨b, hb, hm.set, hm.way, hm.block, hm.base⟩ }
  · exact
      { lines := h.lines
        victim := h.victim
        word := fun _ ↦ hword
        wb := fun hwb ↦ absurd (hs.symm.trans hwb) (by decide)
        miss := fun _ ↦ ⟨b, hb, hm.set, hm.way, hm.block, hm.base⟩ }

/-- One clock edge of the cache, for a request below the bound. -/
theorem Below.step (hg : g.Fits L) (h : c.Below g L)
    (hq : (q.read || q.write) = true → q.addr.toNat < L) :
    (c.step g q mDataI mAck flushAll).Below g L := by
  unfold DCache.step
  split
  case h_1 hs => exact h.stepIdle hg hs hq
  case h_2 hs => exact h.quiet rfl rfl rfl rfl
  case h_3 hs => exact h.stepWb hg hs
  case h_4 hs => exact h.stepFill hg hs
  case h_5 hs =>
    split_ifs with hdirty
    · rw [Bool.and_eq_true] at hdirty
      exact
        { lines := h.lines
          victim := h.victim
          word := fun _ ↦ Nat.div_pos hg.line (by decide)
          wb := fun _ ↦ ⟨_, h.lines _ hdirty.1, rfl⟩
          miss := fun hm ↦ by simp at hm }
    · exact h.advanceScan rfl rfl rfl

end DCache

/-! ## The core -/

section Core

variable {w k : ℕ} {P : Params} {s₀ : State w k} {ins : ℕ → Inputs}

/-- A load or store at or above `MMIO_BASE` is in the memory stage. -/
def MmioAccess (s : State w k) : Prop :=
  (s.reg3.memRead || s.reg3.memWrite) = true ∧ mmioBase ≤ s.reg3.aluOut.toNat

/-- A bus transaction for the access in the memory stage: not of the walker, of its direction, and
at its address. -/
structure Transaction (P : Params) (s : State w k) : Prop where
  cyc : (busReq P s).cyc = true
  ack : lsuAck P s = true
  notWalker : ¬(s.ptw.busy = true ∧ s.dcache.mCyc = false)
  we : (busReq P s).we = s.reg3.memWrite
  addr : (busReq P s).addr = s.reg3.aluOut

/-- An instruction enters the memory stage in cycle `n`. -/
def EntersMem (P : Params) (s₀ : State w k) (ins : ℕ → Inputs) : ℕ → Prop
  | 0 => True
  | n + 1 => memHold P (run P s₀ ins n) = false

/-- The instruction in the memory stage in cycle `n` is still there in cycle `m`. -/
def StaysInMem (P : Params) (s₀ : State w k) (ins : ℕ → Inputs) (n m : ℕ) : Prop :=
  n ≤ m ∧ ∀ j, n ≤ j → j < m → memHold P (run P s₀ ins j) = true

/-- Peripheral accesses are bus transactions, and the cache has none of its own there. -/
structure MmioUncached (P : Params) (s₀ : State w k) (ins : ℕ → Inputs) : Prop where
  direct : ∀ n, EntersMem P s₀ ins n → MmioAccess (run P s₀ ins n) →
    ∃! m, StaysInMem P s₀ ins n m ∧ Transaction P (run P s₀ ins m)
  clean : ∀ n, (run P s₀ ins n).dcache.mCyc = true →
    ((run P s₀ ins n).dcache.busReq P.dcache).addr.toNat < mmioBase

theorem run_dcache (P : Params) (s₀ : State w k) (ins : ℕ → Inputs) (n : ℕ) :
    (run P s₀ ins (n + 1)).dcache =
      (run P s₀ ins n).dcache.step P.dcache (dcacheReq (run P s₀ ins n))
        (readData P (run P s₀ ins n)) (lsuAck P (run P s₀ ins n))
        ((run P s₀ ins n).fencePending && !(run P s₀ ins n).ptw.busy &&
          !(run P s₀ ins n).fenceFlushStarted) := rfl

theorem run_reg3_of_hold {n : ℕ} (h : memHold P (run P s₀ ins n) = true) :
    (run P s₀ ins (n + 1)).reg3 = (run P s₀ ins n).reg3 := by
  have hrun : (run P s₀ ins (n + 1)).reg3 =
      (run P s₀ ins n).reg3.step (memHold P (run P s₀ ins n)) (reg3Next P (run P s₀ ins n) (ins n)) :=
    rfl
  rw [hrun, h]
  rfl

theorem StaysInMem.reg3_eq {n m : ℕ} (h : StaysInMem P s₀ ins n m) :
    (run P s₀ ins m).reg3 = (run P s₀ ins n).reg3 := by
  obtain ⟨hle, hhold⟩ := h
  induction m, hle using Nat.le_induction with
  | base => rfl
  | succ m hle ih =>
    rw [run_reg3_of_hold (hhold m hle (Nat.lt_succ_self m))]
    exact ih fun j hj hlt ↦ hhold j hj (Nat.lt_succ_of_lt hlt)

/-- Without peripheral accesses the cache stays below the peripherals. -/
theorem below_run (hg : P.dcache.Fits mmioBase) (h : ∀ n, ¬MmioAccess (run P s₀ ins n)) (n : ℕ) :
    (run P s₀ ins n).dcache.Below P.dcache mmioBase := by
  induction n with
  | zero => exact DCache.below_reset hg.ways s₀.dcache
  | succ n ih =>
    rw [run_dcache]
    refine ih.step hg fun hreq ↦ ?_
    by_contra hge
    refine h n ⟨?_, not_lt.1 hge⟩
    unfold dcacheReq at hreq
    dsimp only at hreq
    rw [← Bool.and_or_distrib_right, Bool.and_eq_true] at hreq
    exact hreq.1

/-- The first cycle of a stay in the memory stage. -/
theorem exists_enters {n : ℕ} (h : MmioAccess (run P s₀ ins n)) :
    ∃ m, EntersMem P s₀ ins m ∧ MmioAccess (run P s₀ ins m) := by
  induction n with
  | zero => exact ⟨0, trivial, h⟩
  | succ n ih =>
    cases hhold : memHold P (run P s₀ ins n) with
    | false => exact ⟨n + 1, hhold, h⟩
    | true =>
      refine ih ?_
      unfold MmioAccess at h ⊢
      rwa [run_reg3_of_hold hhold] at h

/-- A transaction for a data access comes from the cache. -/
theorem Transaction.mCyc {s : State w k} (hP : P.cacheMode = .writebackSetassoc)
    (h : Transaction P s) : s.dcache.mCyc = true := by
  have hcyc := h.cyc
  have hwalker := h.notWalker
  unfold busReq at hcyc
  rw [hP] at hcyc
  dsimp only at hcyc
  cases hm : s.dcache.mCyc with
  | true => rfl
  | false =>
    rw [hm, if_neg Bool.false_ne_true] at hcyc
    cases hb : s.ptw.busy with
    | true => exact absurd ⟨hb, hm⟩ hwalker
    | false =>
      rw [hb, if_neg Bool.false_ne_true] at hcyc
      cases hcyc

theorem busReq_of_mCyc {s : State w k} (hP : P.cacheMode = .writebackSetassoc)
    (h : s.dcache.mCyc = true) : busReq P s = s.dcache.busReq P.dcache := by
  unfold busReq
  rw [hP]
  dsimp only
  rw [if_pos h]

/-- The peripherals are left alone exactly by the runs that do not access them. -/
theorem mmioUncached_iff (hP : P.cacheMode = .writebackSetassoc) (hg : P.dcache.Fits mmioBase) :
    MmioUncached P s₀ ins ↔ ∀ n, ¬MmioAccess (run P s₀ ins n) := by
  constructor
  · intro h n hn
    obtain ⟨m, henter, hm⟩ := exists_enters hn
    obtain ⟨j, ⟨hstay, htxn⟩, -⟩ := h.direct m henter hm
    have hlt := h.clean j (htxn.mCyc hP)
    rw [← busReq_of_mCyc hP (htxn.mCyc hP), htxn.addr, hstay.reg3_eq] at hlt
    exact absurd hlt (not_lt.2 hm.2)
  · intro h
    exact ⟨fun n _ hn ↦ absurd hn (h n), fun n hcyc ↦ (below_run hg h n).busReq_lt hcyc⟩

theorem fits_default : ({} : CacheGeometry).Fits mmioBase :=
  ⟨by decide, by decide, by decide⟩

/-- `lui x1, 0x10000; lw x2, 0(x1)`: a load from the UART. -/
def uartLoad : Params :=
  { insts := instsOfWords [0x100000B7, 0x0000A103, 0x00000013], cacheMode := .writebackSetassoc }

theorem mmioUncached_iff_uartLoad :
    ¬MmioUncached uartLoad (default : State 32 0) (fun _ ↦ {}) ∧
      MmioAccess (run uartLoad (default : State 32 0) (fun _ ↦ {}) 10) := by
  have haccess : MmioAccess (run uartLoad (default : State 32 0) (fun _ ↦ {}) 10) := by
    unfold MmioAccess
    decide +kernel
  exact ⟨fun h ↦ (mmioUncached_iff rfl fits_default).1 h 10 haccess, haccess⟩

/-- The load is served by a line fill from the UART. -/
theorem not_mmioUncached : ¬MmioUncached uartLoad (default : State 32 0) (fun _ ↦ {}) :=
  fun h ↦ absurd (h.clean 10 (by decide +kernel)) (by decide +kernel)

end Core

end RvPipeline
