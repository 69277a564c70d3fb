import RvPipeline.Mem.Bytes
import RvPipeline.Mem.Coherence

/-!
# Words and bytes of the data cache

The cache keeps 32-bit words and selects the bytes of an access itself.  For naturally aligned
accesses both directions are those of the byte array.
-/

namespace RvPipeline

/-- The word number `x` of an array of bytes. -/
def wordOf (b : ℕ → BitVec 8) (x : ℕ) : BitVec 32 :=
  b (4 * x + 3) ++ b (4 * x + 2) ++ b (4 * x + 1) ++ b (4 * x)

/-- Natural alignment. -/
def MemOp.Aligned : MemOp 32 → Prop
  | .load addr f3 => addr.toNat % accessBytes f3 = 0
  | .store addr _ f3 => addr.toNat % accessBytes f3 = 0
  | _ => True

theorem byte_wordOf (b : ℕ → BitVec 8) (x : ℕ) {k : ℕ} (hk : k < 4) :
    (wordOf b x).extractLsb' (8 * k) 8 = b (4 * x + k) := by
  rw [wordOf]
  interval_cases k <;> simp (disch := omega) only [BitVec.extractLsb'_append_eq_of_le,
    BitVec.extractLsb'_append_eq_of_add_le, BitVec.extractLsb'_eq_self, Nat.reduceMul,
    Nat.reduceSub, Nat.add_zero]

theorem eq_of_bytes {v v' : BitVec 32}
    (h : ∀ k < 4, v.extractLsb' (8 * k) 8 = v'.extractLsb' (8 * k) 8) : v = v' := by
  refine BitVec.eq_of_getLsbD_eq fun j hj ↦ ?_
  have hbyte := congrArg (fun y : BitVec 8 ↦ y.getLsbD (j % 8)) (h (j / 8) (by omega))
  have hlt : j % 8 < 8 := Nat.mod_lt _ (by decide)
  simpa only [BitVec.getLsbD_extractLsb', hlt, decide_true, Bool.true_and, Nat.div_add_mod]
    using hbyte

/-! ## Stores -/

/-- One arm of `dcache_merge_write`: `n` bytes of the data go to byte `s` on. -/
theorem byte_place (old data : BitVec 32) {mask : BitVec 32} {s n k : ℕ} (hk : k < 4)
    (hmask : ∀ j < 32, mask.getLsbD j = decide (j < 8 * n)) :
    ((old &&& ~~~(mask <<< (8 * s))) ||| ((data &&& mask) <<< (8 * s))).extractLsb' (8 * k) 8 =
      if s ≤ k ∧ k < s + n then data.extractLsb' (8 * (k - s)) 8
      else old.extractLsb' (8 * k) 8 := by
  refine BitVec.eq_of_getLsbD_eq fun j hj ↦ ?_
  have hlt : 8 * k + j < 32 := by omega
  have hmask' := hmask (8 * k + j - 8 * s) (by omega)
  simp only [BitVec.getLsbD_extractLsb', hj, decide_true, Bool.true_and, BitVec.getLsbD_or,
    BitVec.getLsbD_and, BitVec.getLsbD_not, BitVec.getLsbD_shiftLeft, hlt, hmask']
  split_ifs with hin
  · have hsub : 8 * (k - s) + j = 8 * k + j - 8 * s := by omega
    have hge : ¬8 * k + j < 8 * s := by omega
    have hlow : 8 * k + j - 8 * s < 8 * n := by omega
    simp [hsub, hge, hlow, hj]
  · by_cases hge : 8 * k + j < 8 * s
    · simp [hge, hj]
    · have hhigh : ¬8 * k + j - 8 * s < 8 * n := by omega
      simp [hge, hhigh, hj]

theorem mask8 (j : ℕ) (hj : j < 32) : (0xFF#32).getLsbD j = decide (j < 8 * 1) := by
  revert j
  decide

theorem mask16 (j : ℕ) (hj : j < 32) : (0xFFFF#32).getLsbD j = decide (j < 8 * 2) := by
  revert j
  decide

/-- `dcache_merge_write`, byte by byte. -/
theorem byte_mergeWrite (old data : BitVec 32) {f3 : BitVec 3} (hf : storeLegal 32 f3 = true)
    {off : BitVec 2} (hal : off.toNat % accessBytes f3 = 0) {k : ℕ} (hk : k < 4) :
    (DCache.mergeWrite old (f3.extractLsb' 0 2) off data).extractLsb' (8 * k) 8 =
      if off.toNat ≤ k ∧ k < off.toNat + accessBytes f3 then
        data.extractLsb' (8 * (k - off.toNat)) 8
      else old.extractLsb' (8 * k) 8 := by
  have hf' : f3 = 0b000#3 ∨ f3 = 0b001#3 ∨ f3 = 0b010#3 := by
    simp only [storeLegal, Bool.or_eq_true, beq_iff_eq, Bool.and_eq_true] at hf
    rcases hf with ((hf | hf) | hf) | hf
    · exact .inl hf
    · exact .inr (.inl hf)
    · exact .inr (.inr hf)
    · exact absurd hf.1 (by decide)
  have hoff := off.isLt
  rcases hf' with rfl | rfl | rfl
  · exact byte_place old data hk mask8
  · have hbytes : accessBytes 0b001#3 = 2 := rfl
    rw [hbytes] at hal ⊢
    have hshift : (if off.getLsbD 1 then 16 else 0) = 8 * off.toNat := by
      revert hal
      revert off
      decide
    have hmerge : DCache.mergeWrite old ((0b001#3).extractLsb' 0 2) off data =
        (old &&& ~~~(0xFFFF#32 <<< (8 * off.toNat))) ||| ((data &&& 0xFFFF#32) <<< (8 * off.toNat)) := by
      rw [← hshift]
      rfl
    rw [hmerge]
    exact byte_place old data hk mask16
  · have hbytes : accessBytes 0b010#3 = 4 := rfl
    rw [hbytes] at hal ⊢
    have hzero : off.toNat = 0 := by omega
    rw [hzero, if_pos (by omega)]
    rfl

theorem accessBytes_dvd : ∀ f3 : BitVec 3, loadLegal 32 f3 = true → accessBytes f3 ∣ 4 := by
  decide

theorem loadLegal_of_storeLegal :
    ∀ f3 : BitVec 3, storeLegal 32 f3 = true → loadLegal 32 f3 = true := by
  decide

/-- An aligned access does not reach into the next word. -/
theorem aligned_room {addr : BitVec 32} {f3 : BitVec 3} (hf : loadLegal 32 f3 = true)
    (hal : addr.toNat % accessBytes f3 = 0) :
    addr.toNat % 4 % accessBytes f3 = 0 ∧ addr.toNat % 4 + accessBytes f3 ≤ 4 := by
  have hlen := accessBytes_dvd f3 hf
  have hal' : addr.toNat % 4 % accessBytes f3 = 0 := by
    rw [Nat.mod_mod_of_dvd _ hlen, hal]
  refine ⟨hal', ?_⟩
  obtain ⟨d, hd⟩ := hlen
  obtain ⟨e, he⟩ := Nat.dvd_of_mod_eq_zero hal'
  have hlt : addr.toNat % 4 < 4 := Nat.mod_lt _ (by decide)
  rw [he] at hlt ⊢
  have hed : accessBytes f3 * e < accessBytes f3 * d := by omega
  have hle := Nat.mul_le_mul_left (accessBytes f3) (Nat.lt_of_mul_lt_mul_left hed)
  rw [Nat.mul_succ] at hle
  omega

theorem toNat_setWidth_two (addr : BitVec 32) : (addr.setWidth 2).toNat = addr.toNat % 4 := by
  rw [BitVec.toNat_setWidth]

/-- A store to the array, word by word. -/
theorem wordOf_storeBytesTo (b : ℕ → BitVec 8) {addr data : BitVec 32} {f3 : BitVec 3}
    (hf : storeLegal 32 f3 = true) (hal : addr.toNat % accessBytes f3 = 0) (x : ℕ) :
    wordOf (storeBytesTo b addr data f3) x =
      if x = wordIdx addr then
        DCache.mergeWrite (wordOf b x) (f3.extractLsb' 0 2) (addr.setWidth 2) data
      else wordOf b x := by
  obtain ⟨hal', hroom⟩ := aligned_room (loadLegal_of_storeLegal f3 hf) hal
  have hoff := toNat_setWidth_two addr
  rw [← hoff] at hal'
  refine eq_of_bytes fun k hk ↦ ?_
  rw [byte_wordOf _ _ hk, storeBytesTo]
  split_ifs with hin hx hx
  · subst hx
    rw [byte_mergeWrite _ _ hf hal' hk, hoff, if_pos (by simp only [wordIdx] at hin; omega)]
    congr 2
    simp only [wordIdx]
    omega
  · simp only [wordIdx] at hx
    omega
  · subst hx
    rw [byte_mergeWrite _ _ hf hal' hk, hoff, if_neg (by simp only [wordIdx] at hin; omega),
      byte_wordOf _ _ hk]
  · rw [byte_wordOf _ _ hk]

/-! ## Loads -/

/-- Equal bytes make equal fields. -/
theorem field_eq {v v' : BitVec 32} {s n : ℕ}
    (h : ∀ k < n, v.extractLsb' (8 * (s + k)) 8 = v'.extractLsb' (8 * k) 8) :
    v.extractLsb' (8 * s) (8 * n) = v'.setWidth (8 * n) := by
  refine BitVec.eq_of_getLsbD_eq fun j hj ↦ ?_
  have hbyte := congrArg (fun y : BitVec 8 ↦ y.getLsbD (j % 8)) (h (j / 8) (by omega))
  have hlt : j % 8 < 8 := Nat.mod_lt _ (by decide)
  simp only [BitVec.getLsbD_extractLsb', hlt, decide_true, Bool.true_and] at hbyte
  rw [BitVec.getLsbD_extractLsb', BitVec.getLsbD_setWidth, decide_eq_true hj, Bool.true_and,
    Bool.true_and, show 8 * s + j = 8 * (s + j / 8) + j % 8 by omega, hbyte, Nat.div_add_mod]

theorem loadLegal_cases : ∀ f3 : BitVec 3, loadLegal 32 f3 = true →
    f3 = 0b000#3 ∨ f3 = 0b100#3 ∨ f3 = 0b001#3 ∨ f3 = 0b101#3 ∨ f3 = 0b010#3 := by
  decide

theorem half_eq (v : BitVec 32) {off : BitVec 2} (hal : off.toNat % 2 = 0) :
    (if off.getLsbD 1 then v.extractLsb' 16 16 else v.extractLsb' 0 16) =
      v.extractLsb' (8 * off.toNat) 16 := by
  have hcases : ∀ off : BitVec 2, off.toNat % 2 = 0 → off = 0#2 ∨ off = 2#2 := by decide
  rcases hcases off hal with rfl | rfl
  · rfl
  · rfl

/-- What a load gets from its word is what the RAM gives for its address. -/
theorem extendRead_wordOf (b : ℕ → BitVec 8) {addr raw : BitVec 32} {f3 : BitVec 3}
    (hf : loadLegal 32 f3 = true) (hal : addr.toNat % accessBytes f3 = 0)
    (hraw : ∀ k < accessBytes f3, raw.extractLsb' (8 * k) 8 = b (addr.toNat + k)) :
    DCache.extendRead (wordOf b (wordIdx addr)) f3 (addr.setWidth 2) = loadExtend f3 raw := by
  obtain ⟨hal', hroom⟩ := aligned_room hf hal
  have hoff := toNat_setWidth_two addr
  have hbytes : ∀ k < accessBytes f3,
      (wordOf b (wordIdx addr)).extractLsb' (8 * (addr.toNat % 4 + k)) 8 =
        raw.extractLsb' (8 * k) 8 := by
    intro k hk
    rw [byte_wordOf _ _ (by omega), hraw k hk, wordIdx]
    congr 1
    omega
  have hfield := field_eq hbytes
  rw [← hoff] at hfield hal'
  generalize addr.setWidth 2 = off at *
  generalize wordOf b (wordIdx addr) = v at *
  rcases loadLegal_cases f3 hf with rfl | rfl | rfl | rfl | rfl
  · have hbyte : v.extractLsb' (8 * off.toNat) 8 = raw.setWidth 8 := hfield
    simp [DCache.extendRead, loadExtend, hbyte]
  · have hbyte : v.extractLsb' (8 * off.toNat) 8 = raw.setWidth 8 := hfield
    simp [DCache.extendRead, loadExtend, hbyte]
  · have hhalf : v.extractLsb' (8 * off.toNat) 16 = raw.setWidth 16 := hfield
    rw [← half_eq v hal', BitVec.getLsbD_eq_getElem (by decide)] at hhalf
    simp [DCache.extendRead, loadExtend, hhalf]
  · have hhalf : v.extractLsb' (8 * off.toNat) 16 = raw.setWidth 16 := hfield
    rw [← half_eq v hal', BitVec.getLsbD_eq_getElem (by decide)] at hhalf
    simp [DCache.extendRead, loadExtend, hhalf]
  · have hzero : off.toNat = 0 := by
      have := off.isLt
      have hbytes : accessBytes 0b010#3 = 4 := rfl
      omega
    have hword : v.extractLsb' (8 * off.toNat) 32 = raw.setWidth 32 := hfield
    rw [hzero, BitVec.setWidth_eq] at hword
    rw [← hword]
    simp [DCache.extendRead, loadExtend]

end RvPipeline
