import Mathlib

/-!
# Packed bytes

Big-endian integers in byte strings, slices, padding to four bytes and NUL-terminated names, with the
readers that take them back off the front of a byte string.
-/

namespace Py

/-- `bytes`. -/
abbrev Bytes := List (BitVec 8)

/-! ## Integers -/

/-- The `k` low bytes of `n`, most significant first. -/
def bytesBE : ℕ → ℕ → Bytes
  | 0, _ => []
  | k + 1, n => BitVec.ofNat 8 (n / 256 ^ k) :: bytesBE k n

/-- `struct.pack` of one unsigned field of `k` bytes. -/
def packBE (k n : ℕ) : Option Bytes := if n < 256 ^ k then some (bytesBE k n) else none

def natBE (bs : Bytes) : ℕ := bs.foldl (fun acc b ↦ acc * 256 + b.toNat) 0

/-- The first `k` bytes as a number, and what follows them. -/
def readBE (k : ℕ) (bs : Bytes) : Option (ℕ × Bytes) :=
  if k ≤ bs.length then some (natBE (bs.take k), bs.drop k) else none

@[simp] theorem length_bytesBE (k n : ℕ) : (bytesBE k n).length = k := by
  induction k with
  | zero => rfl
  | succ k ih => simp [bytesBE, ih]

theorem foldl_bytesBE (k n acc : ℕ) :
    (bytesBE k n).foldl (fun acc b ↦ acc * 256 + b.toNat) acc = acc * 256 ^ k + n % 256 ^ k := by
  induction k generalizing acc with
  | zero => simp [bytesBE, Nat.mod_one]
  | succ k ih =>
    have hdigit : n % 256 ^ (k + 1) = n / 256 ^ k % 256 * 256 ^ k + n % 256 ^ k := by
      rw [pow_succ, Nat.mod_mul, Nat.mul_comm]
      omega
    rw [bytesBE, List.foldl_cons, ih, BitVec.toNat_ofNat, hdigit]
    ring

theorem natBE_bytesBE {k n : ℕ} (h : n < 256 ^ k) : natBE (bytesBE k n) = n := by
  rw [natBE, foldl_bytesBE, Nat.mod_eq_of_lt h]
  omega

theorem readBE_append {k n : ℕ} (h : n < 256 ^ k) (rest : Bytes) :
    readBE k (bytesBE k n ++ rest) = some (n, rest) := by
  have hlen := length_bytesBE k n
  rw [readBE, if_pos (by simp), List.take_left' hlen, List.drop_left' hlen, natBE_bytesBE h]

theorem natBE_cons (b : BitVec 8) (bs : Bytes) :
    natBE (b :: bs) = b.toNat * 256 ^ bs.length + natBE bs := by
  have hacc : ∀ (l : Bytes) (acc : ℕ),
      l.foldl (fun acc b ↦ acc * 256 + b.toNat) acc = acc * 256 ^ l.length + natBE l := by
    intro l
    induction l with
    | nil => simp [natBE]
    | cons c l ih =>
      intro acc
      have hc : natBE (c :: l) = (0 * 256 + c.toNat) * 256 ^ l.length + natBE l := ih _
      rw [List.foldl_cons, ih, hc, List.length_cons, pow_succ]
      ring
  rw [natBE, List.foldl_cons, hacc]
  ring

theorem natBE_lt (bs : Bytes) : natBE bs < 256 ^ bs.length := by
  induction bs with
  | nil => simp [natBE]
  | cons b bs ih =>
    have hb := b.isLt
    rw [natBE_cons, List.length_cons, pow_succ]
    nlinarith

theorem bytesBE_add_mul (k n m : ℕ) : bytesBE k (n + m * 256 ^ k) = bytesBE k n := by
  induction k generalizing m with
  | zero => rfl
  | succ k ih =>
    have hdiv : (n + m * 256 ^ (k + 1)) / 256 ^ k = n / 256 ^ k + m * 256 := by
      rw [pow_succ, show n + m * (256 ^ k * 256) = n + m * 256 * 256 ^ k by ring,
        Nat.add_mul_div_right _ _ (by positivity)]
    have hlow : n + m * 256 ^ (k + 1) = n + m * 256 * 256 ^ k := by ring
    rw [bytesBE, bytesBE, hdiv, hlow, ih]
    congr 1
    apply BitVec.eq_of_toNat_eq
    simp [Nat.add_mul_mod_self_right]

theorem bytesBE_natBE (bs : Bytes) : bytesBE bs.length (natBE bs) = bs := by
  induction bs with
  | nil => rfl
  | cons b bs ih =>
    have hlt := natBE_lt bs
    have hdiv : (natBE bs + b.toNat * 256 ^ bs.length) / 256 ^ bs.length = b.toNat := by
      rw [Nat.add_mul_div_right _ _ (by positivity), Nat.div_eq_of_lt hlt, Nat.zero_add]
    rw [List.length_cons, bytesBE, natBE_cons, Nat.add_comm, hdiv, bytesBE_add_mul, ih,
      BitVec.ofNat_toNat, BitVec.setWidth_eq]

theorem readBE_eq_some_iff {k n : ℕ} {bs rest : Bytes} :
    readBE k bs = some (n, rest) ↔ n < 256 ^ k ∧ bs = bytesBE k n ++ rest := by
  constructor
  · intro h
    rw [readBE] at h
    split_ifs at h with hk
    obtain ⟨rfl, rfl⟩ : natBE (bs.take k) = n ∧ bs.drop k = rest := by simpa using h
    have hlen : (bs.take k).length = k := List.length_take_of_le hk
    have hlt := natBE_lt (bs.take k)
    have hback := bytesBE_natBE (bs.take k)
    rw [hlen] at hlt hback
    exact ⟨hlt, by rw [hback, List.take_append_drop]⟩
  · rintro ⟨hn, rfl⟩
    exact readBE_append hn rest

theorem readBE_eq_none_iff {k : ℕ} {bs : Bytes} : readBE k bs = none ↔ bs.length < k := by
  simp [readBE]

/-! ## Slices -/

/-- `bs[a:b]`. -/
def slice (bs : Bytes) (a b : ℕ) : Bytes := (bs.drop a).take (b - a)

theorem slice_append {pre mid post : Bytes} {a b : ℕ} (ha : pre.length = a)
    (hb : a + mid.length = b) : slice (pre ++ (mid ++ post)) a b = mid := by
  rw [slice, List.drop_left' ha, List.take_left' (by omega)]

/-! ## Padding -/

/-- `n` rounded up to a multiple of four. -/
def roundUp4 (n : ℕ) : ℕ := (n + 3) / 4 * 4

/-- `data + b"\x00" * (-len(data) % 4)`. -/
def align4 (data : Bytes) : Bytes := data ++ List.replicate ((-(data.length : ℤ)) % 4).toNat 0

theorem length_align4 (data : Bytes) : (align4 data).length = roundUp4 data.length := by
  rw [align4, List.length_append, List.length_replicate, roundUp4]
  omega

theorem drop_align4 (data rest : Bytes) :
    (align4 data ++ rest).drop (roundUp4 data.length) = rest :=
  List.drop_left' (length_align4 data)

theorem take_align4 (data rest : Bytes) : (align4 data ++ rest).take data.length = data := by
  rw [align4, List.append_assoc]
  exact List.take_left' rfl

/-! ## Names -/

/-- A name up to its NUL, if there is one. -/
def cstring (bs : Bytes) : Option Bytes :=
  if 0 ∈ bs then some (bs.takeWhile (· ≠ 0)) else none

theorem takeWhile_cstring {name rest : Bytes} (h : (0 : BitVec 8) ∉ name) :
    (name ++ 0 :: rest).takeWhile (· ≠ 0) = name := by
  induction name with
  | nil => simp
  | cons b name ih =>
    rw [List.mem_cons, not_or] at h
    rw [List.cons_append, List.takeWhile_cons_of_pos (by simpa using Ne.symm h.1), ih h.2]

theorem cstring_append {name rest : Bytes} (h : (0 : BitVec 8) ∉ name) :
    cstring (name ++ 0 :: rest) = some name := by
  rw [cstring, if_pos (by simp), takeWhile_cstring h]

theorem cstring_eq_some_iff {bs name : Bytes} :
    cstring bs = some name ↔ (0 : BitVec 8) ∉ name ∧ ∃ rest, bs = name ++ 0 :: rest := by
  constructor
  · intro h
    rw [cstring] at h
    split_ifs at h with hmem
    obtain rfl : bs.takeWhile (· ≠ 0) = name := by simpa using h
    refine ⟨fun h0 ↦ by simpa using List.mem_takeWhile_imp h0, ?_⟩
    have hsplit := List.takeWhile_append_dropWhile (p := fun b : BitVec 8 ↦ decide (b ≠ 0)) (l := bs)
    cases hd : bs.dropWhile (fun b : BitVec 8 ↦ decide (b ≠ 0)) with
    | nil =>
      rw [hd, List.append_nil] at hsplit
      rw [← hsplit] at hmem
      exact absurd (List.mem_takeWhile_imp hmem) (by simp)
    | cons b rest =>
      have hb : b = 0 := by
        have := List.head?_dropWhile_not (fun b : BitVec 8 ↦ decide (b ≠ 0)) bs
        rw [hd] at this
        simpa using this
      subst hb
      rw [hd] at hsplit
      exact ⟨rest, hsplit.symm⟩
  · rintro ⟨hname, rest, rfl⟩
    exact cstring_append hname

theorem cstring_eq_none_iff {bs : Bytes} : cstring bs = none ↔ (0 : BitVec 8) ∉ bs := by
  simp [cstring]

end Py
