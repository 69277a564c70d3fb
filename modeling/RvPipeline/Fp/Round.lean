import Mathlib.Data.Rat.Floor
import Mathlib.Tactic.FinCases
import RvPipeline.Iss.Float
import RvPipeline.Lib.Rounding

/-!
# One rounding

`round_and_pack` on guard, round and sticky bits is the reference's rounding of the exact value,
except that a value flushed to zero without loss does not count as inexact.
-/

namespace RvPipeline

open Rounding

namespace IssFloat

/-! ## Normalisation -/

section Exponent

variable {s : ℤ} {x : ℚ} {e : ℤ}

theorem raiseExp_eq (hs : 0 < s) (hle : (2 : ℚ) ^ (s * e) ≤ x) (hlt : x < 2 ^ (s * (e + 1)))
    {fuel : ℕ} {e₀ : ℤ} (h₀ : e₀ ≤ e) (hfuel : e ≤ e₀ + fuel) : raiseExp s x fuel e₀ = e := by
  induction fuel generalizing e₀ with
  | zero =>
    rw [raiseExp]
    push_cast at hfuel
    omega
  | succ fuel ih =>
    rw [raiseExp]
    rcases eq_or_lt_of_le h₀ with rfl | hlt'
    · rw [if_neg (not_le.2 hlt)]
    · have hstep : (2 : ℚ) ^ (s * (e₀ + 1)) ≤ x := by
        refine le_trans (zpow_le_zpow_right₀ one_le_two ?_) hle
        exact mul_le_mul_of_nonneg_left hlt' hs.le
      rw [if_pos hstep]
      push_cast at hfuel
      exact ih (by omega) (by omega)

theorem lowerExp_eq (hle : (2 : ℚ) ^ (s * e) ≤ x) (fuel : ℕ) : lowerExp s x fuel e = e := by
  cases fuel with
  | zero => rfl
  | succ fuel => rw [lowerExp, if_neg (not_lt.2 hle)]

/-- The bit lengths bracket a positive rational. -/
theorem bitLengthDiff_bounds (hx : 0 < x) :
    (2 : ℚ) ^ (bitLengthDiff x - 1) < x ∧ x < 2 ^ (bitLengthDiff x + 1) := by
  have hnum : 0 < x.num.natAbs := Int.natAbs_pos.2 (Rat.num_pos.2 hx).ne'
  have hden : 0 < x.den := x.den_pos
  have hn1 : 2 ^ (x.num.natAbs.size - 1) ≤ x.num.natAbs :=
    Nat.lt_size.1 (Nat.sub_lt (Nat.size_pos.2 hnum) one_pos)
  have hn2 := Nat.lt_size_self x.num.natAbs
  have hd1 : 2 ^ (x.den.size - 1) ≤ x.den :=
    Nat.lt_size.1 (Nat.sub_lt (Nat.size_pos.2 hden) one_pos)
  have hd2 := Nat.lt_size_self x.den
  have hsn := Nat.size_pos.2 hnum
  have hsd := Nat.size_pos.2 hden
  have hxeq : x = (x.num.natAbs : ℚ) / x.den := by
    have habs : ((x.num.natAbs : ℤ) : ℚ) = x.num := by
      rw [Int.natAbs_of_nonneg (Rat.num_nonneg.2 hx.le)]
    rw [← Int.cast_natCast, habs, Rat.num_div_den]
  have hdq : (0 : ℚ) < x.den := by exact_mod_cast hden
  have hn1q : (2 : ℚ) ^ (x.num.natAbs.size - 1) ≤ x.num.natAbs := by exact_mod_cast hn1
  have hn2q : (x.num.natAbs : ℚ) < 2 ^ x.num.natAbs.size := by exact_mod_cast hn2
  have hd1q : (2 : ℚ) ^ (x.den.size - 1) ≤ x.den := by exact_mod_cast hd1
  have hd2q : (x.den : ℚ) < 2 ^ x.den.size := by exact_mod_cast hd2
  constructor
  · conv_rhs => rw [hxeq]
    rw [lt_div_iff₀ hdq]
    calc (2 : ℚ) ^ (bitLengthDiff x - 1) * x.den
        < 2 ^ (bitLengthDiff x - 1) * 2 ^ x.den.size := by gcongr
      _ = 2 ^ (x.num.natAbs.size - 1) := by
        rw [← zpow_natCast, ← zpow_natCast, ← zpow_add₀ two_ne_zero, bitLengthDiff]
        congr 1
        omega
      _ ≤ x.num.natAbs := hn1q
  · conv_lhs => rw [hxeq]
    rw [div_lt_iff₀ hdq]
    calc (x.num.natAbs : ℚ) < 2 ^ x.num.natAbs.size := hn2q
      _ = 2 ^ (bitLengthDiff x + 1) * 2 ^ (x.den.size - 1) := by
        rw [← zpow_natCast, ← zpow_natCast, ← zpow_add₀ two_ne_zero, bitLengthDiff]
        congr 1
        omega
      _ ≤ 2 ^ (bitLengthDiff x + 1) * x.den := by gcongr

/-- The two loops end at the exponent. -/
theorem searchExp_eq (hs : s = 1 ∨ s = 2) (hle : (2 : ℚ) ^ (s * e) ≤ x)
    (hlt : x < 2 ^ (s * (e + 1))) :
    lowerExp s x expFuel (raiseExp s x expFuel (bitLengthDiff x / s - 1)) = e := by
  have hx : 0 < x := lt_of_lt_of_le (by positivity) hle
  obtain ⟨hlow, hhigh⟩ := bitLengthDiff_bounds hx
  have h1 : s * e < bitLengthDiff x + 1 :=
    (zpow_lt_zpow_iff_right₀ one_lt_two).1 (lt_of_le_of_lt hle hhigh)
  have h2 : bitLengthDiff x - 1 < s * (e + 1) :=
    (zpow_lt_zpow_iff_right₀ one_lt_two).1 (hlow.trans hlt)
  have hraise : raiseExp s x expFuel (bitLengthDiff x / s - 1) = e := by
    rcases hs with rfl | rfl
    · exact raiseExp_eq one_pos hle hlt (by omega) (by simp only [expFuel]; omega)
    · exact raiseExp_eq two_pos hle hlt (by omega) (by simp only [expFuel]; omega)
  rw [hraise, lowerExp_eq hle]

end Exponent

/-- The class that a half bit and the bits below it name. -/
def clsOf (half rest : Bool) : Cls :=
  match half, rest with
  | false, false => .exact
  | false, true => .below
  | true, false => .tie
  | true, true => .above

theorem classify_eq {x : ℚ} {m : ℕ} {half rest : Bool} (h : Split x m half rest) :
    classify (x - m) = clsOf half rest := by
  have hhalf := h.half_iff
  have hrest := h.rest_iff
  have hle := h.le
  unfold classify
  cases half <;> cases rest <;> simp only [Bool.false_eq_true, false_iff, true_iff, not_le,
    Bool.true_eq_false, not_or] at hhalf hrest <;> simp only [clsOf]
  · have hx : x = m := hrest.resolve_right (by linarith)
    rw [if_pos (by linarith)]
  · have hne : x - m ≠ 0 := fun hc ↦ hrest.1 (by linarith)
    rw [if_neg hne, if_pos (by linarith)]
  · have hx : x = m + 1 / 2 := hrest.resolve_left (by linarith)
    rw [if_neg (by linarith), if_neg (by linarith), if_neg (by linarith)]
  · have hne : x ≠ m + 1 / 2 := hrest.2
    have hgt : (m : ℚ) + 1 / 2 < x := lt_of_le_of_ne hhalf (Ne.symm hne)
    rw [if_neg (by linarith), if_neg (by linarith), if_pos (by linarith)]

theorem floor_toNat {x : ℚ} {m : ℕ} (hle : (m : ℚ) ≤ x) (hlt : x < m + 1) :
    (x.num / x.den).toNat = m := by
  have hfloor : ⌊x⌋ = (m : ℤ) := Int.floor_eq_iff.2 ⟨by exact_mod_cast hle, by exact_mod_cast hlt⟩
  rw [← Rat.floor_def', hfloor, Int.toNat_natCast]

/-- Normalisation, read off a significand of 24 bits. -/
theorem f32NormalizeFraction_eq {x : ℚ} {e : ℤ} {m : ℕ} {half rest : Bool}
    (h : Split (x * 2 ^ ((23 : ℕ) - e : ℤ)) m half rest) (hlow : 2 ^ 23 ≤ m) (hhigh : m < 2 ^ 24) :
    f32NormalizeFraction x = (e, m, clsOf half rest) := by
  obtain ⟨hle, hlt⟩ := h.bounds hlow hhigh
  have he := searchExp_eq (s := 1) (.inl rfl) (by simpa using hle) (by simpa using hlt)
  rw [Int.ediv_one] at he
  simp only [f32NormalizeFraction, he]
  have hm := floor_toNat h.le h.lt
  push_cast at hm h
  rw [hm, classify_eq h]

end IssFloat

namespace Fp

open IssFloat

/-! ## Encodings -/

theorem zero_eq (s : Bool) : zero s = f32PackZero s := by
  cases s <;> rfl

theorem infinity_eq (s : Bool) : infinity s = f32PackInf s := by
  cases s <;> rfl

theorem pack_eq_or (s : Bool) (e : BitVec 8) (f : BitVec 23) :
    pack s e f = signBit s ||| (e.setWidth 32 <<< 23) ||| f.setWidth 32 := by
  apply BitVec.eq_of_getLsbD_eq
  intro i hi
  have hsign : (signBit s).getLsbD i = (decide (i = 31) && s) := by
    have hall : ∀ t : Bool, ∀ k : Fin 32, (signBit t).getLsbD k = (decide (k.val = 31) && t) := by
      decide
    exact hall s ⟨i, hi⟩
  simp only [pack, BitVec.getLsbD_append, BitVec.getLsbD_or, hsign, BitVec.getLsbD_shiftLeft,
    BitVec.getLsbD_setWidth, BitVec.getLsbD_ofBool]
  rcases lt_or_ge i 23 with h23 | h23
  · simp [h23, hi, show i ≠ 31 by omega]
  · rcases lt_or_ge i 31 with h31 | h31
    · simp [show ¬i < 23 by omega, hi, show i - 23 < 8 by omega, show i ≠ 31 by omega,
        show i - 23 < 32 by omega, BitVec.getLsbD_of_ge f i h23]
    · obtain rfl : i = 31 := by omega
      simp

theorem pack_exp_sig (s : Bool) {e : ℤ} (hlow : -126 ≤ e) (hhigh : e ≤ 127) (sig : BitVec 25) :
    pack s (BitVec.ofInt 8 e + 127#8) (sig.extractLsb' 0 23) =
      signBit s ||| (BitVec.ofInt 32 (e + 127) <<< 23) |||
        (BitVec.ofNat 32 sig.toNat &&& 0x7FFFFF) := by
  have hexp : (BitVec.ofInt 8 e + 127#8).setWidth 32 = BitVec.ofInt 32 (e + 127) := by
    have hadd : BitVec.ofInt 8 e + 127#8 = BitVec.ofInt 8 (e + 127) := by
      rw [BitVec.ofInt_add]
      rfl
    apply BitVec.eq_of_toNat_eq
    rw [hadd, BitVec.toNat_setWidth_of_le (by decide), BitVec.toNat_ofInt, BitVec.toNat_ofInt]
    omega
  have hsig : (sig.extractLsb' 0 23).setWidth 32 =
      BitVec.ofNat 32 sig.toNat &&& (0x7FFFFF : BitVec 32) := by
    apply BitVec.eq_of_toNat_eq
    have hlt : sig.toNat < 2 ^ 32 := sig.isLt.trans (by decide)
    rw [BitVec.toNat_setWidth_of_le (by decide), BitVec.extractLsb'_toNat, BitVec.toNat_and,
      BitVec.toNat_ofNat, Nat.mod_eq_of_lt hlt, Nat.shiftRight_zero]
    exact (Nat.and_two_pow_sub_one_eq_mod sig.toNat 23).symm
  rw [pack_eq_or, hexp, hsig]

/-- The operand with another sign. -/
theorem pack_exp_frac (s : Bool) (x : BitVec 32) :
    pack s (exp x) (frac x) = signBit s ||| (x &&& 0x7FFFFFFF) := by
  rw [pack_eq_or, BitVec.or_assoc]
  congr 1
  apply BitVec.eq_of_getLsbD_eq
  intro i hi
  have hmask : (0x7FFFFFFF : BitVec 32).getLsbD i = decide (i < 31) := by
    have hall : ∀ k : Fin 32, (0x7FFFFFFF : BitVec 32).getLsbD k = decide (k.val < 31) := by decide
    exact hall ⟨i, hi⟩
  simp only [exp, frac, BitVec.getLsbD_or, BitVec.getLsbD_shiftLeft, BitVec.getLsbD_setWidth,
    BitVec.getLsbD_extractLsb', BitVec.getLsbD_and, hmask]
  rcases lt_or_ge i 23 with h23 | h23
  · simp [h23, hi, show i < 31 by omega]
  · rcases lt_or_ge i 31 with h31 | h31
    · simp [show ¬i < 23 by omega, hi, h31, show i - 23 < 8 by omega, show i - 23 < 32 by omega,
        show 23 + (i - 23) = i by omega]
    · obtain rfl : i = 31 := by omega
      simp

/-! ## `round_and_pack` -/

/-- The reference's packing with the flags of `round_and_pack`. -/
def packRounded (sgn : Bool) (e : ℤ) (m : ℕ) (cls : Cls) (rm : BitVec 3) : Result :=
  if cls = .exact ∧ e < -126 then { result := f32PackZero sgn, flags := fUf }
  else f32PackRounded sgn e m cls rm

/-- The rounding of an exact positive value. -/
def roundExact (sgn : Bool) (x : ℚ) (rm : BitVec 3) : Result :=
  let p := f32NormalizeFraction x
  packRounded sgn p.1 p.2.1 p.2.2 rm

theorem packRounded_result (sgn : Bool) (e : ℤ) (m : ℕ) (cls : Cls) (rm : BitVec 3) :
    (packRounded sgn e m cls rm).result = (f32PackRounded sgn e m cls rm).result := by
  unfold packRounded
  split_ifs with h
  · obtain ⟨rfl, he⟩ := h
    have hup : f32RoundUpDecision .exact m sgn rm = false := rfl
    simp only [f32PackRounded, hup, Bool.false_and, Bool.false_eq_true, if_false]
    rw [if_neg (by omega), if_pos he]
  · rfl

theorem roundUp_eq (rm : BitVec 3) (sgn g r st : Bool) (n : ℕ) :
    roundUp rm sgn (n.testBit 0) g r st =
      f32RoundUpDecision (clsOf g (r || st)) n sgn rm := by
  have hall : ∀ (rm : BitVec 3) (sgn g r st lsb : Bool),
      roundUp rm sgn lsb g r st =
        if clsOf g (r || st) = .exact then false
        else if rm = rmRtz then false
        else if rm = rmRdn then sgn
        else if rm = rmRup then !sgn
        else if rm = rmRmm then clsOf g (r || st) != .below
        else if clsOf g (r || st) = .above then true
        else if clsOf g (r || st) = .below then false
        else lsb := by
    decide
  exact hall rm sgn g r st (n.testBit 0)

theorem clsOf_ne_exact (g rest : Bool) : (clsOf g rest != .exact) = (g || rest) := by
  cases g <;> cases rest <;> rfl

section RoundAndPack

variable {sgn g r st : Bool} {e : ℤ} {sig : BitVec 25} {rm : BitVec 3}

/-- `round_and_pack` after its two shifts, on the significand and exponent that they leave. -/
def packFinal (sgn : Bool) (e : ℤ) (sig : BitVec 25) (nx : Bool) (rm : BitVec 3) : Result :=
  if e > 127 then
    { result :=
        if rm = rmRtz ∨ (rm = rmRdn ∧ !sgn) ∨ (rm = rmRup ∧ sgn) then
          pack sgn 0xFE#8 0x7FFFFF#23
        else infinity sgn
      flags := 0b00101#5 }
  else if e < -126 ∨ sig.extractLsb' 0 24 = 0 then
    { result := zero sgn
      flags := 0b000#3 ++ BitVec.ofBool (decide (e < -126) && sig.extractLsb' 0 24 != 0) ++
        BitVec.ofBool nx }
  else
    { result := pack sgn (BitVec.ofInt 8 e + 127#8) (sig.extractLsb' 0 23)
      flags := 0b0000#4 ++ BitVec.ofBool nx }

/-- The significand after rounding up, and whether it carried. -/
structure RoundedUp (sig sig' : BitVec 25) (up carry : Bool) : Prop where
  carry_eq : carry = (up && sig.toNat + 1 == 2 ^ 24)
  toNat_eq : sig'.toNat = if up then (if carry then (sig.toNat + 1) >>> 1 else sig.toNat + 1)
    else sig.toNat

theorem roundedUp (hhigh : sig.toNat < 2 ^ 24) (up : Bool) :
    let s1 := if up then sig + 1 else sig
    let carry := up && s1.getLsbD 24
    RoundedUp sig (if carry then s1 >>> 1 else s1) up carry := by
  intro s1 carry
  cases up with
  | false => exact ⟨rfl, rfl⟩
  | true =>
    have hnat : (sig + 1).toNat = sig.toNat + 1 := by
      change (sig.toNat + 1) % 2 ^ 25 = sig.toNat + 1
      omega
    have hbit : (sig + 1).getLsbD 24 = (sig.toNat + 1 == 2 ^ 24) := by
      rw [BitVec.getLsbD, hnat, Nat.testBit_eq_decide_div_mod_eq, Bool.eq_iff_iff, beq_iff_eq,
        decide_eq_true_iff]
      omega
    refine ⟨?_, ?_⟩
    · simp only [carry, s1, if_true, hbit]
    simp only [carry, s1, if_true, Bool.true_and]
    split_ifs
    · rw [BitVec.toNat_ushiftRight, hnat]
    · exact hnat

theorem RoundedUp.ge {sig' : BitVec 25} {up carry : Bool} (h : RoundedUp sig sig' up carry)
    (hlow : 2 ^ 23 ≤ sig.toNat) (hhigh : sig.toNat < 2 ^ 24) :
    2 ^ 23 ≤ sig'.toNat ∧ sig'.toNat < 2 ^ 24 := by
  have hn := h.toNat_eq
  have hc := h.carry_eq
  cases up with
  | false =>
    rw [if_neg Bool.false_ne_true] at hn
    omega
  | true =>
    rw [if_pos rfl] at hn
    split_ifs at hn with hcarry
    · rw [hcarry, eq_comm, Bool.true_and, beq_iff_eq] at hc
      rw [hn, hc]
      decide
    · have hne : sig.toNat + 1 ≠ 2 ^ 24 := by
        intro heq
        rw [heq] at hc
        exact hcarry hc
      omega

/-- The final packing agrees with the reference from here on. -/
theorem packFinal_eq (hlow : 2 ^ 23 ≤ sig.toNat) (hhigh : sig.toNat < 2 ^ 24) {cls : Cls}
    (hexact : cls = .exact → f32RoundUpDecision cls sig.toNat sgn rm = false) {sig' : BitVec 25}
    {carry : Bool} (h : RoundedUp sig sig' (f32RoundUpDecision cls sig.toNat sgn rm) carry) :
    packFinal sgn (if carry then e + 1 else e) sig' (cls != .exact) rm =
      packRounded sgn e sig.toNat cls rm := by
  obtain ⟨hlow', hhigh'⟩ := h.ge hlow hhigh
  have hne : sig'.extractLsb' 0 24 ≠ 0 := by
    intro h0
    have hnat := congrArg BitVec.toNat h0
    rw [BitVec.extractLsb'_toNat, Nat.shiftRight_zero, Nat.mod_eq_of_lt hhigh'] at hnat
    rw [hnat] at hlow'
    exact absurd hlow' (by decide)
  have hne' : (sig'.extractLsb' 0 24 != 0) = true := by simpa using hne
  set up := f32RoundUpDecision cls sig.toNat sgn rm with hup
  have href : f32PackRounded sgn e sig.toNat cls rm =
      if (if carry then e + 1 else e) > 127 then
        { result :=
            if rm = rmRtz ∨ (rm = rmRdn ∧ sgn = false) ∨ (rm = rmRup ∧ sgn = true) then
              signBit sgn ||| (0xFE <<< 23) ||| 0x7FFFFF
            else signBit sgn ||| (0xFF <<< 23)
          flags := fOf ||| fNx }
      else if (if carry then e + 1 else e) < -126 then
        { result := f32PackZero sgn, flags := fUf ||| fNx }
      else
        { result := signBit sgn ||| (BitVec.ofInt 32 ((if carry then e + 1 else e) + 127) <<< 23) |||
            (BitVec.ofNat 32 sig'.toNat &&& 0x7FFFFF)
          flags := flagIf (cls != .exact) fNx } := by
    unfold f32PackRounded
    simp only [← hup, ← h.carry_eq, h.toNat_eq]
  set e' := if carry then e + 1 else e with he'
  -- an exact value is not rounded up, so it keeps its exponent
  have hkeep : cls = .exact → e' = e := by
    intro hcls
    have hcarry : carry = false := by rw [h.carry_eq, hexact hcls, Bool.false_and]
    rw [he', hcarry, if_neg Bool.false_ne_true]
  unfold packFinal
  split_ifs with h127 hmax h126
  · rw [packRounded, if_neg (by split_ifs at he' <;> omega), href, if_pos h127,
      if_pos (by simpa using hmax)]
    cases sgn <;> rfl
  · rw [packRounded, if_neg (by split_ifs at he' <;> omega), href, if_pos h127,
      if_neg (by simpa using hmax)]
    cases sgn <;> rfl
  · have hlt : e' < -126 := h126.resolve_right hne
    rw [zero_eq, decide_eq_true hlt, hne', packRounded]
    split_ifs with hc
    · rw [hc.1]
      rfl
    · have hcls : cls ≠ .exact := fun hcls ↦ hc ⟨hcls, hkeep hcls ▸ hlt⟩
      rw [href, if_neg h127, if_pos hlt, show (cls != .exact) = true by simpa using hcls]
      rfl
  · obtain ⟨hge, -⟩ := not_or.1 h126
    have hnot : ¬(cls = .exact ∧ e < -126) := by
      rintro ⟨hcls, hlt⟩
      exact hge (hkeep hcls ▸ hlt)
    rw [packRounded, if_neg hnot, href, if_neg h127, if_neg hge,
      pack_exp_sig sgn (by omega) (by omega)]
    cases cls <;> rfl

theorem roundAndPack_of_normal (hlow : 2 ^ 23 ≤ sig.toNat) (hhigh : sig.toNat < 2 ^ 24) :
    roundAndPack sgn e sig g r st rm =
      packRounded sgn e sig.toNat (clsOf g (r || st)) rm := by
  have hcarry : sig.getLsbD 24 = false := by
    rw [BitVec.getLsbD, Nat.testBit_lt_two_pow hhigh]
  have hup : roundUp rm sgn (sig.getLsbD 0) g r st =
      f32RoundUpDecision (clsOf g (r || st)) sig.toNat sgn rm := roundUp_eq rm sgn g r st sig.toNat
  have hnx : (g || r || st) = (clsOf g (r || st) != .exact) := by
    rw [clsOf_ne_exact, Bool.or_assoc]
  have hround := roundedUp hhigh (f32RoundUpDecision (clsOf g (r || st)) sig.toNat sgn rm)
  have hfinal := packFinal_eq (e := e) hlow hhigh (fun h ↦ by rw [h]; rfl) hround
  rw [← hfinal]
  simp only [roundAndPack, hcarry, Bool.false_eq_true, if_false, hup, hnx]
  rfl

/-- A carry is one more halving. -/
theorem roundAndPack_of_carry (hlow : 2 ^ 24 ≤ sig.toNat) :
    roundAndPack sgn e sig g r st rm =
      packRounded sgn (e + 1) (sig.toNat / 2) (clsOf (sig.toNat.testBit 0) (g || (r || st))) rm := by
  have hlt := sig.isLt
  have hcarry : sig.getLsbD 24 = true := by
    rw [BitVec.getLsbD, Nat.testBit_eq_decide_div_mod_eq, decide_eq_true_iff]
    omega
  have hnat : (sig >>> 1).toNat = sig.toNat / 2 := by
    rw [BitVec.toNat_ushiftRight, Nat.shiftRight_eq_div_pow, pow_one]
  have hbit : (sig >>> 1).getLsbD 24 = false := by
    rw [BitVec.getLsbD, hnat, Nat.testBit_lt_two_pow (by omega)]
  have hshift : roundAndPack sgn e sig g r st rm =
      roundAndPack sgn (e + 1) (sig >>> 1) (sig.getLsbD 0) g (st || r) rm := by
    simp only [roundAndPack, hcarry, hbit, if_true, Bool.false_eq_true, if_false]
  rw [hshift, roundAndPack_of_normal (by omega) (by omega), hnat, Bool.or_comm st r]
  rfl

/-- Guard, round and sticky bits of `x` at exponent `e`. -/
theorem roundAndPack_eq {x : ℚ} (h : Split (x * 2 ^ ((23 : ℕ) - e : ℤ)) sig.toNat g (r || st))
    (hlow : 2 ^ 23 ≤ sig.toNat) : roundAndPack sgn e sig g r st rm = roundExact sgn x rm := by
  rcases lt_or_ge sig.toNat (2 ^ 24) with hlt | hge
  · rw [roundAndPack_of_normal hlow hlt, roundExact, f32NormalizeFraction_eq h hlow hlt]
  · have hsig := sig.isLt
    have hhalf := h.halve
    have hx : x * 2 ^ ((23 : ℕ) - e : ℤ) / 2 = x * 2 ^ ((23 : ℕ) - (e + 1) : ℤ) := by
      rw [mul_div_assoc, ← sub_sub, zpow_sub_one₀ two_ne_zero, div_eq_mul_inv]
    rw [hx] at hhalf
    rw [roundAndPack_of_carry hge, roundExact,
      f32NormalizeFraction_eq hhalf (by omega) (by omega)]

/-- The same from the bits of a number with a forced last one. -/
theorem roundAndPack_odd {x : ℚ} {n j : ℕ} (h : OddApprox x n) (hlow : 2 ^ (j + 25) ≤ n)
    (hsig : sig.toNat = n / 2 ^ (j + 2)) (hg : g = n.testBit (j + 1))
    (hrest : (r || st) = decide (n % 2 ^ (j + 1) ≠ 0)) :
    roundAndPack sgn e sig g r st rm = roundExact sgn (x * 2 ^ (e - (j + 25 : ℕ))) rm := by
  have hx : x * 2 ^ (e - (j + 25 : ℕ)) * 2 ^ ((23 : ℕ) - e : ℤ) = x / 2 ^ (j + 2) := by
    rw [mul_assoc, ← zpow_add₀ two_ne_zero, div_eq_mul_inv, ← zpow_natCast, ← zpow_neg]
    congr 2
    push_cast
    ring
  apply roundAndPack_eq
  · rw [hx, hsig, hg, hrest]
    exact h.split j
  · rw [hsig, Nat.le_div_iff_mul_le (Nat.two_pow_pos _), ← pow_add,
      show 23 + (j + 2) = j + 25 by omega]
    exact hlow

end RoundAndPack

end Fp

end RvPipeline
