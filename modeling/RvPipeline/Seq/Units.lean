import RvPipeline.Design.Bits
import RvPipeline.Design.Execute
import Mathlib.Tactic

/-!
# What the iterative units compute

The divider, the float divider and the square root start on operands they capture, iterate on
their own and raise `done` for one cycle.  `divide` and `root` are their results as functions
of the operands; `Tracks` says that a unit is working for given operands.
-/

namespace RvPipeline

variable {w : ℕ}

theorem lt_two_pow_clog2 {j : ℕ} (h : j ≤ w - 1) : j < 2 ^ clog2 w := by
  have hw := le_two_pow_clog2 w
  have hpos := Nat.two_pow_pos (clog2 w)
  omega

/-! ## The handshake -/

/-- How one edge moves a unit that is started by `start`, and that counts up to `last` while it
is busy. -/
structure UnitStep {c : ℕ} (start busy done busy' done' : Bool) (count count' last : BitVec c) :
    Prop where
  rest : start = false ∨ done = true → busy = false → busy' = false ∧ done' = false
  work : start = true → done = false → busy' = true ∨ done' = true
  one : busy' = true → done' = false
  counts : busy = true → done' = true ∨ (busy' = true ∧ count ≠ last ∧ count' = count + 1)

/-! ## `Divider.v` -/

namespace Divider

variable {isSigned : Bool} {x y x' y' : BitVec w} {d : Divider w}

/-- The working pair after `j` iterations. -/
def iterate (isSigned : Bool) (x y : BitVec w) (j : ℕ) : BitVec w × BitVec w :=
  (divStep (absVal isSigned y))^[j] (0, absVal isSigned x)

/-- Quotient and remainder. -/
def divide (isSigned : Bool) (x y : BitVec w) : BitVec w × BitVec w :=
  if y = 0 then (BitVec.allOnes w, x)
  else if isSigned && x == BitVec.twoPow w (w - 1) && y == BitVec.allOnes w then (x, 0)
  else
    let p := iterate isSigned x y (w - 1 + 1)
    (if isSigned && (x.msb != y.msb) then -p.2 else p.2,
      if isSigned && x.msb then -p.1 else p.1)

/-- `j` iterations into the division of `x` by `y`. -/
structure Running (isSigned : Bool) (x y : BitVec w) (j : ℕ) (d : Divider w) : Prop where
  bound : j ≤ w - 1
  count : d.count = BitVec.ofNat _ j
  pair : (d.R, d.Q) = iterate isSigned x y j
  divisor : d.D = absVal isSigned y
  negQuotient : d.negQuotient = (isSigned && (x.msb != y.msb))
  negRemainder : d.negRemainder = (isSigned && x.msb)
  nonzero : y ≠ 0
  regular : (isSigned && x == BitVec.twoPow w (w - 1) && y == BitVec.allOnes w) = false

/-- Whatever the unit is doing, it is doing for `x` and `y`. -/
structure Tracks (isSigned : Bool) (x y : BitVec w) (d : Divider w) : Prop where
  busy : d.busy = true → ∃ j, Running isSigned x y j d
  done : d.done = true → (d.quotient, d.remainder) = divide isSigned x y

theorem count_eq_last_iff {j : ℕ} (h : j ≤ w - 1) :
    BitVec.ofNat (clog2 w) j = BitVec.ofNat (clog2 w) (w - 1) ↔ j = w - 1 := by
  constructor
  · intro heq
    have hnat := congrArg BitVec.toNat heq
    rwa [BitVec.toNat_ofNat, BitVec.toNat_ofNat, Nat.mod_eq_of_lt (lt_two_pow_clog2 h),
      Nat.mod_eq_of_lt (lt_two_pow_clog2 le_rfl)] at hnat
  · rintro rfl
    rfl

theorem Running.divStep_eq {j : ℕ} (h : Running isSigned x y j d) :
    divStep d.D (d.R, d.Q) = iterate isSigned x y (j + 1) := by
  rw [h.divisor, h.pair, iterate, iterate, Function.iterate_succ_apply']

theorem Running.divide_eq {j : ℕ} (h : Running isSigned x y j d) :
    divide isSigned x y =
      (if d.negQuotient then -(iterate isSigned x y (w - 1 + 1)).2
        else (iterate isSigned x y (w - 1 + 1)).2,
        if d.negRemainder then -(iterate isSigned x y (w - 1 + 1)).1
        else (iterate isSigned x y (w - 1 + 1)).1) := by
  rw [divide, if_neg h.nonzero, h.regular, if_neg Bool.false_ne_true, h.negQuotient,
    h.negRemainder]

theorem Tracks.step (h : Tracks isSigned x y d)
    (hfresh : d.busy = false → d.done = false → x' = x ∧ y' = y) :
    Tracks isSigned x y (d.step true isSigned x' y') := by
  unfold Divider.step
  cases hb : d.busy with
  | false =>
    cases hd : d.done with
    | true =>
      simp only [Bool.not_true, Bool.and_false, Bool.false_eq_true, if_false]
      exact ⟨fun hbusy ↦ by simp at hbusy, fun hdone ↦ by simp at hdone⟩
    | false =>
      obtain ⟨rfl, rfl⟩ := hfresh hb hd
      simp only [Bool.not_false, Bool.and_true, if_true]
      split_ifs with h0 h1
      · exact ⟨fun hbusy ↦ by simp at hbusy, fun _ ↦ by simp [divide, h0]⟩
      · refine ⟨fun hbusy ↦ by simp at hbusy, fun _ ↦ ?_⟩
        rw [divide, if_neg h0, if_pos h1]
      · refine ⟨fun _ ↦ ⟨0, ?_⟩, fun hdone ↦ by simp at hdone⟩
        exact
          { bound := Nat.zero_le _
            count := rfl
            pair := rfl
            divisor := rfl
            negQuotient := rfl
            negRemainder := rfl
            nonzero := h0
            regular := by simpa using h1 }
  | true =>
    obtain ⟨j, hj⟩ := h.busy hb
    simp only [Bool.not_true, Bool.and_false, Bool.false_and, Bool.false_eq_true, if_false, if_true,
      hj.divStep_eq, hj.count, count_eq_last_iff hj.bound]
    by_cases hlast : j = w - 1
    · rw [if_pos hlast]
      refine ⟨fun hbusy ↦ by simp at hbusy, fun _ ↦ ?_⟩
      rw [hj.divide_eq, hlast]
    · rw [if_neg hlast]
      refine ⟨fun _ ↦ ⟨j + 1, ?_⟩, fun hdone ↦ by simp at hdone⟩
      have hb' := hj.bound
      exact
        { bound := by omega
          count := by simp [BitVec.ofNat_add]
          pair := rfl
          divisor := hj.divisor
          negQuotient := hj.negQuotient
          negRemainder := hj.negRemainder
          nonzero := hj.nonzero
          regular := hj.regular }

/-- A unit that is neither busy nor done has no commitments. -/
theorem tracks_of_idle (hb : d.busy = false) (hd : d.done = false) : Tracks isSigned x y d :=
  ⟨fun h ↦ by simp [hb] at h, fun h ↦ by simp [hd] at h⟩

theorem unitStep (start isSigned : Bool) (x y : BitVec w) (d : Divider w) :
    UnitStep start d.busy d.done (d.step start isSigned x y).busy (d.step start isSigned x y).done
      d.count (d.step start isSigned x y).count (BitVec.ofNat _ (w - 1)) := by
  unfold Divider.step
  cases hb : d.busy <;> cases hd : d.done <;> cases start <;> dsimp only <;>
    split_ifs <;> constructor <;> simp_all

end Divider

/-! ## `FDivider.v` -/

namespace Fp.FDivider

variable {rm : BitVec 3} {a b a' b' : BitVec 32} {d : FDivider}

def iterate (a b : BitVec 32) (j : ℕ) : BitVec 25 × BitVec quotientWidth :=
  (divStep (mant b))^[j] (0, mant a ++ 0#27)

/-- Quotient and flags. -/
def divide (rm : BitVec 3) (a b : BitVec 32) : Result :=
  match special a b with
  | some r => r
  | none => finish (sign a ^^ sign b) (expU a - expU b) (iterate a b 51) rm

structure Running (a b : BitVec 32) (j : ℕ) (d : FDivider) : Prop where
  bound : j ≤ 50
  count : d.count = BitVec.ofNat _ j
  pair : (d.R, d.Q) = iterate a b j
  divisor : d.D = mant b
  resultSign : d.resultSign = (sign a ^^ sign b)
  expDiff : d.expDiff = expU a - expU b
  regular : special a b = none

structure Tracks (rm : BitVec 3) (a b : BitVec 32) (d : FDivider) : Prop where
  busy : d.busy = true → ∃ j, Running a b j d
  done : d.done = true → d.out = divide rm a b

theorem tracks_of_idle (hb : d.busy = false) (hd : d.done = false) : Tracks rm a b d :=
  ⟨fun h ↦ by simp [hb] at h, fun h ↦ by simp [hd] at h⟩

theorem Running.divStep_eq {j : ℕ} (h : Running a b j d) :
    divStep d.D (d.R, d.Q) = iterate a b (j + 1) := by
  rw [h.divisor, h.pair, iterate, iterate, Function.iterate_succ_apply']

theorem count_eq_last_iff {j : ℕ} (h : j ≤ 50) : BitVec.ofNat 6 j = 50#6 ↔ j = 50 := by
  constructor
  · intro heq
    have hnat := congrArg BitVec.toNat heq
    simp only [BitVec.toNat_ofNat] at hnat
    omega
  · rintro rfl
    rfl

theorem Tracks.step (h : Tracks rm a b d)
    (hfresh : d.busy = false → d.done = false → a' = a ∧ b' = b) :
    Tracks rm a b (d.step true rm a' b') := by
  unfold FDivider.step
  cases hb : d.busy with
  | false =>
    cases hd : d.done with
    | true =>
      simp only [Bool.not_true, Bool.and_false, Bool.false_eq_true, if_false]
      exact ⟨fun hbusy ↦ by simp at hbusy, fun hdone ↦ by simp at hdone⟩
    | false =>
      obtain ⟨rfl, rfl⟩ := hfresh hb hd
      simp only [Bool.not_false, Bool.and_true, if_true]
      cases hs : special a' b' with
      | some r =>
        refine ⟨fun hbusy ↦ by simp at hbusy, fun _ ↦ ?_⟩
        simp [divide, hs]
      | none =>
        refine ⟨fun _ ↦ ⟨0, ?_⟩, fun hdone ↦ by simp at hdone⟩
        exact
          { bound := Nat.zero_le _
            count := rfl
            pair := rfl
            divisor := rfl
            resultSign := rfl
            expDiff := rfl
            regular := hs }
  | true =>
    obtain ⟨j, hj⟩ := h.busy hb
    simp only [Bool.not_true, Bool.and_false, Bool.false_and, Bool.false_eq_true, if_false, if_true,
      hj.divStep_eq, hj.count, count_eq_last_iff hj.bound]
    by_cases hlast : j = 50
    · rw [if_pos hlast]
      refine ⟨fun hbusy ↦ by simp at hbusy, fun _ ↦ ?_⟩
      simp only [divide, hj.regular, hj.resultSign, hj.expDiff, hlast]
    · rw [if_neg hlast]
      refine ⟨fun _ ↦ ⟨j + 1, ?_⟩, fun hdone ↦ by simp at hdone⟩
      have hb' := hj.bound
      exact
        { bound := by omega
          count := by simp [BitVec.ofNat_add]
          pair := rfl
          divisor := hj.divisor
          resultSign := hj.resultSign
          expDiff := hj.expDiff
          regular := hj.regular }

theorem unitStep (start : Bool) (rm : BitVec 3) (a b : BitVec 32) (d : FDivider) :
    UnitStep start d.busy d.done (d.step start rm a b).busy (d.step start rm a b).done d.count
      (d.step start rm a b).count 50#6 := by
  unfold FDivider.step
  cases hb : d.busy <;> cases hd : d.done <;> cases start <;> cases special a b <;> dsimp only <;>
    split_ifs <;> constructor <;> simp_all

end Fp.FDivider

/-! ## `FSqrt.v` -/

namespace Fp.FSqrt

variable {rm : BitVec 3} {a a' : BitVec 32} {d : FSqrt}

def iterate (a : BitVec 32) (j : ℕ) : BitVec 52 × BitVec 28 × BitVec 26 :=
  rootStep^[j] (radicand a, 0, 0)

/-- Root and flags. -/
def root (rm : BitVec 3) (a : BitVec 32) : Result :=
  match special a with
  | some r => r
  | none => finish (rootExp a) (iterate a 26) rm

structure Running (a : BitVec 32) (j : ℕ) (d : FSqrt) : Prop where
  bound : j ≤ 25
  count : d.count = BitVec.ofNat _ j
  triple : (d.rad, d.R, d.qroot) = iterate a j
  resultExp : d.resultExp = rootExp a
  regular : special a = none

structure Tracks (rm : BitVec 3) (a : BitVec 32) (d : FSqrt) : Prop where
  busy : d.busy = true → ∃ j, Running a j d
  done : d.done = true → d.out = root rm a

theorem tracks_of_idle (hb : d.busy = false) (hd : d.done = false) : Tracks rm a d :=
  ⟨fun h ↦ by simp [hb] at h, fun h ↦ by simp [hd] at h⟩

theorem Running.rootStep_eq {j : ℕ} (h : Running a j d) :
    rootStep (d.rad, d.R, d.qroot) = iterate a (j + 1) := by
  rw [h.triple, iterate, iterate, Function.iterate_succ_apply']

theorem count_eq_last_iff {j : ℕ} (h : j ≤ 25) : BitVec.ofNat 5 j = 25#5 ↔ j = 25 := by
  constructor
  · intro heq
    have hnat := congrArg BitVec.toNat heq
    simp only [BitVec.toNat_ofNat] at hnat
    omega
  · rintro rfl
    rfl

theorem Tracks.step (h : Tracks rm a d)
    (hfresh : d.busy = false → d.done = false → a' = a) : Tracks rm a (d.step true rm a') := by
  unfold FSqrt.step
  cases hb : d.busy with
  | false =>
    cases hd : d.done with
    | true =>
      simp only [Bool.not_true, Bool.and_false, Bool.false_eq_true, if_false]
      exact ⟨fun hbusy ↦ by simp at hbusy, fun hdone ↦ by simp at hdone⟩
    | false =>
      obtain rfl := hfresh hb hd
      simp only [Bool.not_false, Bool.and_true, if_true]
      cases hs : special a' with
      | some r =>
        refine ⟨fun hbusy ↦ by simp at hbusy, fun _ ↦ ?_⟩
        simp [root, hs]
      | none =>
        refine ⟨fun _ ↦ ⟨0, ?_⟩, fun hdone ↦ by simp at hdone⟩
        exact
          { bound := Nat.zero_le _
            count := rfl
            triple := rfl
            resultExp := rfl
            regular := hs }
  | true =>
    obtain ⟨j, hj⟩ := h.busy hb
    simp only [Bool.not_true, Bool.and_false, Bool.false_and, Bool.false_eq_true, if_false, if_true,
      hj.rootStep_eq, hj.count, count_eq_last_iff hj.bound]
    by_cases hlast : j = 25
    · rw [if_pos hlast]
      refine ⟨fun hbusy ↦ by simp at hbusy, fun _ ↦ ?_⟩
      simp only [root, hj.regular, hj.resultExp, hlast]
    · rw [if_neg hlast]
      refine ⟨fun _ ↦ ⟨j + 1, ?_⟩, fun hdone ↦ by simp at hdone⟩
      have hb' := hj.bound
      exact
        { bound := by omega
          count := by simp [BitVec.ofNat_add]
          triple := rfl
          resultExp := hj.resultExp
          regular := hj.regular }

theorem unitStep (start : Bool) (rm : BitVec 3) (a : BitVec 32) (d : FSqrt) :
    UnitStep start d.busy d.done (d.step start rm a).busy (d.step start rm a).done d.count
      (d.step start rm a).count 25#5 := by
  unfold FSqrt.step
  cases hb : d.busy <;> cases hd : d.done <;> cases start <;> cases special a <;> dsimp only <;>
    split_ifs <;> constructor <;> simp_all

end Fp.FSqrt

end RvPipeline
