import RvPipeline.Design.Defs
import Mathlib.Data.Int.Notation

/-!
# Single-precision units

`fp_round.vh`, `FALU.v`, `FMADDUnit.v`, `FDivider.v` and `FSqrt.v`.  The
unbiased exponents live in ten (or twelve) signed bits there and never leave
that range, so they are integers here; significands keep their widths.  Flags
are `{NV, DZ, OF, UF, NX}`.
-/

namespace RvPipeline
namespace Fp

/-- A result with its exception flags. -/
structure Result where
  result : BitVec 32
  flags : BitVec 5 := 0
  deriving DecidableEq, Repr, Inhabited

def canonicalNan : BitVec 32 := 0x7FC00000#32

def flagNv (b : Bool) : BitVec 5 := BitVec.ofBool b ++ 0b0000#4

def sign (x : BitVec 32) : Bool := x.getLsbD 31
def exp (x : BitVec 32) : BitVec 8 := x.extractLsb' 23 8
def frac (x : BitVec 32) : BitVec 23 := x.extractLsb' 0 23
def mant (x : BitVec 32) : BitVec 24 := 1#1 ++ frac x
def expU (x : BitVec 32) : ℤ := (exp x).toNat - 127

def isNan (x : BitVec 32) : Bool := exp x == 0xFF#8 && frac x != 0
def isSnan (x : BitVec 32) : Bool := isNan x && !x.getLsbD 22
def isInf (x : BitVec 32) : Bool := exp x == 0xFF#8 && frac x == 0
/-- Subnormals count as zero for arithmetic. -/
def isZero (x : BitVec 32) : Bool := exp x == 0x00#8

def pack (s : Bool) (e : BitVec 8) (f : BitVec 23) : BitVec 32 := BitVec.ofBool s ++ e ++ f
def infinity (s : Bool) : BitVec 32 := pack s 0xFF#8 0
def zero (s : Bool) : BitVec 32 := pack s 0 0

/-! ## `fp_round.vh` -/

def roundUp (rm : BitVec 3) (sgn lsb g r st : Bool) : Bool :=
  if rm = rmRne then g && (r || st || lsb)
  else if rm = rmRtz then false
  else if rm = rmRdn then sgn && (g || r || st)
  else if rm = rmRup then !sgn && (g || r || st)
  else if rm = rmRmm then g
  else g && (r || st || lsb)

/-- `round_and_pack`: `{OF, UF, NX}` and the packed result. -/
def roundAndPack (sgn : Bool) (expUnbiased : ℤ) (sig : BitVec 25) (guard roundBit sticky : Bool)
    (rm : BitVec 3) : Result :=
  -- a carry out of the significand moves one bit into guard/round/sticky
  let carry := sig.getLsbD 24
  let st := if carry then sticky || roundBit else sticky
  let r := if carry then guard else roundBit
  let g := if carry then sig.getLsbD 0 else guard
  let s := if carry then sig >>> 1 else sig
  let e := if carry then expUnbiased + 1 else expUnbiased
  let up := roundUp rm sgn (s.getLsbD 0) g r st
  let nx := g || r || st
  let s1 := if up then s + 1 else s
  let carry1 := up && s1.getLsbD 24
  let s2 := if carry1 then s1 >>> 1 else s1
  let e2 := if carry1 then e + 1 else e
  if e2 > 127 then
    { result :=
        if rm = rmRtz ∨ (rm = rmRdn ∧ !sgn) ∨ (rm = rmRup ∧ sgn) then
          pack sgn 0xFE#8 0x7FFFFF#23
        else infinity sgn
      flags := 0b00101#5 }
  else if e2 < -126 ∨ s2.extractLsb' 0 24 = 0 then
    { result := zero sgn
      flags := 0b000#3 ++ BitVec.ofBool (decide (e2 < -126) && s2.extractLsb' 0 24 != 0) ++
        BitVec.ofBool nx }
  else
    { result := pack sgn (BitVec.ofInt 8 e2 + 127#8) (s2.extractLsb' 0 23)
      flags := 0b0000#4 ++ BitVec.ofBool nx }

/-- `shift_right_sticky` (27 bits) and `wide_shift_right_sticky` (112 bits). -/
def shiftRightSticky {n : ℕ} (sig : BitVec n) (amt : ℤ) : BitVec n :=
  if amt ≤ 0 then sig
  else if (n : ℤ) ≤ amt then if sig = 0 then 0 else 1
  else
    let k := amt.toNat
    (sig >>> k) ||| (if sig.toNat % 2 ^ k = 0 then 0 else 1)

/-- The renormalisation loops: shift left until bit `top` is set, at most `fuel` times. -/
def renormLoop {n : ℕ} (top : ℕ) : ℕ → BitVec n → BitVec n × ℕ
  | 0, v => (v, 0)
  | fuel + 1, v =>
    if v.getLsbD top then (v, 0)
    else
      let p := renormLoop top fuel (v <<< 1)
      (p.1, p.2 + 1)

/-! ## `FALU.v` -/

def addsub (isSub : Bool) (rm : BitVec 3) (a b : BitVec 32) : Result :=
  let effSignB := sign b ^^ isSub
  if isNan a || isNan b then
    { result := canonicalNan, flags := flagNv (isSnan a || isSnan b) }
  else if isInf a && isInf b && (sign a != effSignB) then
    { result := canonicalNan, flags := flagNv true }
  else if isInf a then { result := infinity (sign a) }
  else if isInf b then { result := infinity effSignB }
  else if isZero a && isZero b then
    { result := zero (if sign a == effSignB then sign a else decide (rm = rmRdn)) }
  else if isZero a then { result := pack effSignB (exp b) (frac b) }
  else if isZero b then { result := a }
  else
    let swap := if expU a = expU b then decide (mant a < mant b) else decide (expU a < expU b)
    let big := if swap then b else a
    let small := if swap then a else b
    let resultSign := if swap then effSignB else sign a
    let bigAl : BitVec 27 := mant big ++ 0b000#3
    let smallAl : BitVec 27 := shiftRightSticky (mant small ++ 0b000#3) (expU big - expU small)
    let sum : BitVec 28 :=
      if sign a == effSignB then 0#1 ++ bigAl + (0#1 ++ smallAl)
      else 0#1 ++ bigAl - (0#1 ++ smallAl)
    if sum = 0 then { result := zero (decide (rm = rmRdn)) }
    else
      let p := if !sum.getLsbD 27 && !sum.getLsbD 26 then renormLoop 26 27 sum else (sum, 0)
      roundAndPack resultSign (expU big - p.2) (p.1.extractLsb' 3 25) (p.1.getLsbD 2)
        (p.1.getLsbD 1) (p.1.getLsbD 0) rm

def mul (rm : BitVec 3) (a b : BitVec 32) : Result :=
  let s := sign a ^^ sign b
  if isNan a || isNan b then
    { result := canonicalNan, flags := flagNv (isSnan a || isSnan b) }
  else if (isInf a && isZero b) || (isZero a && isInf b) then
    { result := canonicalNan, flags := flagNv true }
  else if isInf a || isInf b then { result := infinity s }
  else if isZero a || isZero b then { result := zero s }
  else
    let product : BitVec 48 := (mant a).setWidth 48 * (mant b).setWidth 48
    if product.getLsbD 47 then
      roundAndPack s (expU a + expU b + 1) (0#1 ++ product.extractLsb' 24 24) (product.getLsbD 23)
        (product.getLsbD 22) (product.extractLsb' 0 22 != 0) rm
    else
      roundAndPack s (expU a + expU b) (0#1 ++ product.extractLsb' 23 24) (product.getLsbD 22)
        (product.getLsbD 21) (product.extractLsb' 0 21 != 0) rm

def sgnj (funct3 : BitVec 3) (a b : BitVec 32) : Result :=
  let s :=
    if funct3 = f3FsgnjJ then sign b
    else if funct3 = f3FsgnjJn then !sign b
    else if funct3 = f3FsgnjJx then sign a ^^ sign b
    else sign a
  { result := pack s (exp a) (frac a) }

/-- `{exp, frac}` order on operands of equal sign, reversed for negatives. -/
def magLt (a b : BitVec 32) : Bool :=
  if sign a then decide (b.extractLsb' 0 31 < a.extractLsb' 0 31)
  else decide (a.extractLsb' 0 31 < b.extractLsb' 0 31)

def minmax (funct3 : BitVec 3) (a b : BitVec 32) : Result :=
  if isNan a && isNan b then
    { result := canonicalNan, flags := flagNv (isSnan a || isSnan b) }
  else if isNan a then { result := b, flags := flagNv (isSnan a) }
  else if isNan b then { result := a, flags := flagNv (isSnan b) }
  else
    let aLtB :=
      if isZero a && isZero b then sign a && !sign b
      else if sign a != sign b then sign a
      else magLt a b
    { result := if (funct3 == f3Fmin) == aLtB then a else b }

def cmp (funct3 : BitVec 3) (a b : BitVec 32) : Result :=
  if isNan a || isNan b then
    { result := 0
      flags := flagNv (if funct3 = f3Feq then isSnan a || isSnan b else true) }
  else
    let bothZero := isZero a && isZero b
    let eq := bothZero || a == b
    let lt :=
      if bothZero then false
      else if sign a != sign b then sign a
      else magLt a b
    let bit :=
      if funct3 = f3Feq then eq
      else if funct3 = f3Flt then lt
      else if funct3 = f3Fle then lt || eq
      else false
    { result := 0#31 ++ BitVec.ofBool bit }

def classify (a : BitVec 32) : BitVec 32 :=
  let special := exp a == 0xFF#8
  let sub := exp a == 0x00#8
  if special && frac a == 0 && sign a then 1 <<< 0
  else if !sub && !special && sign a then 1 <<< 1
  else if sub && frac a != 0 && sign a then 1 <<< 2
  else if sub && frac a == 0 && sign a then 1 <<< 3
  else if sub && frac a == 0 && !sign a then 1 <<< 4
  else if sub && frac a != 0 && !sign a then 1 <<< 5
  else if !sub && !special && !sign a then 1 <<< 6
  else if special && frac a == 0 && !sign a then 1 <<< 7
  else if special && frac a != 0 && !(frac a).getLsbD 22 then 1 <<< 8
  else if special && frac a != 0 && (frac a).getLsbD 22 then 1 <<< 9
  else 0

/-- The saturated value of an out-of-range `fcvt.w.s` / `fcvt.wu.s`. -/
def saturate (unsigned sgn : Bool) : BitVec 32 :=
  if unsigned then (if sgn then 0x00000000#32 else 0xFFFFFFFF#32)
  else (if sgn then 0x80000000#32 else 0x7FFFFFFF#32)

def cvtToInt (rm : BitVec 3) (rs2Sel : BitVec 5) (a : BitVec 32) : Result :=
  let unsigned := rs2Sel == rs2FcvtWu
  if isNan a then { result := saturate unsigned false, flags := flagNv true }
  else if isZero a then { result := 0 }
  else if isInf a || decide (31 < expU a) then
    { result := saturate unsigned (sign a), flags := flagNv true }
  else
    let shifted : BitVec 27 := shiftRightSticky (mant a ++ 0b000#3) (23 - expU a)
    let wide := decide (23 ≤ expU a)
    let magnitude0 : BitVec 64 :=
      if wide then (mant a).setWidth 64 <<< (expU a - 23).toNat
      else (shifted.extractLsb' 3 24).setWidth 64
    let g := !wide && shifted.getLsbD 2
    let r := !wide && shifted.getLsbD 1
    let st := !wide && shifted.getLsbD 0
    let magnitude :=
      if roundUp rm (sign a) (magnitude0.getLsbD 0) g r st then magnitude0 + 1 else magnitude0
    let outOfRange :=
      if unsigned then (sign a && magnitude != 0) || decide (0xFFFFFFFF#64 < magnitude)
      else
        (!sign a && decide (0x7FFFFFFF#64 < magnitude)) ||
          (sign a && decide (0x80000000#64 < magnitude))
    if outOfRange then { result := saturate unsigned (sign a), flags := flagNv true }
    else
      { result := if sign a then -(magnitude.setWidth 32) else magnitude.setWidth 32
        flags := 0b0000#4 ++ BitVec.ofBool (g || r || st) }

def cvtFromInt (rm : BitVec 3) (rs2Sel : BitVec 5) (a : BitVec 32) : Result :=
  if a = 0 then { result := 0 }
  else
    let srcSign := rs2Sel != rs2FcvtWu && a.getLsbD 31
    let magnitude := if srcSign then -a else a
    let p := renormLoop 31 31 magnitude
    roundAndPack srcSign (31 - p.2) (0#1 ++ p.1.extractLsb' 8 24) (p.1.getLsbD 7)
      (p.1.getLsbD 6) (p.1.extractLsb' 0 6 != 0) rm

/-- `FALU.v`; `funct3` is the resolved rounding mode, or the sub-operation. -/
def falu (funct5 : BitVec 5) (funct3 : BitVec 3) (rs2Sel : BitVec 5) (a b : BitVec 32) : Result :=
  if funct5 = funct5Fadd then addsub false funct3 a b
  else if funct5 = funct5Fsub then addsub true funct3 a b
  else if funct5 = funct5Fmul then mul funct3 a b
  else if funct5 = funct5Fsgnj then sgnj funct3 a b
  else if funct5 = funct5Fminmax then minmax funct3 a b
  else if funct5 = funct5Fcmp then cmp funct3 a b
  else if funct5 = funct5FcvtWS then cvtToInt funct3 rs2Sel a
  else if funct5 = funct5FcvtSW then cvtFromInt funct3 rs2Sel a
  else if funct5 = funct5FmvXWFclass then
    if funct3 = f3Fclass then { result := classify a } else { result := a }
  else if funct5 = funct5FmvWX then { result := a }
  else { result := 0 }

/-! ## `FMADDUnit.v` -/

/-- `op` is `{negate product, negate addend}`. -/
def fmadd (op : BitVec 2) (rm : BitVec 3) (a b c : BitVec 32) : Result :=
  let prodSign := sign a ^^ sign b ^^ op.getLsbD 1
  let effSignC := sign c ^^ op.getLsbD 0
  if isNan a || isNan b || isNan c then
    { result := canonicalNan, flags := flagNv (isSnan a || isSnan b || isSnan c) }
  else if (isInf a && isZero b) || (isZero a && isInf b) then
    { result := canonicalNan, flags := flagNv true }
  else
    let prodInf := isInf a || isInf b
    if prodInf && isInf c && (prodSign != effSignC) then
      { result := canonicalNan, flags := flagNv true }
    else if prodInf then { result := infinity prodSign }
    else if isInf c then { result := infinity effSignC }
    else if isZero a || isZero b then
      if isZero c then
        { result := zero (if prodSign == effSignC then prodSign else decide (rm = rmRdn)) }
      else { result := pack effSignC (exp c) (frac c) }
    else
      let product : BitVec 48 := (mant a).setWidth 48 * (mant b).setWidth 48
      let top := product.getLsbD 47
      let prodNorm := if top then product else product <<< 1
      let prodLeadExp := if top then expU a + expU b + 1 else expU a + expU b
      if isZero c then
        roundAndPack prodSign prodLeadExp (0#1 ++ prodNorm.extractLsb' 24 24)
          (prodNorm.getLsbD 23) (prodNorm.getLsbD 22) (prodNorm.extractLsb' 0 22 != 0) rm
      else
        let cIsBig := decide (prodLeadExp < expU c) ||
          (decide (expU c = prodLeadExp) && decide (prodNorm < (mant c ++ 0#24 : BitVec 48)))
        let prodFrame : BitVec 112 := prodNorm ++ 0#64
        let cFrame : BitVec 112 := mant c ++ 0#88
        let bigFrame := if cIsBig then cFrame else prodFrame
        let bigExp := if cIsBig then expU c else prodLeadExp
        let smallShift := if cIsBig then expU c - prodLeadExp else prodLeadExp - expU c
        let smallFrame := shiftRightSticky (if cIsBig then prodFrame else cFrame) smallShift
        let resultSign := if cIsBig then effSignC else prodSign
        let sum : BitVec 113 :=
          if prodSign == effSignC then 0#1 ++ bigFrame + (0#1 ++ smallFrame)
          else 0#1 ++ bigFrame - (0#1 ++ smallFrame)
        if sum = 0 then { result := zero (decide (rm = rmRdn)) }
        else
          let p :=
            if !sum.getLsbD 112 && !sum.getLsbD 111 then renormLoop 111 111 sum else (sum, 0)
          roundAndPack resultSign (bigExp - p.2) (p.1.extractLsb' 88 25) (p.1.getLsbD 87)
            (p.1.getLsbD 86) (p.1.extractLsb' 0 86 != 0) rm

/-! ## `FDivider.v` -/

/-- The quotient register is 51 bits: 24 significand bits and 27 bits of padding. -/
abbrev quotientWidth : ℕ := 51

structure FDivider where
  busy : Bool
  done : Bool
  out : Result
  R : BitVec 25
  Q : BitVec quotientWidth
  D : BitVec 24
  count : BitVec 6
  resultSign : Bool
  expDiff : ℤ
  deriving Inhabited

namespace FDivider

def reset (d : FDivider) : FDivider :=
  { d with busy := false, done := false, out := { result := 0 } }

/-- The result of an operand pair that needs no iteration. -/
def special (a b : BitVec 32) : Option Result :=
  let s := sign a ^^ sign b
  if isNan a || isNan b then
    some { result := canonicalNan, flags := flagNv (isSnan a || isSnan b) }
  else if isInf a && isInf b then some { result := canonicalNan, flags := flagNv true }
  else if isZero a && isZero b then some { result := canonicalNan, flags := flagNv true }
  else if isInf a then some { result := infinity s }
  else if isInf b then some { result := zero s }
  else if isZero b then some { result := infinity s, flags := 0b01000#5 }
  else if isZero a then some { result := zero s }
  else none

def divStep (D : BitVec 24) (p : BitVec 25 × BitVec quotientWidth) :
    BitVec 25 × BitVec quotientWidth :=
  let rShifted : BitVec 25 := p.1 <<< 1 ||| (p.2 >>> 50).setWidth 25
  if D.setWidth 25 ≤ rShifted then (rShifted - D.setWidth 25, p.2 <<< 1 ||| 1)
  else (rShifted, p.2 <<< 1)

/-- Rounding of the finished quotient. -/
def finish (s : Bool) (expDiff : ℤ) (p : BitVec 25 × BitVec quotientWidth) (rm : BitVec 3) :
    Result :=
  let q := p.2
  if q.getLsbD 27 then
    roundAndPack s expDiff (0#1 ++ q.extractLsb' 4 24) (q.getLsbD 3) (q.getLsbD 2)
      (q.getLsbD 1 || q.getLsbD 0 || p.1 != 0) rm
  else
    roundAndPack s (expDiff - 1) (0#1 ++ q.extractLsb' 3 24) (q.getLsbD 2) (q.getLsbD 1)
      (q.getLsbD 0 || p.1 != 0) rm

def step (start : Bool) (rm : BitVec 3) (a b : BitVec 32) (d : FDivider) : FDivider :=
  if start && !d.busy && !d.done then
    match special a b with
    | some r => { d with done := true, out := r }
    | none =>
      { d with
        done := false
        out := { d.out with flags := 0 }
        resultSign := sign a ^^ sign b
        expDiff := expU a - expU b
        R := 0
        Q := mant a ++ 0#27
        D := mant b
        count := 0
        busy := true }
  else if d.busy then
    let p := divStep d.D (d.R, d.Q)
    let d' := { d with done := false, R := p.1, Q := p.2, count := d.count + 1 }
    if d.count = 50#6 then
      { d' with busy := false, done := true, out := finish d.resultSign d.expDiff p rm }
    else d'
  else { d with done := false }

end FDivider

/-! ## `FSqrt.v` -/

structure FSqrt where
  busy : Bool
  done : Bool
  out : Result
  rad : BitVec 52
  R : BitVec 28
  qroot : BitVec 26
  count : BitVec 5
  resultExp : ℤ
  deriving Inhabited

namespace FSqrt

def reset (d : FSqrt) : FSqrt :=
  { d with busy := false, done := false, out := { result := 0 } }

def special (a : BitVec 32) : Option Result :=
  if isNan a then some { result := canonicalNan, flags := flagNv (isSnan a) }
  else if isZero a then some { result := a }
  else if sign a then some { result := canonicalNan, flags := flagNv true }
  else if isInf a then some { result := a }
  else none

/-- The radicand and result exponent: an odd exponent folds its factor of two in. -/
def radicand (a : BitVec 32) : BitVec 52 :=
  if (expU a) % 2 = 0 then 0#1 ++ mant a ++ 0#1 ++ 0#26 else mant a ++ 0#2 ++ 0#26

def rootExp (a : BitVec 32) : ℤ :=
  if (expU a) % 2 = 0 then (expU a).tdiv 2 else (expU a - 1).tdiv 2

def rootStep (p : BitVec 52 × BitVec 28 × BitVec 26) : BitVec 52 × BitVec 28 × BitVec 26 :=
  let rShifted : BitVec 28 := p.2.1 <<< 2 ||| (p.1 >>> 50).setWidth 28
  let trial : BitVec 28 := p.2.2 ++ 0b01#2
  if trial ≤ rShifted then (p.1 <<< 2, rShifted - trial, p.2.2 <<< 1 ||| 1)
  else (p.1 <<< 2, rShifted, p.2.2 <<< 1)

def finish (resultExp : ℤ) (p : BitVec 52 × BitVec 28 × BitVec 26) (rm : BitVec 3) : Result :=
  roundAndPack false resultExp (0#1 ++ p.2.2.extractLsb' 2 24) (p.2.2.getLsbD 1)
    (p.2.2.getLsbD 0) (p.2.1 != 0) rm

def step (start : Bool) (rm : BitVec 3) (a : BitVec 32) (d : FSqrt) : FSqrt :=
  if start && !d.busy && !d.done then
    match special a with
    | some r => { d with done := true, out := r }
    | none =>
      { d with
        done := false
        out := { d.out with flags := 0 }
        rad := radicand a
        resultExp := rootExp a
        R := 0
        qroot := 0
        count := 0
        busy := true }
  else if d.busy then
    let p := rootStep (d.rad, d.R, d.qroot)
    let d' := { d with done := false, rad := p.1, R := p.2.1, qroot := p.2.2, count := d.count + 1 }
    if d.count = 25#5 then
      { d' with busy := false, done := true, out := finish d.resultExp p rm }
    else d'
  else { d with done := false }

end FSqrt

end Fp
end RvPipeline
