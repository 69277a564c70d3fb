import Mathlib.Algebra.Order.Field.Rat
import Mathlib.Data.Nat.Size
import Mathlib.Data.Nat.Sqrt
import RvPipeline.Design.Fpu

/-!
# Floating point in the simulator

The reference of `iss.py`: exact rational results, rounded once at the very end.  A result comes
with its flags, and the three `while` loops run on fuel that lasts for any of their inputs.
-/

namespace RvPipeline

open Fp (Result)

namespace IssFloat

def fNv : BitVec 5 := 0b10000
def fDz : BitVec 5 := 0b01000
def fOf : BitVec 5 := 0b00100
def fUf : BitVec 5 := 0b00010
def fNx : BitVec 5 := 0b00001

def flagIf (b : Bool) (f : BitVec 5) : BitVec 5 := if b then f else 0

def canonicalNan : BitVec 32 := 0x7FC00000

/-! ## Decoding -/

structure F32 where
  sign : Bool
  isZero : Bool := false
  isInf : Bool := false
  isNan : Bool := false
  isSnan : Bool := false
  /-- Zero for infinities and NaNs, where nothing reads it. -/
  magnitude : ℚ := 0

def f32Decode (bits : BitVec 32) : F32 :=
  let sign := bits.getLsbD 31
  let exp := (bits.extractLsb' 23 8).toNat
  let mant := (bits.extractLsb' 0 23).toNat
  if exp = 0xFF then
    if mant = 0 then { sign := sign, isInf := true }
    else { sign := sign, isNan := true, isSnan := !mant.testBit 22 }
  else if exp = 0 then { sign := sign, isZero := true }
  else { sign := sign, magnitude := (2 ^ 23 ||| mant : ℕ) / 2 ^ 23 * (2 : ℚ) ^ (exp - 127 : ℤ) }

def signBit (sign : Bool) : BitVec 32 := (if sign then 1 else 0) <<< 31

def f32PackZero (sign : Bool) : BitVec 32 := signBit sign
def f32PackInf (sign : Bool) : BitVec 32 := signBit sign ||| (0xFF <<< 23)

/-! ## Rounding -/

/-- The exact remainder against one half. -/
inductive Cls where
  | exact | below | tie | above
  deriving DecidableEq, Repr

/-- Whether to round up. -/
def f32RoundUpDecision (cls : Cls) (sigFloor : ℕ) (sign : Bool) (rm : BitVec 3) : Bool :=
  if cls = .exact then false
  else if rm = rmRtz then false
  else if rm = rmRdn then sign
  else if rm = rmRup then !sign
  else if rm = rmRmm then cls != .below
  else if cls = .above then true
  else if cls = .below then false
  else sigFloor.testBit 0

/-- `_f32_pack_rounded`. -/
def f32PackRounded (sign : Bool) (e : ℤ) (sigFloor : ℕ) (cls : Cls) (rm : BitVec 3) : Result :=
  let roundUp := f32RoundUpDecision cls sigFloor sign rm
  let carry := roundUp && sigFloor + 1 == 2 ^ 24
  let sig := if roundUp then (if carry then (sigFloor + 1) >>> 1 else sigFloor + 1) else sigFloor
  let e := if carry then e + 1 else e
  if e > 127 then
    { result :=
        if rm = rmRtz ∨ (rm = rmRdn ∧ sign = false) ∨ (rm = rmRup ∧ sign = true) then
          signBit sign ||| (0xFE <<< 23) ||| 0x7FFFFF
        else signBit sign ||| (0xFF <<< 23)
      flags := fOf ||| fNx }
  else if e < -126 then { result := f32PackZero sign, flags := fUf ||| fNx }
  else
    { result := signBit sign ||| (BitVec.ofInt 32 (e + 127) <<< 23) |||
        (BitVec.ofNat 32 sig &&& 0x7FFFFF)
      flags := flagIf (cls != .exact) fNx }

def classify (remainder : ℚ) : Cls :=
  if remainder = 0 then .exact
  else if remainder < 1 / 2 then .below
  else if remainder > 1 / 2 then .above
  else .tie

/-- `while magnitude >= two ** (s * (e + 1)): e += 1`. -/
def raiseExp (s : ℤ) (magnitude : ℚ) : ℕ → ℤ → ℤ
  | 0, e => e
  | fuel + 1, e =>
    if (2 : ℚ) ^ (s * (e + 1)) ≤ magnitude then raiseExp s magnitude fuel (e + 1) else e

/-- `while magnitude < two ** (s * e): e -= 1`. -/
def lowerExp (s : ℤ) (magnitude : ℚ) : ℕ → ℤ → ℤ
  | 0, e => e
  | fuel + 1, e =>
    if magnitude < (2 : ℚ) ^ (s * e) then lowerExp s magnitude fuel (e - 1) else e

/-- `numerator.bit_length() - denominator.bit_length()`. -/
def bitLengthDiff (magnitude : ℚ) : ℤ := magnitude.num.natAbs.size - magnitude.den.size

/-- The fuel of the loops: the first guess is off by less than three. -/
def expFuel : ℕ := 3

/-- `_f32_normalize_fraction`. -/
def f32NormalizeFraction (magnitude : ℚ) : ℤ × ℕ × Cls :=
  let e := lowerExp 1 magnitude expFuel (raiseExp 1 magnitude expFuel (bitLengthDiff magnitude - 1))
  let sigExact := magnitude * (2 : ℚ) ^ (23 - e)
  let sigFloor := (sigExact.num / sigExact.den).toNat
  (e, sigFloor, classify (sigExact - sigFloor))

/-- `_f32_sqrt_normalize`; `none` is its failed assertion. -/
def f32SqrtNormalize (magnitude : ℚ) : Option (ℤ × ℕ × Cls) :=
  let e :=
    lowerExp 2 magnitude expFuel (raiseExp 2 magnitude expFuel (bitLengthDiff magnitude / 2 - 1))
  let scaled := magnitude * (2 : ℚ) ^ (2 * (23 - e))
  if scaled.den ≠ 1 then none
  else
    let n := scaled.num.toNat
    let sigFloor := n.sqrt
    let cls :=
      if sigFloor * sigFloor = n then .exact
      else if 4 * n < (2 * sigFloor + 1) ^ 2 then .below
      else if 4 * n > (2 * sigFloor + 1) ^ 2 then .above
      else .tie
    some (e, sigFloor, cls)

def f32RoundFromFraction (sign : Bool) (magnitude : ℚ) (rm : BitVec 3) : Result :=
  let p := f32NormalizeFraction magnitude
  f32PackRounded sign p.1 p.2.1 p.2.2 rm

def f32RoundFromSqrt (sign : Bool) (magnitude : ℚ) (rm : BitVec 3) : Option Result :=
  (f32SqrtNormalize magnitude).map fun p ↦ f32PackRounded sign p.1 p.2.1 p.2.2 rm

/-! ## Arithmetic -/

def signed (sign : Bool) (magnitude : ℚ) : ℚ := if sign then -magnitude else magnitude

/-- The exact sum, rounded once. -/
def roundSum (total : ℚ) (rm : BitVec 3) : Result :=
  if total = 0 then { result := f32PackZero (decide (rm = rmRdn)) }
  else f32RoundFromFraction (decide (total < 0)) |total| rm

def fAdd (aBits bBits : BitVec 32) (rm : BitVec 3) (isSub : Bool) : Result :=
  let a := f32Decode aBits
  let b := f32Decode bBits
  let effSb := b.sign ^^ isSub
  if a.isNan || b.isNan then
    { result := canonicalNan, flags := flagIf (a.isSnan || b.isSnan) fNv }
  else if a.isInf && b.isInf && (a.sign != effSb) then { result := canonicalNan, flags := fNv }
  else if a.isInf then { result := f32PackInf a.sign }
  else if b.isInf then { result := f32PackInf effSb }
  else if a.isZero && b.isZero then
    if a.sign == effSb then { result := f32PackZero a.sign }
    else { result := f32PackZero (decide (rm = rmRdn)) }
  else if a.isZero then { result := signBit effSb ||| (bBits &&& 0x7FFFFFFF) }
  else if b.isZero then { result := aBits }
  else roundSum (signed a.sign a.magnitude + signed effSb b.magnitude) rm

def fMul (aBits bBits : BitVec 32) (rm : BitVec 3) : Result :=
  let a := f32Decode aBits
  let b := f32Decode bBits
  if a.isNan || b.isNan then
    { result := canonicalNan, flags := flagIf (a.isSnan || b.isSnan) fNv }
  else if (a.isInf && b.isZero) || (a.isZero && b.isInf) then
    { result := canonicalNan, flags := fNv }
  else if a.isInf || b.isInf then { result := f32PackInf (a.sign ^^ b.sign) }
  else if a.isZero || b.isZero then { result := f32PackZero (a.sign ^^ b.sign) }
  else f32RoundFromFraction (a.sign ^^ b.sign) (a.magnitude * b.magnitude) rm

def fDiv (aBits bBits : BitVec 32) (rm : BitVec 3) : Result :=
  let a := f32Decode aBits
  let b := f32Decode bBits
  if a.isNan || b.isNan then
    { result := canonicalNan, flags := flagIf (a.isSnan || b.isSnan) fNv }
  else if a.isInf && b.isInf then { result := canonicalNan, flags := fNv }
  else if a.isZero && b.isZero then { result := canonicalNan, flags := fNv }
  else if a.isInf then { result := f32PackInf (a.sign ^^ b.sign) }
  else if b.isInf then { result := f32PackZero (a.sign ^^ b.sign) }
  else if b.isZero then { result := f32PackInf (a.sign ^^ b.sign), flags := fDz }
  else if a.isZero then { result := f32PackZero (a.sign ^^ b.sign) }
  else f32RoundFromFraction (a.sign ^^ b.sign) (a.magnitude / b.magnitude) rm

/-- `none` is the failed assertion of the normalisation. -/
def fSqrt (aBits : BitVec 32) (rm : BitVec 3) : Option Result :=
  let a := f32Decode aBits
  if a.isNan then some { result := canonicalNan, flags := flagIf a.isSnan fNv }
  else if a.isZero then some { result := aBits }
  else if a.sign then some { result := canonicalNan, flags := fNv }
  else if a.isInf then some { result := aBits }
  else f32RoundFromSqrt false a.magnitude rm

def fMadd (aBits bBits cBits : BitVec 32) (rm : BitVec 3) (negProd negAddend : Bool) : Result :=
  let a := f32Decode aBits
  let b := f32Decode bBits
  let c := f32Decode cBits
  if a.isNan || b.isNan || c.isNan then
    { result := canonicalNan, flags := flagIf (a.isSnan || b.isSnan || c.isSnan) fNv }
  else if (a.isInf && b.isZero) || (a.isZero && b.isInf) then
    { result := canonicalNan, flags := fNv }
  else
    let prodSign := a.sign ^^ b.sign ^^ negProd
    let prodInf := a.isInf || b.isInf
    let effSc := c.sign ^^ negAddend
    if prodInf && c.isInf && (prodSign != effSc) then { result := canonicalNan, flags := fNv }
    else if prodInf then { result := f32PackInf prodSign }
    else if c.isInf then { result := f32PackInf effSc }
    else if a.isZero || b.isZero then
      if c.isZero then
        if prodSign == effSc then { result := f32PackZero prodSign }
        else { result := f32PackZero (decide (rm = rmRdn)) }
      else { result := signBit effSc ||| (cBits &&& 0x7FFFFFFF) }
    else roundSum (signed prodSign (a.magnitude * b.magnitude) + signed effSc c.magnitude) rm

/-! ## Comparisons and conversions -/

def f32IsZeroArith (bits : BitVec 32) : Bool := bits.extractLsb' 23 8 == 0

/-- The order on the bits of two numbers that are not both zero. -/
def bitsLt (aBits bBits : BitVec 32) : Bool :=
  let a := f32Decode aBits
  let b := f32Decode bBits
  if a.sign != b.sign then a.sign
  else if a.sign then decide ((bBits &&& 0x7FFFFFFF) < (aBits &&& 0x7FFFFFFF))
  else decide ((aBits &&& 0x7FFFFFFF) < (bBits &&& 0x7FFFFFFF))

def fMinmax (aBits bBits : BitVec 32) (funct3 : BitVec 3) : Result :=
  let a := f32Decode aBits
  let b := f32Decode bBits
  if a.isNan && b.isNan then
    { result := canonicalNan, flags := flagIf (a.isSnan || b.isSnan) fNv }
  else if a.isNan then { result := bBits, flags := flagIf a.isSnan fNv }
  else if b.isNan then { result := aBits, flags := flagIf b.isSnan fNv }
  else
    let aEz := f32IsZeroArith aBits
    let bEz := f32IsZeroArith bBits
    let aLtB :=
      if aEz && bEz then (aEz && aBits.getLsbD 31) && !(bEz && bBits.getLsbD 31)
      else bitsLt aBits bBits
    if funct3 = 0b000#3 then { result := if aLtB then aBits else bBits }
    else { result := if aLtB then bBits else aBits }

def fCmp (aBits bBits : BitVec 32) (funct3 : BitVec 3) : Result :=
  let a := f32Decode aBits
  let b := f32Decode bBits
  if a.isNan || b.isNan then
    { result := 0
      flags := if funct3 = 0b010#3 then flagIf (a.isSnan || b.isSnan) fNv else fNv }
  else
    let bothZero := f32IsZeroArith aBits && f32IsZeroArith bBits
    let eq := if bothZero then true else aBits == bBits
    let lt := if bothZero then false else bitsLt aBits bBits
    let res :=
      if funct3 = 0b010#3 then eq else if funct3 = 0b001#3 then lt else lt || eq
    { result := if res then 1 else 0 }

/-- The saturated result of an out-of-range conversion. -/
def saturated (unsigned sign : Bool) : BitVec 32 :=
  if unsigned then (if sign then 0 else 0xFFFFFFFF)
  else if sign then 0x80000000 else 0x7FFFFFFF

def fCvtToInt (aBits : BitVec 32) (rm : BitVec 3) (unsigned : Bool) : Result :=
  let a := f32Decode aBits
  if a.isNan then { result := if unsigned then 0xFFFFFFFF else 0x7FFFFFFF, flags := fNv }
  else if a.isZero then { result := 0 }
  else if a.isInf then { result := saturated unsigned a.sign, flags := fNv }
  else
    let floorMag := (a.magnitude.num / a.magnitude.den).toNat
    let cls := classify (a.magnitude - floorMag)
    let roundUp := f32RoundUpDecision cls floorMag a.sign rm
    let magnitude := floorMag + if roundUp then 1 else 0
    let outOfRange :=
      if unsigned then (a.sign && magnitude != 0) || decide (magnitude > 0xFFFFFFFF)
      else
        (!a.sign && decide (magnitude > 0x7FFFFFFF)) ||
          (a.sign && decide (magnitude > 0x80000000))
    if outOfRange then { result := saturated unsigned a.sign, flags := fNv }
    else
      { result := if a.sign then BitVec.ofInt 32 (-magnitude) else BitVec.ofNat 32 magnitude
        flags := flagIf (cls != .exact) fNx }

def fCvtFromInt (aBits : BitVec 32) (rm : BitVec 3) (unsigned : Bool) : Result :=
  if aBits = 0 then { result := 0 }
  else
    let sign := !unsigned && aBits.getLsbD 31
    let magnitude := if sign then ~~~aBits + 1 else aBits
    f32RoundFromFraction sign magnitude.toNat rm

end IssFloat

end RvPipeline
