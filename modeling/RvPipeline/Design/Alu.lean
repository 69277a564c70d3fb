import RvPipeline.Design.Decode

/-!
# Integer execution units

`ALU.v` and the restoring divider of `Divider.v`.
-/

namespace RvPipeline

variable {w : ℕ}

/-- The low 32 bits of a `w`-bit value, as every `wordOp` arm selects them. -/
def low32 (a : BitVec w) : BitVec 32 := a.setWidth 32

/-- `CTZ`: trailing zeros among the low `w - 1` bits. -/
def ctzCount (a : BitVec w) : ℕ :=
  ((List.range (w - 1)).takeWhile (fun i ↦ !a.getLsbD i)).length

/-- `ALUOut` of `ALU.v`. -/
def aluOut (ctl : AluCtl) (a b : BitVec w) (wordOp : Bool) : BitVec w :=
  let shamt := (b.setWidth (clog2 w)).toNat
  let shamtW := (b.setWidth 5).toNat
  match ctl with
  | .add => if wordOp then (low32 a + low32 b).signExtend w else a + b
  | .sub => if wordOp then (low32 a - low32 b).signExtend w else a - b
  | .sll => if wordOp then (low32 a <<< shamtW).signExtend w else a <<< shamt
  | .slt => if a.slt b then 1 else 0
  | .sltu => if a.ult b then 1 else 0
  | .xor => a ^^^ b
  | .srl => if wordOp then (low32 a >>> shamtW).signExtend w else a >>> shamt
  | .sra => if wordOp then ((low32 a).sshiftRight shamtW).signExtend w else a.sshiftRight shamt
  | .or => a ||| b
  | .and => a &&& b
  | .beq | .bne | .blt | .bge | .ble | .bgt | .bltu | .bgeu => a &&& b
  | .ctz => BitVec.ofNat w (ctzCount a)
  | .mul => if wordOp then (low32 a * low32 b).signExtend w else a * b
  | .mulh => (a.signExtend (2 * w) * b.signExtend (2 * w)).extractLsb' w w
  | .mulhsu => (a.signExtend (2 * w) * b.setWidth (2 * w)).extractLsb' w w
  | .mulhu => (a.setWidth (2 * w) * b.setWidth (2 * w)).extractLsb' w w
  | .div | .divu | .rem | .remu | .illegal => 0

/-- `zero` of `ALU.v`: the branch condition. -/
def aluZero (ctl : AluCtl) (a b : BitVec w) : Bool :=
  match ctl with
  | .beq => a == b
  | .bne => a != b
  | .blt => a.slt b
  | .bge => b.sle a
  | .ble => a.sle b
  | .bgt => b.slt a
  | .bltu => a.ult b
  | .bgeu => b.ule a
  | _ => false

/-! ## `Divider.v` -/

/-- The registers of `Divider.v`. -/
structure Divider (w : ℕ) where
  busy : Bool
  done : Bool
  quotient : BitVec w
  remainder : BitVec w
  R : BitVec w
  Q : BitVec w
  D : BitVec w
  count : BitVec (clog2 w)
  negQuotient : Bool
  negRemainder : Bool
  deriving Inhabited

namespace Divider

def reset (d : Divider w) : Divider w :=
  { d with busy := false, done := false, quotient := 0, remainder := 0 }

def absVal (isSigned : Bool) (x : BitVec w) : BitVec w := if isSigned && x.msb then -x else x

/-- One shift-subtract-restore step on the working pair `(R, Q)`. -/
def divStep (D : BitVec w) (p : BitVec w × BitVec w) : BitVec w × BitVec w :=
  let rShifted := p.1 <<< 1 ||| (p.2 >>> (w - 1))
  if D ≤ rShifted then (rShifted - D, p.2 <<< 1 ||| 1) else (rShifted, p.2 <<< 1)

/-- One clock edge of `Divider.v` out of reset. -/
def step (start isSigned : Bool) (dividend divisor : BitVec w) (d : Divider w) : Divider w :=
  if start && !d.busy && !d.done then
    if divisor = 0 then
      { d with done := true, quotient := BitVec.allOnes w, remainder := dividend }
    else if isSigned && dividend == BitVec.twoPow w (w - 1) && divisor == BitVec.allOnes w then
      { d with done := true, quotient := dividend, remainder := 0 }
    else
      { d with
        done := false
        R := 0
        Q := absVal isSigned dividend
        D := absVal isSigned divisor
        negQuotient := isSigned && (dividend.msb != divisor.msb)
        negRemainder := isSigned && dividend.msb
        count := 0
        busy := true }
  else if d.busy then
    let p := divStep d.D (d.R, d.Q)
    let d' := { d with done := false, R := p.1, Q := p.2, count := d.count + 1 }
    if d.count = BitVec.ofNat _ (w - 1) then
      { d' with
        busy := false
        done := true
        quotient := if d.negQuotient then -p.2 else p.2
        remainder := if d.negRemainder then -p.1 else p.1 }
    else d'
  else { d with done := false }

end Divider

end RvPipeline
