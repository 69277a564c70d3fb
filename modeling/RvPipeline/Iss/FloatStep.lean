import RvPipeline.Iss.Float
import RvPipeline.Iss.Step

/-!
# The float part of `ISS.step`

Loads and stores of the float registers, OP-FP and the fused forms.
-/

namespace RvPipeline

open Fp (Result)

namespace IssFloat

def fSgnj (aBits bBits : BitVec 32) (funct3 : BitVec 3) : BitVec 32 :=
  let sa := aBits.getLsbD 31
  let sb := bBits.getLsbD 31
  let sign := if funct3 = 0b000#3 then sb else if funct3 = 0b001#3 then !sb else sa ^^ sb
  signBit sign ||| (aBits &&& 0x7FFFFFFF)

def fClass (aBits : BitVec 32) : ℕ :=
  let sa := aBits.getLsbD 31
  let exp := aBits.extractLsb' 23 8
  let frac := aBits.extractLsb' 0 23
  if exp = 0xFF ∧ frac = 0 ∧ sa then 1 <<< 0
  else if exp ≠ 0 ∧ exp ≠ 0xFF ∧ sa then 1 <<< 1
  else if exp = 0 ∧ frac ≠ 0 ∧ sa then 1 <<< 2
  else if exp = 0 ∧ frac = 0 ∧ sa then 1 <<< 3
  else if exp = 0 ∧ frac = 0 ∧ !sa then 1 <<< 4
  else if exp = 0 ∧ frac ≠ 0 ∧ !sa then 1 <<< 5
  else if exp ≠ 0 ∧ exp ≠ 0xFF ∧ !sa then 1 <<< 6
  else if exp = 0xFF ∧ frac = 0 ∧ !sa then 1 <<< 7
  else if exp = 0xFF ∧ frac ≠ 0 ∧ !frac.getLsbD 22 then 1 <<< 8
  else 1 <<< 9

end IssFloat

namespace Iss

open IssFloat

variable (C : IssConfig) (σ : Iss)

def setFflags (flags : BitVec 5) : Iss := { σ with fflags := σ.fflags ||| flags }

def resolveRm (rmField : BitVec 3) : BitVec 3 := if rmField = rmDyn then σ.frm else rmField

/-- A result for a float register, with its flags. -/
def wrFloat (rd : BitVec 5) (r : Result) : Iss :=
  { σ with fregs := Function.update σ.fregs rd r.result }.setFflags r.flags

/-- A result for an integer register, with its flags. -/
def wrInt (rd : BitVec 5) (r : Result) : Iss := (σ.wr C rd r.result.toNat).setFflags r.flags

/-- OP-FP, before the program counter moves on. -/
def opFp (word : BitVec 32) : Option Iss :=
  let funct5 := word.extractLsb' 27 5
  let f3 := funct3Of word
  let rd := rdOf word
  let rm := σ.resolveRm f3
  let fa := σ.fregs (rs1Of word)
  let fb := σ.fregs (rs2Of word)
  let A := σ.regs (rs1Of word)
  let unsigned := rs2Of word == 0b00001#5
  if funct5 = funct5Fadd then some (σ.wrFloat rd (fAdd fa fb rm false))
  else if funct5 = funct5Fsub then some (σ.wrFloat rd (fAdd fa fb rm true))
  else if funct5 = funct5Fmul then some (σ.wrFloat rd (fMul fa fb rm))
  else if funct5 = funct5Fdiv then some (σ.wrFloat rd (fDiv fa fb rm))
  else if funct5 = funct5Fsqrt then (fSqrt fa rm).map (σ.wrFloat rd)
  else if funct5 = funct5Fsgnj then
    some { σ with fregs := Function.update σ.fregs rd (fSgnj fa fb f3) }
  else if funct5 = funct5Fminmax then some (σ.wrFloat rd (fMinmax fa fb f3))
  else if funct5 = funct5Fcmp then some (σ.wrInt C rd (fCmp fa fb f3))
  else if funct5 = funct5FcvtWS then some (σ.wrInt C rd (fCvtToInt fa rm unsigned))
  else if funct5 = funct5FcvtSW then
    some (σ.wrFloat rd (fCvtFromInt (BitVec.ofNat 32 A) rm unsigned))
  else if funct5 = funct5FmvXWFclass then
    if f3 = 0b001#3 then some (σ.wr C rd (fClass fa)) else some (σ.wr C rd fa.toInt)
  else if funct5 = funct5FmvWX then
    some { σ with fregs := Function.update σ.fregs rd (BitVec.ofNat 32 A) }
  else none

/-- The four float branches of `step`. -/
def fpStep (word : BitVec 32) : Option Iss :=
  let op := opcodeOf word
  let rd := rdOf word
  let A := σ.regs (rs1Of word)
  let nextPc := σ.pc + 4
  if op = opcodeLoadFp then
    match σ.translate C (C.uxlen (A + IssConfig.immI word)) .load with
    | .error σ' => some σ'
    | .ok addr =>
      some { σ with
        fregs := Function.update σ.fregs rd (BitVec.ofNat 32 (σ.loadMem C addr 4))
        pc := nextPc }
  else if op = opcodeStoreFp then
    match σ.translate C (C.uxlen (A + IssConfig.immS word)) .store with
    | .error σ' => some σ'
    | .ok addr => some { σ.storeMem C addr (σ.fregs (rs2Of word)).toNat 4 with pc := nextPc }
  else if op = opcodeFp then (σ.opFp C word).map fun σ' ↦ { σ' with pc := nextPc }
  else
    let rm := σ.resolveRm (funct3Of word)
    let res := fMadd (σ.fregs (rs1Of word)) (σ.fregs (rs2Of word)) (σ.fregs (rs3Of word)) rm
      (op.getLsbD 3) (op.getLsbD 2)
    some { σ.wrFloat rd res with pc := nextPc }

end Iss

/-- An `ISS` with its own float part; `fpStep` reads only the two sizes of its argument. -/
def IssConfig.full (xlen memSize : ℕ) : IssConfig :=
  { memSize := memSize
    xlen := xlen
    fpStep := fun word σ ↦ σ.fpStep { memSize := memSize, xlen := xlen, fpStep := fun _ _ ↦ none }
      word }

end RvPipeline
