import RvPipeline.Design.Defs

/-!
# Branch predictor tables

`Bht.v` and `Btb.v`: untagged, direct-mapped, `2 ^ k` entries indexed by
`pc[k+1:2]`.
-/

namespace RvPipeline

variable {w k : ℕ}

/-- `pc[INDEX_WIDTH+1:2]`. -/
def bpIndex (k : ℕ) (pc : BitVec w) : BitVec k := pc.extractLsb' 2 k

/-- `counters` of `Bht.v`. -/
abbrev Bht (k : ℕ) := BitVec k → BitVec 2

namespace Bht

def reset (k : ℕ) : Bht k := fun _ ↦ 0

def predictTaken (b : Bht k) (queryPc : BitVec w) : Bool := (b (bpIndex k queryPc)).getLsbD 1

/-- The saturating counter. -/
def bump (taken : Bool) (c : BitVec 2) : BitVec 2 :=
  if taken then if c = 0b11#2 then 0b11#2 else c + 1 else if c = 0b00#2 then 0b00#2 else c - 1

def step (updateValid : Bool) (updatePc : BitVec w) (updateTaken : Bool) (b : Bht k) : Bht k :=
  if updateValid then
    fun i ↦ if i = bpIndex k updatePc then bump updateTaken (b i) else b i
  else b

end Bht

/-- `valid` and `targets` of `Btb.v`. -/
structure Btb (w k : ℕ) where
  valid : BitVec k → Bool
  targets : BitVec k → BitVec w
  deriving Inhabited

namespace Btb

def reset (w k : ℕ) : Btb w k := { valid := fun _ ↦ false, targets := fun _ ↦ 0 }

def hit (b : Btb w k) (queryPc : BitVec w) : Bool := b.valid (bpIndex k queryPc)

def target (b : Btb w k) (queryPc : BitVec w) : BitVec w := b.targets (bpIndex k queryPc)

def step (updateValid : Bool) (updatePc updateTarget : BitVec w) (b : Btb w k) : Btb w k :=
  if updateValid then
    { valid := fun i ↦ if i = bpIndex k updatePc then true else b.valid i
      targets := fun i ↦ if i = bpIndex k updatePc then updateTarget else b.targets i }
  else b

end Btb

end RvPipeline
