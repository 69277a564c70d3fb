import RvPipeline.Design.Decode
import RvPipeline.Design.Compressed

/-!
# Pipeline registers, register files and hazard units

`PC.v`, `reg1.v`, `reg1a.v`, `reg2.v`, `reg3.v`, `reg4.v`, `Register.v`,
`FRegister.v`, `Hazard.v`, `HazardNoForward.v`, `Forward.v` and `FForward.v`.
-/

namespace RvPipeline

variable {w : ℕ}

/-- The encoding of `addi x0, x0, 0` the squash arms latch. -/
abbrev nopInst : BitVec 32 := 0x00000013#32

/-! ## Instruction fields -/

def opcodeOf (inst : BitVec 32) : BitVec 7 := inst.extractLsb' 0 7
def rdOf (inst : BitVec 32) : BitVec 5 := inst.extractLsb' 7 5
def funct3Of (inst : BitVec 32) : BitVec 3 := inst.extractLsb' 12 3
def rs1Of (inst : BitVec 32) : BitVec 5 := inst.extractLsb' 15 5
def rs2Of (inst : BitVec 32) : BitVec 5 := inst.extractLsb' 20 5
def rs3Of (inst : BitVec 32) : BitVec 5 := inst.extractLsb' 27 5
def funct7Of (inst : BitVec 32) : BitVec 7 := inst.extractLsb' 25 7
def csrImm12Of (inst : BitVec 32) : BitVec 12 := inst.extractLsb' 20 12

/-- `Control.v` as the decode stage wires it. -/
def decodeControl (w : ℕ) (inst : BitVec 32) : Control :=
  control w (opcodeOf inst) (funct7Of inst) (funct3Of inst) (csrImm12Of inst)

def isFmaOpcode (op : BitVec 7) : Bool :=
  op == opcodeMadd || op == opcodeMsub || op == opcodeNmsub || op == opcodeNmadd

/-! ## `PC.v` and the fetch registers -/

/-- `PC.v`: stall wins over the next address. -/
def pcStep (stall : Bool) (pcI pcO : BitVec w) : BitVec w := if stall then pcO else pcI

/-- `reg1.v`, the IF/ID register. -/
structure Reg1 (w : ℕ) where
  inst : BitVec 32
  pc : BitVec w
  predictTaken : Bool
  predictTarget : BitVec w
  ifetchFault : Bool
  isCompressed : Bool
  deriving Inhabited

namespace Reg1

/-- The reset and squash value. -/
def bubble (w : ℕ) : Reg1 w :=
  { inst := nopInst, pc := 0, predictTaken := false, predictTarget := 0, ifetchFault := false
    isCompressed := false }

/-- Squash, then stall, then latch. -/
def step (r : Reg1 w) (jump stall : Bool) (next : Reg1 w) : Reg1 w :=
  if jump then bubble w else if stall then r else next

end Reg1

/-- `reg1a.v`, the extra fetch register of the split-fetch profile. -/
structure Reg1a (w : ℕ) where
  pc : BitVec w
  predictTaken : Bool
  predictTarget : BitVec w
  deriving Inhabited

namespace Reg1a

def reset (w : ℕ) : Reg1a w := { pc := 0, predictTaken := false, predictTarget := 0 }

def step (r : Reg1a w) (stall : Bool) (next : Reg1a w) : Reg1a w := if stall then r else next

end Reg1a

/-! ## `reg2.v` -/

/-- The fields `ZERO_DECODE_CONTEXT` and `PASS_DECODE_CONTEXT` name. -/
structure DecodeContext (w : ℕ) where
  pc : BitVec w
  readData1 : BitVec w
  readData2 : BitVec w
  freadData1 : BitVec w
  freadData2 : BitVec w
  freadData3 : BitVec w
  imm : BitVec w
  funct7 : BitVec 7
  funct3 : BitVec 3
  readReg1 : BitVec 5
  readReg2 : BitVec 5
  readReg3 : BitVec 5
  predictTaken : Bool
  predictTarget : BitVec w
  ifetchFault : Bool
  isCompressed : Bool
  deriving Inhabited

def DecodeContext.zero (w : ℕ) : DecodeContext w :=
  { pc := 0, readData1 := 0, readData2 := 0, freadData1 := 0, freadData2 := 0, freadData3 := 0
    imm := 0, funct7 := 0, funct3 := 0, readReg1 := 0, readReg2 := 0, readReg3 := 0
    predictTaken := false, predictTarget := 0, ifetchFault := false, isCompressed := false }

/-- The ID/EX register: `valid`, `ctl` and `writeToReg` are what
`ZERO_CONTROL_FIELDS` clears. -/
structure Reg2 (w : ℕ) where
  valid : Bool
  ctl : Control
  writeToReg : BitVec 5
  ctx : DecodeContext w
  inst : BitVec 32
  deriving Inhabited

namespace Reg2

def reset (w : ℕ) : Reg2 w :=
  { valid := false, ctl := {}, writeToReg := 0, ctx := .zero w, inst := 0 }

/-- The squash value. -/
def squashed (w : ℕ) : Reg2 w :=
  { valid := false, ctl := {}, writeToReg := 0, ctx := .zero w, inst := nopInst }

/-- The flush arm: no control, but the decode context and the instruction word of
the instruction that stays behind in ID. -/
def flushed (next : Reg2 w) : Reg2 w :=
  { next with valid := false, ctl := {}, writeToReg := 0 }

/-- Hold, then squash, then flush, then latch. -/
def step (r : Reg2 w) (hold branchTaken flush : Bool) (next : Reg2 w) : Reg2 w :=
  if hold then r else if branchTaken then squashed w else if flush then flushed next else next

end Reg2

/-! ## `reg3.v`, `reg4.v` -/

/-- The EX/MEM register. -/
structure Reg3 (w : ℕ) where
  valid : Bool
  memtoReg : Bool
  regWrite : Bool
  fRegWrite : Bool
  memRead : Bool
  memWrite : Bool
  aluOut : BitVec w
  readData2 : BitVec w
  writeToReg : BitVec 5
  jump : Bool
  pcPlus4 : BitVec w
  funct3 : BitVec 3
  isAmo : Bool
  funct7 : BitVec 7
  deriving Inhabited

namespace Reg3

def reset (w : ℕ) : Reg3 w :=
  { valid := false, memtoReg := false, regWrite := false, fRegWrite := false, memRead := false
    memWrite := false, aluOut := 0, readData2 := 0, writeToReg := 0, jump := false, pcPlus4 := 0
    funct3 := 0, isAmo := false, funct7 := 0 }

def step (r : Reg3 w) (hold : Bool) (next : Reg3 w) : Reg3 w := if hold then r else next

end Reg3

/-- The MEM/WB register. -/
structure Reg4 (w : ℕ) where
  memtoReg : Bool
  regWrite : Bool
  fRegWrite : Bool
  valid : Bool
  readData : BitVec w
  aluOut : BitVec w
  writeToReg : BitVec 5
  jump : Bool
  pcPlus4 : BitVec w
  isAmo : Bool
  deriving Inhabited

namespace Reg4

def reset (w : ℕ) : Reg4 w :=
  { memtoReg := false, regWrite := false, fRegWrite := false, valid := false, readData := 0
    aluOut := 0, writeToReg := 0, jump := false, pcPlus4 := 0, isAmo := false }

/-- The MEM/WB register's input: `reg3` with the data the memory port returned. -/
def ofReg3 (r : Reg3 w) (readData : BitVec w) : Reg4 w :=
  { memtoReg := r.memtoReg, regWrite := r.regWrite, fRegWrite := r.fRegWrite, valid := r.valid
    readData := readData, aluOut := r.aluOut, writeToReg := r.writeToReg, jump := r.jump
    pcPlus4 := r.pcPlus4, isAmo := r.isAmo }

def step (r : Reg4 w) (hold : Bool) (next : Reg4 w) : Reg4 w := if hold then r else next

end Reg4

/-! ## Register files -/

/-- `regs`, of `Register.v` and of `FRegister.v`. -/
abbrev RegFile (w : ℕ) := BitVec 5 → BitVec w

namespace RegFile

/-- `Register.v` at reset: everything zero but the stack pointer. -/
def reset (spInit : ℕ) : RegFile w := fun r ↦ if r = 2 then BitVec.ofNat w spInit else 0

/-- The integer read port, with its write-first bypass. -/
def read (f : RegFile w) (regWrite : Bool) (writeReg : BitVec 5) (writeData : BitVec w)
    (r : BitVec 5) : BitVec w :=
  if r = 0 then 0 else if regWrite && writeReg == r then writeData else f r

/-- The integer write port. -/
def write (f : RegFile w) (regWrite : Bool) (writeReg : BitVec 5) (writeData : BitVec w) :
    RegFile w := fun r ↦
  if regWrite && r == writeReg then if writeReg = 0 then 0 else writeData else f r

/-- The float read port; `f0` is an ordinary register. -/
def fread (f : RegFile w) (regWrite : Bool) (writeReg : BitVec 5) (writeData : BitVec w)
    (r : BitVec 5) : BitVec w :=
  if regWrite && writeReg == r then writeData else f r

/-- The float write port. -/
def fwrite (f : RegFile w) (regWrite : Bool) (writeReg : BitVec 5) (writeData : BitVec w) :
    RegFile w := fun r ↦ if regWrite && r == writeReg then writeData else f r

end RegFile

/-! ## Hazard detection and forwarding -/

/-- `Hazard.v` with its one look-ahead slot. -/
def hazard (readReg1 readReg2 : BitVec 5) (laMemRead : Bool) (laDest : BitVec 5) : Bool :=
  laMemRead && (laDest == readReg1 || laDest == readReg2)

/-- `HazardNoForward.v`. -/
def hazardNoForward (readReg1 readReg2 : BitVec 5) (regWriteDe : Bool) (destDe : BitVec 5)
    (regWriteEm : Bool) (destEm : BitVec 5) (branchTaken : Bool) : Bool :=
  let hazardEx := regWriteDe && destDe != 0 && (destDe == readReg1 || destDe == readReg2)
  let hazardMem := regWriteEm && destEm != 0 && (destEm == readReg1 || destEm == readReg2)
  (hazardEx || hazardMem) && !branchTaken

/-- One operand of `Forward.v` and its mux: MEM wins over WB, and `x0` never forwards. -/
def forward (r : BitVec 5) (validEm : Bool) (destEm : BitVec 5) (valEm : BitVec w)
    (validWb : Bool) (destWb : BitVec 5) (valWb s0 : BitVec w) : BitVec w :=
  if validEm && destEm != 0 && destEm == r then valEm
  else if validWb && destWb != 0 && destWb == r then valWb
  else s0

/-- One operand of `FForward.v` and its mux. -/
def fforward (r : BitVec 5) (validEm : Bool) (destEm : BitVec 5) (valEm : BitVec w)
    (validWb : Bool) (destWb : BitVec 5) (valWb s0 : BitVec w) : BitVec w :=
  if validEm && destEm == r then valEm
  else if validWb && destWb == r then valWb
  else s0

end RvPipeline
