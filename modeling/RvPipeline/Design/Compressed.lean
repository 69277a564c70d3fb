import RvPipeline.Design.Defs

/-!
# Compressed instruction expansion

`CompressedExpander.v`: each 16-bit encoding becomes one 32-bit word, reserved
encodings become the all-zero (illegal) word.  Offsets are sign-extended from
their own top bit, exactly as the module replicates it.
-/

namespace RvPipeline
namespace Compressed

/-- The field layouts the expander concatenates. -/
def iWord (imm : BitVec 12) (rs1 : BitVec 5) (f3 : BitVec 3) (rd : BitVec 5)
    (op : BitVec 7) : BitVec 32 :=
  imm ++ rs1 ++ f3 ++ rd ++ op

def sWord (imm : BitVec 12) (rs2 rs1 : BitVec 5) (f3 : BitVec 3) (op : BitVec 7) : BitVec 32 :=
  imm.extractLsb' 5 7 ++ rs2 ++ rs1 ++ f3 ++ imm.extractLsb' 0 5 ++ op

def rWord (f7 : BitVec 7) (rs2 rs1 : BitVec 5) (f3 : BitVec 3) (rd : BitVec 5)
    (op : BitVec 7) : BitVec 32 :=
  f7 ++ rs2 ++ rs1 ++ f3 ++ rd ++ op

section
variable (c : BitVec 16)

def f3 : BitVec 3 := c.extractLsb' 13 3
def rdCRs1C : BitVec 5 := 0b01#2 ++ c.extractLsb' 7 3
def rs2C : BitVec 5 := 0b01#2 ++ c.extractLsb' 2 3
def rdFull : BitVec 5 := c.extractLsb' 7 5
def crRs2 : BitVec 5 := c.extractLsb' 2 5
def ciImm6 : BitVec 6 := c.extractLsb' 12 1 ++ c.extractLsb' 2 5

/-! ### Quadrant 0 -/

def ciwImm : BitVec 10 :=
  c.extractLsb' 7 4 ++ c.extractLsb' 11 2 ++ c.extractLsb' 5 1 ++ c.extractLsb' 6 1 ++ 0b00#2

def clLdImm : BitVec 8 := c.extractLsb' 5 2 ++ c.extractLsb' 10 3 ++ 0b000#3
def clLwImm : BitVec 7 :=
  c.extractLsb' 5 1 ++ c.extractLsb' 10 3 ++ c.extractLsb' 6 1 ++ 0b00#2

def q0 : BitVec 32 :=
  if f3 c = 0b000#3 then
    if ciwImm c = 0 then 0 else iWord (0b00#2 ++ ciwImm c) 2#5 0b000#3 (rs2C c) opcodeI
  else if f3 c = 0b001#3 then
    iWord ((clLdImm c).signExtend 12) (rdCRs1C c) 0b011#3 (rs2C c) opcodeLoadFp
  else if f3 c = 0b010#3 then
    iWord ((clLwImm c).signExtend 12) (rdCRs1C c) 0b010#3 (rs2C c) opcodeLoad
  else if f3 c = 0b011#3 then
    iWord ((clLdImm c).signExtend 12) (rdCRs1C c) 0b011#3 (rs2C c) opcodeLoad
  else if f3 c = 0b101#3 then
    sWord ((clLdImm c).signExtend 12) (rs2C c) (rdCRs1C c) 0b011#3 opcodeStoreFp
  else if f3 c = 0b110#3 then
    sWord ((clLwImm c).signExtend 12) (rs2C c) (rdCRs1C c) 0b010#3 opcodeStore
  else if f3 c = 0b111#3 then
    sWord ((clLdImm c).signExtend 12) (rs2C c) (rdCRs1C c) 0b011#3 opcodeStore
  else 0

/-! ### Quadrant 1 -/

def c16spImm : BitVec 10 :=
  c.extractLsb' 12 1 ++ c.extractLsb' 3 2 ++ c.extractLsb' 5 1 ++ c.extractLsb' 2 1 ++
    c.extractLsb' 6 1 ++ 0b0000#4

def expQ1High : BitVec 32 :=
  if rdFull c = 2#5 then
    if c16spImm c = 0 then 0 else iWord ((c16spImm c).signExtend 12) 2#5 0b000#3 2#5 opcodeI
  else if rdFull c = 0#5 ∨ rdFull c = 2#5 ∨ ciImm6 c = 0 then 0
  else (ciImm6 c).signExtend 20 ++ rdFull c ++ opcodeLui

def expArith : BitVec 32 :=
  let rd := rdCRs1C c
  if c.extractLsb' 10 2 = 0b00#2 then iWord (0b000000#6 ++ ciImm6 c) rd 0b101#3 rd opcodeI
  else if c.extractLsb' 10 2 = 0b01#2 then iWord (0b010000#6 ++ ciImm6 c) rd 0b101#3 rd opcodeI
  else if c.extractLsb' 10 2 = 0b10#2 then
    iWord ((ciImm6 c).signExtend 12) rd 0b111#3 rd opcodeI
  else if c.getLsbD 12 = false then
    if c.extractLsb' 5 2 = 0b00#2 then rWord 0b0100000#7 (rs2C c) rd 0b000#3 rd opcodeR
    else if c.extractLsb' 5 2 = 0b01#2 then rWord 0b0000000#7 (rs2C c) rd 0b100#3 rd opcodeR
    else if c.extractLsb' 5 2 = 0b10#2 then rWord 0b0000000#7 (rs2C c) rd 0b110#3 rd opcodeR
    else rWord 0b0000000#7 (rs2C c) rd 0b111#3 rd opcodeR
  else
    if c.extractLsb' 5 2 = 0b00#2 then rWord 0b0100000#7 (rs2C c) rd 0b000#3 rd opcodeOp32
    else if c.extractLsb' 5 2 = 0b01#2 then rWord 0b0000000#7 (rs2C c) rd 0b000#3 rd opcodeOp32
    else 0

def cjOff : BitVec 11 :=
  c.extractLsb' 12 1 ++ c.extractLsb' 8 1 ++ c.extractLsb' 9 1 ++ c.extractLsb' 10 1 ++
    c.extractLsb' 6 1 ++ c.extractLsb' 7 1 ++ c.extractLsb' 2 1 ++ c.extractLsb' 11 1 ++
    c.extractLsb' 3 3

def expJ : BitVec 32 :=
  let imm20 := (cjOff c).signExtend 20
  imm20.extractLsb' 19 1 ++ imm20.extractLsb' 0 10 ++ imm20.extractLsb' 10 1 ++
    imm20.extractLsb' 11 8 ++ 0#5 ++ opcodeJal

def cbOff : BitVec 8 :=
  c.extractLsb' 12 1 ++ c.extractLsb' 5 2 ++ c.extractLsb' 2 1 ++ c.extractLsb' 10 2 ++
    c.extractLsb' 3 2

/-- `exp_beqz` and `exp_bnez` differ in `funct3` only. -/
def expBranchZ (funct3 : BitVec 3) : BitVec 32 :=
  let imm20 := (cbOff c).signExtend 20
  imm20.extractLsb' 11 1 ++ imm20.extractLsb' 4 6 ++ 0#5 ++ rdCRs1C c ++ funct3 ++
    imm20.extractLsb' 0 4 ++ imm20.extractLsb' 10 1 ++ opcodeBranch

def q1 : BitVec 32 :=
  let imm := (ciImm6 c).signExtend 12
  if f3 c = 0b000#3 then iWord imm (rdFull c) 0b000#3 (rdFull c) opcodeI
  else if f3 c = 0b001#3 then
    if rdFull c = 0#5 then 0 else iWord imm (rdFull c) 0b000#3 (rdFull c) opcodeOpImm32
  else if f3 c = 0b010#3 then iWord imm 0#5 0b000#3 (rdFull c) opcodeI
  else if f3 c = 0b011#3 then expQ1High c
  else if f3 c = 0b100#3 then expArith c
  else if f3 c = 0b101#3 then expJ c
  else if f3 c = 0b110#3 then expBranchZ c 0b000#3
  else expBranchZ c 0b001#3

/-! ### Quadrant 2 -/

def cldspImm : BitVec 9 :=
  c.extractLsb' 2 3 ++ c.extractLsb' 12 1 ++ c.extractLsb' 5 2 ++ 0b000#3
def clwspImm : BitVec 8 :=
  c.extractLsb' 2 2 ++ c.extractLsb' 12 1 ++ c.extractLsb' 4 3 ++ 0b00#2
def csdspImm : BitVec 9 := c.extractLsb' 7 3 ++ c.extractLsb' 10 3 ++ 0b000#3
def cswspImm : BitVec 8 := c.extractLsb' 7 2 ++ c.extractLsb' 9 4 ++ 0b00#2

def expQ2100 : BitVec 32 :=
  if c.getLsbD 12 = false then
    if crRs2 c = 0#5 then
      if rdFull c = 0#5 then 0 else iWord 0#12 (rdFull c) 0b000#3 0#5 opcodeJalr
    else rWord 0b0000000#7 (crRs2 c) 0#5 0b000#3 (rdFull c) opcodeR
  else if rdFull c = 0#5 ∧ crRs2 c = 0#5 then 0x00100073#32
  else if crRs2 c = 0#5 then iWord 0#12 (rdFull c) 0b000#3 1#5 opcodeJalr
  else rWord 0b0000000#7 (crRs2 c) (rdFull c) 0b000#3 (rdFull c) opcodeR

def q2 : BitVec 32 :=
  if f3 c = 0b000#3 then
    if rdFull c = 0#5 then 0
    else iWord (0b000000#6 ++ ciImm6 c) (rdFull c) 0b001#3 (rdFull c) opcodeI
  else if f3 c = 0b001#3 then
    iWord ((cldspImm c).signExtend 12) 2#5 0b011#3 (rdFull c) opcodeLoadFp
  else if f3 c = 0b010#3 then
    if rdFull c = 0#5 then 0
    else iWord ((clwspImm c).signExtend 12) 2#5 0b010#3 (rdFull c) opcodeLoad
  else if f3 c = 0b011#3 then
    if rdFull c = 0#5 then 0
    else iWord ((cldspImm c).signExtend 12) 2#5 0b011#3 (rdFull c) opcodeLoad
  else if f3 c = 0b100#3 then expQ2100 c
  else if f3 c = 0b101#3 then
    sWord ((csdspImm c).signExtend 12) (crRs2 c) 2#5 0b011#3 opcodeStoreFp
  else if f3 c = 0b110#3 then
    sWord ((cswspImm c).signExtend 12) (crRs2 c) 2#5 0b010#3 opcodeStore
  else sWord ((csdspImm c).signExtend 12) (crRs2 c) 2#5 0b011#3 opcodeStore

end

end Compressed

/-- `CompressedExpander.v`. -/
def compressedExpander (c : BitVec 16) : BitVec 32 :=
  let op := c.extractLsb' 0 2
  if op = 0b00#2 then Compressed.q0 c
  else if op = 0b01#2 then Compressed.q1 c
  else if op = 0b10#2 then Compressed.q2 c
  else 0

end RvPipeline
