import RvPipeline.Design.Defs

/-!
# A fragment of RV64

The instructions that 16-bit encodings stand for, with their effect on a hart.  Nothing here
comes from the core: this is the instruction set manual's side of the comparison.
-/

namespace Rv64

open RvPipeline

/-- Registers, memory and program counter of one hart. -/
structure Hart where
  pc : BitVec 64
  x : BitVec 5 → BitVec 64
  f : BitVec 5 → BitVec 64
  mem : BitVec 64 → BitVec 8

namespace Hart

def get (h : Hart) (r : BitVec 5) : BitVec 64 := if r = 0#5 then 0 else h.x r

def set (h : Hart) (rd : BitVec 5) (v : BitVec 64) : Hart :=
  if rd = 0#5 then h else { h with x := Function.update h.x rd v }

def setF (h : Hart) (rd : BitVec 5) (v : BitVec 64) : Hart :=
  { h with f := Function.update h.f rd v }

def goto (h : Hart) (pc : BitVec 64) : Hart := { h with pc := pc }

/-- The doubleword at `a`, lowest byte first. -/
def load (h : Hart) (a : BitVec 64) : BitVec 64 :=
  h.mem (a + 7) ++ h.mem (a + 6) ++ h.mem (a + 5) ++ h.mem (a + 4) ++
    h.mem (a + 3) ++ h.mem (a + 2) ++ h.mem (a + 1) ++ h.mem a

/-- The low `n` bytes of `v` to `a` on. -/
def store (h : Hart) (n : ℕ) (a v : BitVec 64) : Hart :=
  { h with
    mem := fun b ↦
      if (b - a).toNat < n then v.extractLsb' (8 * (b - a).toNat) 8 else h.mem b }

end Hart

/-! ## Instructions -/

inductive RegOp where
  | add | sub | xor | or | and | addw | subw
  deriving DecidableEq, Repr

inductive ImmOp where
  | addi | andi | addiw
  deriving DecidableEq, Repr

inductive ShiftOp where
  | slli | srli | srai
  deriving DecidableEq, Repr

/-- `w` and `d` move integer registers, `fd` float registers. -/
inductive Width where
  | w | d | fd
  deriving DecidableEq, Repr

/-- Immediates and offsets are already extended to 64 bits. -/
inductive Inst where
  | reg (op : RegOp) (rd rs1 rs2 : BitVec 5)
  | imm (op : ImmOp) (rd rs1 : BitVec 5) (v : BitVec 64)
  | shift (op : ShiftOp) (rd rs1 : BitVec 5) (shamt : BitVec 6)
  | lui (rd : BitVec 5) (v : BitVec 64)
  | load (width : Width) (rd rs1 : BitVec 5) (off : BitVec 64)
  | store (width : Width) (rs2 rs1 : BitVec 5) (off : BitVec 64)
  | beq (rs1 rs2 : BitVec 5) (off : BitVec 64)
  | bne (rs1 rs2 : BitVec 5) (off : BitVec 64)
  | jal (rd : BitVec 5) (off : BitVec 64)
  | jalr (rd rs1 : BitVec 5) (off : BitVec 64)
  | ebreak
  deriving DecidableEq, Repr

def RegOp.apply : RegOp → BitVec 64 → BitVec 64 → BitVec 64
  | .add, a, b => a + b
  | .sub, a, b => a - b
  | .xor, a, b => a ^^^ b
  | .or, a, b => a ||| b
  | .and, a, b => a &&& b
  | .addw, a, b => ((a + b).setWidth 32).signExtend 64
  | .subw, a, b => ((a - b).setWidth 32).signExtend 64

def ImmOp.apply : ImmOp → BitVec 64 → BitVec 64 → BitVec 64
  | .addi, a, v => a + v
  | .andi, a, v => a &&& v
  | .addiw, a, v => ((a + v).setWidth 32).signExtend 64

def ShiftOp.apply : ShiftOp → BitVec 64 → ℕ → BitVec 64
  | .slli, a, n => a <<< n
  | .srli, a, n => a >>> n
  | .srai, a, n => a.sshiftRight n

/-- What executing a word does. -/
inductive Effect where
  | next (h : Hart)
  | breakpoint
  | illegal

/-- The effect of an instruction that is `len` bytes long. -/
def Inst.exec (len : BitVec 64) (h : Hart) : Inst → Effect
  | .reg op rd rs1 rs2 => .next ((h.set rd (op.apply (h.get rs1) (h.get rs2))).goto (h.pc + len))
  | .imm op rd rs1 v => .next ((h.set rd (op.apply (h.get rs1) v)).goto (h.pc + len))
  | .shift op rd rs1 shamt =>
    .next ((h.set rd (op.apply (h.get rs1) shamt.toNat)).goto (h.pc + len))
  | .lui rd v => .next ((h.set rd v).goto (h.pc + len))
  | .load .w rd rs1 off =>
    .next ((h.set rd (((h.load (h.get rs1 + off)).setWidth 32).signExtend 64)).goto (h.pc + len))
  | .load .d rd rs1 off => .next ((h.set rd (h.load (h.get rs1 + off))).goto (h.pc + len))
  | .load .fd rd rs1 off => .next ((h.setF rd (h.load (h.get rs1 + off))).goto (h.pc + len))
  | .store .w rs2 rs1 off =>
    .next ((h.store 4 (h.get rs1 + off) (h.get rs2)).goto (h.pc + len))
  | .store .d rs2 rs1 off =>
    .next ((h.store 8 (h.get rs1 + off) (h.get rs2)).goto (h.pc + len))
  | .store .fd rs2 rs1 off => .next ((h.store 8 (h.get rs1 + off) (h.f rs2)).goto (h.pc + len))
  | .beq rs1 rs2 off =>
    .next (h.goto (h.pc + if h.get rs1 = h.get rs2 then off else len))
  | .bne rs1 rs2 off =>
    .next (h.goto (h.pc + if h.get rs1 = h.get rs2 then len else off))
  | .jal rd off => .next ((h.set rd (h.pc + len)).goto (h.pc + off))
  | .jalr rd rs1 off =>
    .next ((h.set rd (h.pc + len)).goto ((h.get rs1 + off) &&& ~~~1#64))
  | .ebreak => .breakpoint

/-! ## 32-bit words -/

section Fields

variable (word : BitVec 32)

def opcode : BitVec 7 := word.extractLsb' 0 7
def rd : BitVec 5 := word.extractLsb' 7 5
def funct3 : BitVec 3 := word.extractLsb' 12 3
def rs1 : BitVec 5 := word.extractLsb' 15 5
def rs2 : BitVec 5 := word.extractLsb' 20 5
def funct7 : BitVec 7 := word.extractLsb' 25 7

def immI : BitVec 64 := (word.extractLsb' 20 12).signExtend 64

def immS : BitVec 64 := (word.extractLsb' 25 7 ++ word.extractLsb' 7 5).signExtend 64

def immB : BitVec 64 :=
  (word.extractLsb' 31 1 ++ word.extractLsb' 7 1 ++ word.extractLsb' 25 6 ++
    word.extractLsb' 8 4 ++ 0#1).signExtend 64

def immU : BitVec 64 := (word.extractLsb' 12 20 ++ 0#12).signExtend 64

def immJ : BitVec 64 :=
  (word.extractLsb' 31 1 ++ word.extractLsb' 12 8 ++ word.extractLsb' 20 1 ++
    word.extractLsb' 21 10 ++ 0#1).signExtend 64

/-- Register-register operations. -/
def decodeReg : Option Inst :=
  let arith (op : RegOp) := some (.reg op (rd word) (rs1 word) (rs2 word))
  if opcode word = opcodeR then
    if funct7 word = 0b0000000#7 then
      if funct3 word = 0b000#3 then arith .add
      else if funct3 word = 0b100#3 then arith .xor
      else if funct3 word = 0b110#3 then arith .or
      else if funct3 word = 0b111#3 then arith .and
      else none
    else if funct7 word = 0b0100000#7 ∧ funct3 word = 0b000#3 then arith .sub
    else none
  else if funct3 word = 0b000#3 then
    if funct7 word = 0b0000000#7 then arith .addw
    else if funct7 word = 0b0100000#7 then arith .subw
    else none
  else none

/-- Register-immediate operations; a shift has its kind in the six bits above the amount. -/
def decodeImm : Option Inst :=
  let shift (op : ShiftOp) := some (.shift op (rd word) (rs1 word) (word.extractLsb' 20 6))
  let imm (op : ImmOp) := some (.imm op (rd word) (rs1 word) (immI word))
  if funct3 word = 0b000#3 then imm .addi
  else if funct3 word = 0b111#3 then imm .andi
  else if word.extractLsb' 26 6 = 0b000000#6 then
    if funct3 word = 0b001#3 then shift .slli
    else if funct3 word = 0b101#3 then shift .srli
    else none
  else if word.extractLsb' 26 6 = 0b010000#6 ∧ funct3 word = 0b101#3 then shift .srai
  else none

/-- The instruction a word encodes, if it is one of the fragment. -/
def decode : Option Inst :=
  if opcode word = opcodeR ∨ opcode word = opcodeOp32 then decodeReg word
  else if opcode word = opcodeI then decodeImm word
  else if opcode word = opcodeOpImm32 then
    if funct3 word = 0b000#3 then some (.imm .addiw (rd word) (rs1 word) (immI word)) else none
  else if opcode word = opcodeLui then some (.lui (rd word) (immU word))
  else if opcode word = opcodeLoad then
    if funct3 word = 0b010#3 then some (.load .w (rd word) (rs1 word) (immI word))
    else if funct3 word = 0b011#3 then some (.load .d (rd word) (rs1 word) (immI word))
    else none
  else if opcode word = opcodeLoadFp then
    if funct3 word = 0b011#3 then some (.load .fd (rd word) (rs1 word) (immI word)) else none
  else if opcode word = opcodeStore then
    if funct3 word = 0b010#3 then some (.store .w (rs2 word) (rs1 word) (immS word))
    else if funct3 word = 0b011#3 then some (.store .d (rs2 word) (rs1 word) (immS word))
    else none
  else if opcode word = opcodeStoreFp then
    if funct3 word = 0b011#3 then some (.store .fd (rs2 word) (rs1 word) (immS word)) else none
  else if opcode word = opcodeBranch then
    if funct3 word = 0b000#3 then some (.beq (rs1 word) (rs2 word) (immB word))
    else if funct3 word = 0b001#3 then some (.bne (rs1 word) (rs2 word) (immB word))
    else none
  else if opcode word = opcodeJal then some (.jal (rd word) (immJ word))
  else if opcode word = opcodeJalr ∧ funct3 word = 0b000#3 then
    some (.jalr (rd word) (rs1 word) (immI word))
  else if word = 0x00100073#32 then some .ebreak
  else none

end Fields

/-- Executes a word of which `len` bytes were fetched. -/
def execWord (len : BitVec 64) (word : BitVec 32) (h : Hart) : Effect :=
  match decode word with
  | some i => i.exec len h
  | none => .illegal

end Rv64
