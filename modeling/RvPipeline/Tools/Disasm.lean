import RvPipeline.Lib.PyText

/-!
# The disassembler

`disasm.py`, which keeps its own copy of every table of the assembler.
-/

namespace RvPipeline.Tools.Disasm

open Py

abbrev opcodeR : BitVec 7 := 0b0110011#7
abbrev opcodeI : BitVec 7 := 0b0010011#7
abbrev opcodeLoad : BitVec 7 := 0b0000011#7
abbrev opcodeStore : BitVec 7 := 0b0100011#7
abbrev opcodeBranch : BitVec 7 := 0b1100011#7
abbrev opcodeJal : BitVec 7 := 0b1101111#7
abbrev opcodeJalr : BitVec 7 := 0b1100111#7
abbrev opcodeLui : BitVec 7 := 0b0110111#7
abbrev opcodeAuipc : BitVec 7 := 0b0010111#7
abbrev opcodeCustom : BitVec 7 := 0b0101010#7
abbrev opcodeSystem : BitVec 7 := 0b1110011#7
abbrev opcodeOp32 : BitVec 7 := 0b0111011#7
abbrev opcodeOpImm32 : BitVec 7 := 0b0011011#7
abbrev opcodeFp : BitVec 7 := 0b1010011#7
abbrev opcodeLoadFp : BitVec 7 := 0b0000111#7
abbrev opcodeStoreFp : BitVec 7 := 0b0100111#7
abbrev funct7Base : BitVec 7 := 0b0000000#7
abbrev funct7Alt : BitVec 7 := 0b0100000#7
abbrev funct7Muldiv : BitVec 7 := 0b0000001#7

def maddNames : List (BitVec 7 × Str) :=
  [(0b1000011#7, "fmadd.s".toList), (0b1000111#7, "fmsub.s".toList),
    (0b1001011#7, "fnmsub.s".toList), (0b1001111#7, "fnmadd.s".toList)]

def rmNames : List (BitVec 3 × Str) :=
  [(0b000#3, "rne".toList), (0b001#3, "rtz".toList), (0b010#3, "rdn".toList),
    (0b011#3, "rup".toList), (0b100#3, "rmm".toList), (0b111#3, "dyn".toList)]

def csrNames : List (BitVec 12 × Str) :=
  [(0x300#12, "mstatus".toList), (0x305#12, "mtvec".toList), (0x340#12, "mscratch".toList),
    (0x341#12, "mepc".toList), (0x342#12, "mcause".toList), (0x001#12, "fflags".toList),
    (0x002#12, "frm".toList), (0x003#12, "fcsr".toList)]

def rmName (rm : BitVec 3) : Str := (rmNames.lookup rm).getD ("rm?".toList ++ dec rm.toNat)

def csrName (addr : BitVec 12) : Str := (csrNames.lookup addr).getD ('0' :: 'x' :: hex 3 addr.toNat)

/-! ## Lines -/

/-- A mnemonic and its operands, with a comma between them. -/
def line (mn : Str) (ops : List Str) : Str := mn ++ ' ' :: [','].intercalate ops

def xReg (r : BitVec 5) : Str := 'x' :: dec r.toNat
def fReg (r : BitVec 5) : Str := 'f' :: dec r.toNat
def memOp (off : ℤ) (base : BitVec 5) : Str := decInt off ++ '(' :: (xReg base ++ [')'])

/-! ## Fields -/

section Fields

variable (word : BitVec 32)

def op : BitVec 7 := word.extractLsb' 0 7
def rd : BitVec 5 := word.extractLsb' 7 5
def f3 : BitVec 3 := word.extractLsb' 12 3
def rs1 : BitVec 5 := word.extractLsb' 15 5
def rs2 : BitVec 5 := word.extractLsb' 20 5
def rs3 : BitVec 5 := word.extractLsb' 27 5
def f7 : BitVec 7 := word.extractLsb' 25 7
def imm12 : BitVec 12 := word.extractLsb' 20 12
def immS : BitVec 12 := word.extractLsb' 25 7 ++ word.extractLsb' 7 5

def branchOff : BitVec 13 :=
  word.extractLsb' 31 1 ++ word.extractLsb' 7 1 ++ word.extractLsb' 25 6 ++
    word.extractLsb' 8 4 ++ 0#1

def jalOff : BitVec 21 :=
  word.extractLsb' 31 1 ++ word.extractLsb' 12 8 ++ word.extractLsb' 20 1 ++
    word.extractLsb' 21 10 ++ 0#1

/-! ## One opcode at a time -/

def muldivNames : List (BitVec 3 × Str) :=
  [(0#3, "mul".toList), (1#3, "mulh".toList), (2#3, "mulhsu".toList), (3#3, "mulhu".toList),
    (4#3, "div".toList), (5#3, "divu".toList), (6#3, "rem".toList), (7#3, "remu".toList)]

def rNames : List ((BitVec 7 × BitVec 3) × Str) :=
  [((funct7Base, 0#3), "add".toList), ((funct7Alt, 0#3), "sub".toList),
    ((funct7Base, 1#3), "sll".toList), ((funct7Base, 2#3), "slt".toList),
    ((funct7Base, 3#3), "sltu".toList), ((funct7Base, 4#3), "xor".toList),
    ((funct7Base, 5#3), "srl".toList), ((funct7Alt, 5#3), "sra".toList),
    ((funct7Base, 6#3), "or".toList), ((funct7Base, 7#3), "and".toList)]

/-- `f"{what}?(f7={f7:#04x},f3={f3})"`. -/
def unknownR (what : Str) (f7 : BitVec 7) (f3 : BitVec 3) : Str :=
  what ++ "?(f7=0x".toList ++ hex 2 f7.toNat ++ ",f3=".toList ++ dec f3.toNat ++ [')']

/-- The mnemonic of a register-register word other than `ctz`. -/
def rName (f7 : BitVec 7) (f3 : BitVec 3) : Str :=
  if f7 = funct7Muldiv then (muldivNames.lookup f3).getD []
  else (rNames.lookup (f7, f3)).getD (unknownR "r-type".toList f7 f3)

def disasmR : Str :=
  if f7 word ≠ funct7Muldiv ∧ f7 word = funct7Alt ∧ f3 word = 0b111#3 then
    line "ctz".toList [xReg (rd word), xReg (rs1 word)]
  else line (rName (f7 word) (f3 word)) [xReg (rd word), xReg (rs1 word), xReg (rs2 word)]

def iNames : List (BitVec 3 × Str) :=
  [(0#3, "addi".toList), (2#3, "slti".toList), (3#3, "sltiu".toList), (4#3, "xori".toList),
    (6#3, "ori".toList), (7#3, "andi".toList)]

def shiftName (f3 : BitVec 3) (left right arith : Str) (alt : Bool) : Str :=
  if f3 = 1#3 then left else if alt then arith else right

def disasmI (xlen : ℕ) : Str :=
  if f3 word = 1#3 ∨ f3 word = 5#3 then
    if 64 ≤ xlen then
      line (shiftName (f3 word) "slli".toList "srli".toList "srai".toList
          (word.extractLsb' 26 6 == 0b010000#6))
        [xReg (rd word), xReg (rs1 word), dec (word.extractLsb' 20 6).toNat]
    else
      line (shiftName (f3 word) "slli".toList "srli".toList "srai".toList (f7 word == funct7Alt))
        [xReg (rd word), xReg (rs1 word), dec (rs2 word).toNat]
  else
    line ((iNames.lookup (f3 word)).getD "i-type?".toList)
      [xReg (rd word), xReg (rs1 word), decInt (imm12 word).toInt]

def muldivWNames : List (BitVec 3 × Str) :=
  [(0#3, "mulw".toList), (4#3, "divw".toList), (5#3, "divuw".toList), (6#3, "remw".toList),
    (7#3, "remuw".toList)]

def rWNames : List ((BitVec 7 × BitVec 3) × Str) :=
  [((funct7Base, 0#3), "addw".toList), ((funct7Alt, 0#3), "subw".toList),
    ((funct7Base, 1#3), "sllw".toList), ((funct7Base, 5#3), "srlw".toList),
    ((funct7Alt, 5#3), "sraw".toList)]

def rWName (f7 : BitVec 7) (f3 : BitVec 3) : Str :=
  if f7 = funct7Muldiv then (muldivWNames.lookup f3).getD "op32muldiv?".toList
  else (rWNames.lookup (f7, f3)).getD (unknownR "op32".toList f7 f3)

def disasmOp32 : Str :=
  line (rWName (f7 word) (f3 word)) [xReg (rd word), xReg (rs1 word), xReg (rs2 word)]

def disasmOpImm32 : Str :=
  if f3 word = 1#3 ∨ f3 word = 5#3 then
    line (shiftName (f3 word) "slliw".toList "srliw".toList "sraiw".toList (f7 word == funct7Alt))
      [xReg (rd word), xReg (rs1 word), dec (rs2 word).toNat]
  else
    line (if f3 word = 0#3 then "addiw".toList else "opimm32?".toList)
      [xReg (rd word), xReg (rs1 word), decInt (imm12 word).toInt]

def loadNames : List (BitVec 3 × Str) :=
  [(0#3, "lb".toList), (1#3, "lh".toList), (2#3, "lw".toList), (3#3, "ld".toList),
    (4#3, "lbu".toList), (5#3, "lhu".toList), (6#3, "lwu".toList)]

def storeNames : List (BitVec 3 × Str) :=
  [(0#3, "sb".toList), (1#3, "sh".toList), (2#3, "sw".toList), (3#3, "sd".toList)]

def branchNames : List (BitVec 3 × Str) :=
  [(0#3, "beq".toList), (1#3, "bne".toList), (2#3, "ble".toList), (3#3, "bgt".toList),
    (4#3, "blt".toList), (5#3, "bge".toList), (6#3, "bltu".toList), (7#3, "bgeu".toList)]

def systemNames : List (BitVec 12 × Str) :=
  [(0x000#12, "ecall".toList), (0x001#12, "ebreak".toList), (0x302#12, "mret".toList)]

def csrOpNames : List (BitVec 3 × Str) :=
  [(0b001#3, "csrrw".toList), (0b010#3, "csrrs".toList), (0b011#3, "csrrc".toList),
    (0b101#3, "csrrwi".toList), (0b110#3, "csrrsi".toList), (0b111#3, "csrrci".toList)]

def disasmSystem : Str :=
  if f3 word = 0#3 then
    (systemNames.lookup (imm12 word)).getD
      ("system?(imm12=0x".toList ++ hex 1 (imm12 word).toNat ++ [')'])
  else
    line ((csrOpNames.lookup (f3 word)).getD "csr?".toList)
      [xReg (rd word), csrName (imm12 word),
        if (f3 word).getLsbD 2 then dec (rs1 word).toNat else xReg (rs1 word)]

def fpArithNames : List (BitVec 5 × Str) :=
  [(0b00000#5, "fadd.s".toList), (0b00001#5, "fsub.s".toList), (0b00010#5, "fmul.s".toList),
    (0b00011#5, "fdiv.s".toList)]

def sgnjNames : List (BitVec 3 × Str) :=
  [(0b000#3, "fsgnj.s".toList), (0b001#3, "fsgnjn.s".toList), (0b010#3, "fsgnjx.s".toList)]

def minmaxNames : List (BitVec 3 × Str) :=
  [(0b000#3, "fmin.s".toList), (0b001#3, "fmax.s".toList)]

def cmpNames : List (BitVec 3 × Str) :=
  [(0b000#3, "fle.s".toList), (0b001#3, "flt.s".toList), (0b010#3, "feq.s".toList)]

attribute [local instance] Py.decideMem in
def disasmFp : Str :=
  if rs3 word ∈ [0b00000#5, 0b00001#5, 0b00010#5, 0b00011#5] then
    line ((fpArithNames.lookup (rs3 word)).getD [])
      [fReg (rd word), fReg (rs1 word), fReg (rs2 word), rmName (f3 word)]
  else if rs3 word = 0b01011#5 then
    line "fsqrt.s".toList [fReg (rd word), fReg (rs1 word), rmName (f3 word)]
  else if rs3 word = 0b00100#5 then
    line ((sgnjNames.lookup (f3 word)).getD "fsgnj?".toList)
      [fReg (rd word), fReg (rs1 word), fReg (rs2 word)]
  else if rs3 word = 0b00101#5 then
    line ((minmaxNames.lookup (f3 word)).getD "fminmax?".toList)
      [fReg (rd word), fReg (rs1 word), fReg (rs2 word)]
  else if rs3 word = 0b10100#5 then
    line ((cmpNames.lookup (f3 word)).getD "fcmp?".toList)
      [xReg (rd word), fReg (rs1 word), fReg (rs2 word)]
  else if rs3 word = 0b11000#5 then
    line (if rs2 word = 1#5 then "fcvt.wu.s".toList else "fcvt.w.s".toList)
      [xReg (rd word), fReg (rs1 word), rmName (f3 word)]
  else if rs3 word = 0b11010#5 then
    line (if rs2 word = 1#5 then "fcvt.s.wu".toList else "fcvt.s.w".toList)
      [fReg (rd word), xReg (rs1 word), rmName (f3 word)]
  else if rs3 word = 0b11100#5 then
    line (if f3 word = 1#3 then "fclass.s".toList else "fmv.x.w".toList)
      [xReg (rd word), fReg (rs1 word)]
  else if rs3 word = 0b11110#5 then line "fmv.w.x".toList [fReg (rd word), xReg (rs1 word)]
  else "op-fp?(funct5=0b".toList ++ bin 5 (rs3 word).toNat ++ [')']

/-- The tests on the opcode, in the order of the source. -/
def disasmOpcode (xlen : ℕ) : Str :=
  if op word = opcodeR then disasmR word
  else if op word = opcodeI then disasmI word xlen
  else if op word = opcodeOp32 then disasmOp32 word
  else if op word = opcodeOpImm32 then disasmOpImm32 word
  else if op word = opcodeLoad then
    line ((loadNames.lookup (f3 word)).getD "load?".toList)
      [xReg (rd word), memOp (imm12 word).toInt (rs1 word)]
  else if op word = opcodeStore then
    line ((storeNames.lookup (f3 word)).getD "store?".toList)
      [xReg (rs2 word), memOp (immS word).toInt (rs1 word)]
  else if op word = opcodeBranch then
    line ((branchNames.lookup (f3 word)).getD "branch?".toList)
      [xReg (rs1 word), xReg (rs2 word), decSigned (branchOff word).toInt]
  else if op word = opcodeJal then
    line "jal".toList [xReg (rd word), decSigned (jalOff word).toInt]
  else if op word = opcodeJalr then
    line "jalr".toList [xReg (rd word), memOp (imm12 word).toInt (rs1 word)]
  else if op word = opcodeLui then
    line "lui".toList [xReg (rd word), '0' :: 'x' :: hex 1 (word.extractLsb' 12 20).toNat]
  else if op word = opcodeAuipc then
    line "auipc".toList [xReg (rd word), '0' :: 'x' :: hex 1 (word.extractLsb' 12 20).toNat]
  else if op word = opcodeCustom then line "ctz".toList [xReg (rd word), xReg (rs1 word)]
  else if op word = opcodeSystem then disasmSystem word
  else if op word = opcodeLoadFp then
    line "flw".toList [fReg (rd word), memOp (imm12 word).toInt (rs1 word)]
  else if op word = opcodeStoreFp then
    line "fsw".toList [fReg (rs2 word), memOp (immS word).toInt (rs1 word)]
  else match maddNames.lookup (op word) with
    | some mn =>
      line mn [fReg (rd word), fReg (rs1 word), fReg (rs2 word), fReg (rs3 word),
        rmName (f3 word)]
    | none =>
      if op word = opcodeFp then disasmFp word
      else '0' :: 'x' :: (hex 8 word.toNat ++ ['?'])

def disasm (xlen : ℕ) : Str :=
  if word = 0x00000013#32 then "nop".toList
  else if word = 0 then "—".toList
  else disasmOpcode word xlen

end Fields

end RvPipeline.Tools.Disasm
