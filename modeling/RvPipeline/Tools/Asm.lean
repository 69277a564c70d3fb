import RvPipeline.Lib.PyText

/-!
# The assembler

`asm.py`: its tables, its encoders and its two passes.  A field of an encoding has the type of its
width, so the shifts and ors of the source are concatenations here.
-/

namespace RvPipeline.Tools

open Py

/-! ## Tables -/

abbrev opR : BitVec 7 := 0b0110011#7
abbrev opI : BitVec 7 := 0b0010011#7
abbrev opLoad : BitVec 7 := 0b0000011#7
abbrev opStore : BitVec 7 := 0b0100011#7
abbrev opBranch : BitVec 7 := 0b1100011#7
abbrev opJal : BitVec 7 := 0b1101111#7
abbrev opJalr : BitVec 7 := 0b1100111#7
abbrev opLui : BitVec 7 := 0b0110111#7
abbrev opAuipc : BitVec 7 := 0b0010111#7
abbrev opCustom : BitVec 7 := 0b0101010#7
abbrev opSystem : BitVec 7 := 0b1110011#7
abbrev opMiscMem : BitVec 7 := 0b0001111#7
abbrev op32 : BitVec 7 := 0b0111011#7
abbrev opImm32 : BitVec 7 := 0b0011011#7
abbrev opFp : BitVec 7 := 0b1010011#7
abbrev opLoadFp : BitVec 7 := 0b0000111#7
abbrev opStoreFp : BitVec 7 := 0b0100111#7
abbrev opMadd : BitVec 7 := 0b1000011#7
abbrev opMsub : BitVec 7 := 0b1000111#7
abbrev opNmsub : BitVec 7 := 0b1001011#7
abbrev opNmadd : BitVec 7 := 0b1001111#7

abbrev funct7Base : BitVec 7 := 0b0000000#7
abbrev funct7Alt : BitVec 7 := 0b0100000#7
abbrev funct7Muldiv : BitVec 7 := 0b0000001#7
abbrev funct7SfenceVma : BitVec 7 := 0b0001001#7

abbrev funct5Fadd : BitVec 5 := 0b00000#5
abbrev funct5Fsub : BitVec 5 := 0b00001#5
abbrev funct5Fmul : BitVec 5 := 0b00010#5
abbrev funct5Fdiv : BitVec 5 := 0b00011#5
abbrev funct5Fsqrt : BitVec 5 := 0b01011#5
abbrev funct5Fsgnj : BitVec 5 := 0b00100#5
abbrev funct5Fminmax : BitVec 5 := 0b00101#5
abbrev funct5Fcmp : BitVec 5 := 0b10100#5
abbrev funct5FcvtWS : BitVec 5 := 0b11000#5
abbrev funct5FcvtSW : BitVec 5 := 0b11010#5
abbrev funct5FmvXWFclass : BitVec 5 := 0b11100#5
abbrev funct5FmvWX : BitVec 5 := 0b11110#5

def csrAddr : List (Str × ℤ) :=
  [("mstatus".toList, 0x300), ("mie".toList, 0x304), ("mtvec".toList, 0x305),
    ("mscratch".toList, 0x340), ("mepc".toList, 0x341), ("mcause".toList, 0x342),
    ("mip".toList, 0x344)]

def rmNames : List (Str × BitVec 3) :=
  [("rne".toList, 0b000#3), ("rtz".toList, 0b001#3), ("rdn".toList, 0b010#3),
    ("rup".toList, 0b011#3), ("rmm".toList, 0b100#3), ("dyn".toList, 0b111#3)]

def rTypeTable : List (Str × BitVec 7 × BitVec 3) :=
  [("add".toList, funct7Base, 0b000#3), ("sub".toList, funct7Alt, 0b000#3),
    ("sll".toList, funct7Base, 0b001#3), ("slt".toList, funct7Base, 0b010#3),
    ("sltu".toList, funct7Base, 0b011#3), ("xor".toList, funct7Base, 0b100#3),
    ("srl".toList, funct7Base, 0b101#3), ("sra".toList, funct7Alt, 0b101#3),
    ("or".toList, funct7Base, 0b110#3), ("and".toList, funct7Base, 0b111#3),
    ("mul".toList, funct7Muldiv, 0b000#3), ("mulh".toList, funct7Muldiv, 0b001#3),
    ("mulhsu".toList, funct7Muldiv, 0b010#3), ("mulhu".toList, funct7Muldiv, 0b011#3),
    ("div".toList, funct7Muldiv, 0b100#3), ("divu".toList, funct7Muldiv, 0b101#3),
    ("rem".toList, funct7Muldiv, 0b110#3), ("remu".toList, funct7Muldiv, 0b111#3)]

def iTypeTable : List (Str × BitVec 3) :=
  [("addi".toList, 0b000#3), ("slli".toList, 0b001#3), ("slti".toList, 0b010#3),
    ("sltiu".toList, 0b011#3), ("xori".toList, 0b100#3), ("srli".toList, 0b101#3),
    ("srai".toList, 0b101#3), ("ori".toList, 0b110#3), ("andi".toList, 0b111#3)]

def branchTable : List (Str × BitVec 3) :=
  [("beq".toList, 0b000#3), ("bne".toList, 0b001#3), ("blt".toList, 0b100#3),
    ("bge".toList, 0b101#3), ("ble".toList, 0b010#3), ("bgt".toList, 0b011#3),
    ("bltu".toList, 0b110#3), ("bgeu".toList, 0b111#3)]

def loadTable : List (Str × BitVec 3) :=
  [("lb".toList, 0b000#3), ("lh".toList, 0b001#3), ("lw".toList, 0b010#3),
    ("lbu".toList, 0b100#3), ("lhu".toList, 0b101#3), ("ld".toList, 0b011#3),
    ("lwu".toList, 0b110#3)]

def storeTable : List (Str × BitVec 3) :=
  [("sb".toList, 0b000#3), ("sh".toList, 0b001#3), ("sw".toList, 0b010#3), ("sd".toList, 0b011#3)]

def rTypeWTable : List (Str × BitVec 7 × BitVec 3) :=
  [("addw".toList, funct7Base, 0b000#3), ("subw".toList, funct7Alt, 0b000#3),
    ("sllw".toList, funct7Base, 0b001#3), ("srlw".toList, funct7Base, 0b101#3),
    ("sraw".toList, funct7Alt, 0b101#3), ("mulw".toList, funct7Muldiv, 0b000#3),
    ("divw".toList, funct7Muldiv, 0b100#3), ("divuw".toList, funct7Muldiv, 0b101#3),
    ("remw".toList, funct7Muldiv, 0b110#3), ("remuw".toList, funct7Muldiv, 0b111#3)]

def iTypeWTable : List (Str × BitVec 3) :=
  [("addiw".toList, 0b000#3), ("slliw".toList, 0b001#3), ("srliw".toList, 0b101#3),
    ("sraiw".toList, 0b101#3)]

def csrRegTable : List (Str × BitVec 3) :=
  [("csrrw".toList, 0b001#3), ("csrrs".toList, 0b010#3), ("csrrc".toList, 0b011#3)]

def csrImmTable : List (Str × BitVec 3) :=
  [("csrrwi".toList, 0b101#3), ("csrrsi".toList, 0b110#3), ("csrrci".toList, 0b111#3)]

def systemImm12 : List (Str × BitVec 12) :=
  [("ecall".toList, 0x000#12), ("ebreak".toList, 0x001#12), ("mret".toList, 0x302#12),
    ("sret".toList, 0x102#12)]

def fpArithTable : List (Str × BitVec 5) :=
  [("fadd.s".toList, funct5Fadd), ("fsub.s".toList, funct5Fsub), ("fmul.s".toList, funct5Fmul),
    ("fdiv.s".toList, funct5Fdiv)]

def fpSgnjTable : List (Str × BitVec 3) :=
  [("fsgnj.s".toList, 0b000#3), ("fsgnjn.s".toList, 0b001#3), ("fsgnjx.s".toList, 0b010#3)]

def fpMinmaxTable : List (Str × BitVec 3) :=
  [("fmin.s".toList, 0b000#3), ("fmax.s".toList, 0b001#3)]

def fpCmpTable : List (Str × BitVec 3) :=
  [("fle.s".toList, 0b000#3), ("flt.s".toList, 0b001#3), ("feq.s".toList, 0b010#3)]

def maddOpcodes : List (Str × BitVec 7) :=
  [("fmadd.s".toList, opMadd), ("fmsub.s".toList, opMsub), ("fnmsub.s".toList, opNmsub),
    ("fnmadd.s".toList, opNmadd)]

/-! ## Errors -/

/-- The exceptions a line can raise: the `ValueError`s of the module and of `int`, an operand that
is not there (`IndexError`), a memory operand that does not match (`AttributeError`). -/
inductive AsmError where
  | expectedRegister (tok : Str)
  | registerOutOfRange (tok : Str)
  | expectedFloatRegister (tok : Str)
  | floatRegisterOutOfRange (tok : Str)
  | notAnInteger (tok : Str)
  | immediateOutOfRange (v lo hi : ℤ)
  | oddBranchOffset
  | oddJalOffset
  | unknownRoundingMode (name : Str)
  | missingOperand
  | badMemoryOperand (tok : Str)
  | unknownMnemonic (mn line : Str)
  deriving DecidableEq, Repr

section Operands

variable (U : Unicode)

/-- `^x(\d+)$` with the letter of the register file, and the number it captures. -/
def regMatch (letter : Char) (tok : Str) : Option ℕ :=
  match strip U tok with
  | [] => none
  | c :: ds =>
    if c = letter ∧ ds ≠ [] ∧ ds.all (fun d ↦ (U.decimal d).isSome) = true then intDecimal U ds
    else none

def reg (tok : Str) : Except AsmError (BitVec 5) :=
  match regMatch U 'x' tok with
  | none => .error (.expectedRegister tok)
  | some n => if n ≤ 31 then .ok (BitVec.ofNat 5 n) else .error (.registerOutOfRange tok)

def freg (tok : Str) : Except AsmError (BitVec 5) :=
  match regMatch U 'f' tok with
  | none => .error (.expectedFloatRegister tok)
  | some n => if n ≤ 31 then .ok (BitVec.ofNat 5 n) else .error (.floatRegisterOutOfRange tok)

def pyInt (tok : Str) : Except AsmError ℤ :=
  match int0 U tok with
  | some v => .ok v
  | none => .error (.notAnInteger tok)

/-- `imm` of an integer. -/
def immOf (v : ℤ) (bits : ℕ) (signed : Bool) : Except AsmError (BitVec bits) :=
  let lo : ℤ := if signed then -2 ^ (bits - 1) else 0
  let hi : ℤ := if signed then 2 ^ (bits - 1) - 1 else 2 ^ bits - 1
  if lo ≤ v ∧ v ≤ hi then .ok (BitVec.ofInt bits v) else .error (.immediateOutOfRange v lo hi)

/-- `imm` of a token. -/
def imm (tok : Str) (bits : ℕ) (signed : Bool) : Except AsmError (BitVec bits) := do
  immOf (← pyInt U tok) bits signed

def arg (args : List Str) (n : ℕ) : Except AsmError Str :=
  match args[n]? with
  | some a => .ok a
  | none => .error .missingOperand

/-- `(-?\w+)\((x\d+)\)`, anchored at the start only: the offset and the register. -/
def memMatch (tok : Str) : Option (Str × Str) :=
  let sign : Str := if tok.head? = some '-' then ['-'] else []
  let rest := if tok.head? = some '-' then tok.tail else tok
  let off := rest.takeWhile U.isWord
  match rest.dropWhile U.isWord with
  | '(' :: 'x' :: tail =>
    let ds := tail.takeWhile fun d ↦ (U.decimal d).isSome
    let close := (tail.dropWhile fun d ↦ (U.decimal d).isSome).head?
    if off ≠ [] ∧ ds ≠ [] ∧ close = some ')' then some (sign ++ off, 'x' :: ds) else none
  | _ => none

def memOperand (tok : Str) : Except AsmError (Str × Str) :=
  match memMatch U tok with
  | some m => .ok m
  | none => .error (.badMemoryOperand tok)

/-- An empty operand, as a trailing comma leaves it, is the default too. -/
def parseRm (args : List Str) (idx : ℕ) : Except AsmError (BitVec 3) :=
  match args[idx]? with
  | none => .ok 0b111#3
  | some a =>
    if strip U a = [] then .ok 0b111#3
    else match rmNames.lookup (U.lower (strip U a)) with
      | some rm => .ok rm
      | none => .error (.unknownRoundingMode (U.lower (strip U a)))

def csrLookup (csr : Str) : Except AsmError ℤ :=
  match csrAddr.lookup csr with
  | some a => .ok a
  | none => pyInt U csr

def resolve (labels : List (Str × ℕ)) (curAddr : ℕ) (tok : Str) : Except AsmError ℤ :=
  match labels.lookup (strip U tok) with
  | some a => .ok ((a : ℤ) - curAddr)
  | none => pyInt U tok

end Operands

/-! ## Encoders -/

def rWord (op f7 : BitVec 7) (f3 : BitVec 3) (rd rs1 rs2 : BitVec 5) : BitVec 32 :=
  f7 ++ rs2 ++ rs1 ++ f3 ++ rd ++ op

def iWord (op : BitVec 7) (imm12 : BitVec 12) (f3 : BitVec 3) (rd rs1 : BitVec 5) : BitVec 32 :=
  imm12 ++ rs1 ++ f3 ++ rd ++ op

def sWord (op : BitVec 7) (imm12 : BitVec 12) (f3 : BitVec 3) (rs1 rs2 : BitVec 5) : BitVec 32 :=
  imm12.extractLsb' 5 7 ++ rs2 ++ rs1 ++ f3 ++ imm12.extractLsb' 0 5 ++ op

def uWord (op : BitVec 7) (imm20 : BitVec 20) (rd : BitVec 5) : BitVec 32 := imm20 ++ rd ++ op

/-- `imm12` of a shift: `funct6` and six bits from `XLEN` 64 on, `funct7` and five before. -/
def shiftImm (U : Unicode) (xlen : ℕ) (alt : Bool) (tok : Str) : Except AsmError (BitVec 12) :=
  if 64 ≤ xlen then do
    let shamt ← imm U tok 6 false
    return (if alt then 0b010000#6 else 0b000000#6) ++ shamt
  else do
    let shamt ← imm U tok 5 false
    return (if alt then funct7Alt else funct7Base) ++ shamt

def iType (U : Unicode) (xlen : ℕ) (f3 : BitVec 3) (shift : Option Bool) (rd rs1 : BitVec 5)
    (tok : Str) : Except AsmError (BitVec 32) := do
  let imm12 ← match shift with
    | some alt => shiftImm U xlen alt tok
    | none => imm U tok 12 true
  return iWord opI imm12 f3 rd rs1

/-- The shift amount of the word forms has five bits at every `XLEN`. -/
def iTypeW (U : Unicode) (f3 : BitVec 3) (shift : Option Bool) (rd rs1 : BitVec 5) (tok : Str) :
    Except AsmError (BitVec 32) := do
  let imm12 ← match shift with
    | some alt => shiftImm U 32 alt tok
    | none => imm U tok 12 true
  return iWord opImm32 imm12 f3 rd rs1

def branchWord (v : BitVec 13) (f3 : BitVec 3) (rs1 rs2 : BitVec 5) : BitVec 32 :=
  v.extractLsb' 12 1 ++ v.extractLsb' 5 6 ++ rs2 ++ rs1 ++ f3 ++ v.extractLsb' 1 4 ++
    v.extractLsb' 11 1 ++ opBranch

def branch (f3 : BitVec 3) (rs1 rs2 : BitVec 5) (offsetBytes : ℤ) : Except AsmError (BitVec 32) := do
  let v ← immOf offsetBytes 13 true
  if v.getLsbD 0 then .error .oddBranchOffset else return branchWord v f3 rs1 rs2

def jalWord (v : BitVec 21) (rd : BitVec 5) : BitVec 32 :=
  v.extractLsb' 20 1 ++ v.extractLsb' 1 10 ++ v.extractLsb' 11 1 ++ v.extractLsb' 12 8 ++ rd ++
    opJal

def jal (rd : BitVec 5) (offsetBytes : ℤ) : Except AsmError (BitVec 32) := do
  let v ← immOf offsetBytes 21 true
  if v.getLsbD 0 then .error .oddJalOffset else return jalWord v rd

def ctz (rd rs1 : BitVec 5) : BitVec 32 := rWord opCustom funct7Alt 0b111#3 rd rs1 0

/-- The float formats leave two zero bits below `funct5` or `rs3`. -/
def fpWord (op : BitVec 7) (top : BitVec 5) (f3 : BitVec 3) (rd rs1 rs2 : BitVec 5) : BitVec 32 :=
  rWord op (top ++ 0#2) f3 rd rs1 rs2

def nopWord : BitVec 32 := iWord opI 0 0 0 0

def systemNoarg (imm12 : BitVec 12) : BitVec 32 := iWord opSystem imm12 0 0 0

def sfenceVma (rs1 rs2 : BitVec 5) : BitVec 32 := rWord opSystem funct7SfenceVma 0 0 rs1 rs2

def fence : BitVec 32 := iWord opMiscMem 0b000011111111#12 0 0 0

/-! ## Statements -/

/-- The branches of `assemble`, with what the table of the branch gives. -/
inductive Form where
  | nop
  | rType (f7 : BitVec 7) (f3 : BitVec 3)
  | ctz
  | iType (f3 : BitVec 3) (shift : Option Bool)
  | rTypeW (f7 : BitVec 7) (f3 : BitVec 3)
  | iTypeW (f3 : BitVec 3) (shift : Option Bool)
  | load (f3 : BitVec 3)
  | store (f3 : BitVec 3)
  | branch (f3 : BitVec 3)
  | jal
  | jalr
  | lui
  | auipc
  | csrReg (f3 : BitVec 3)
  | csrImm (f3 : BitVec 3)
  | system (imm12 : BitVec 12)
  | sfenceVma
  | fence
  | word
  | flw
  | fsw
  | fpArith (funct5 : BitVec 5)
  | fsqrt
  | fpSgnj (f3 : BitVec 3)
  | fpMinmax (f3 : BitVec 3)
  | fpCmp (f3 : BitVec 3)
  | fcvtWS (unsigned : Bool)
  | fcvtSW (unsigned : Bool)
  | fmvXW
  | fclass
  | fmvWX
  | madd (opcode : BitVec 7)
  deriving DecidableEq, Repr

/-- The immediate shifts of a table, and whether they are the arithmetic one. -/
def shiftKind (mn : Str) : Option Bool :=
  if mn ∈ ["slli".toList, "srli".toList, "slliw".toList, "srliw".toList] then some false
  else if mn ∈ ["srai".toList, "sraiw".toList] then some true
  else none

/-- The mnemonics in the order `assemble` tests them. -/
def forms : List (Str × Form) :=
  [("nop".toList, Form.nop)] ++
  rTypeTable.map (fun e ↦ (e.1, Form.rType e.2.1 e.2.2)) ++
  [("ctz".toList, Form.ctz)] ++
  iTypeTable.map (fun e ↦ (e.1, Form.iType e.2 (shiftKind e.1))) ++
  rTypeWTable.map (fun e ↦ (e.1, Form.rTypeW e.2.1 e.2.2)) ++
  iTypeWTable.map (fun e ↦ (e.1, Form.iTypeW e.2 (shiftKind e.1))) ++
  loadTable.map (fun e ↦ (e.1, Form.load e.2)) ++
  storeTable.map (fun e ↦ (e.1, Form.store e.2)) ++
  branchTable.map (fun e ↦ (e.1, Form.branch e.2)) ++
  [("jal".toList, Form.jal), ("jalr".toList, Form.jalr), ("lui".toList, Form.lui),
    ("auipc".toList, Form.auipc)] ++
  csrRegTable.map (fun e ↦ (e.1, Form.csrReg e.2)) ++
  csrImmTable.map (fun e ↦ (e.1, Form.csrImm e.2)) ++
  systemImm12.map (fun e ↦ (e.1, Form.system e.2)) ++
  [("sfence.vma".toList, Form.sfenceVma), ("fence".toList, Form.fence), ("word".toList, Form.word),
    ("flw".toList, Form.flw), ("fsw".toList, Form.fsw)] ++
  fpArithTable.map (fun e ↦ (e.1, Form.fpArith e.2)) ++
  [("fsqrt.s".toList, Form.fsqrt)] ++
  fpSgnjTable.map (fun e ↦ (e.1, Form.fpSgnj e.2)) ++
  fpMinmaxTable.map (fun e ↦ (e.1, Form.fpMinmax e.2)) ++
  fpCmpTable.map (fun e ↦ (e.1, Form.fpCmp e.2)) ++
  [("fcvt.w.s".toList, Form.fcvtWS false), ("fcvt.wu.s".toList, Form.fcvtWS true),
    ("fcvt.s.w".toList, Form.fcvtSW false), ("fcvt.s.wu".toList, Form.fcvtSW true),
    ("fmv.x.w".toList, Form.fmvXW), ("fclass.s".toList, Form.fclass), ("fmv.w.x".toList, Form.fmvWX)] ++
  maddOpcodes.map (fun e ↦ (e.1, Form.madd e.2))

section Statements

variable (U : Unicode) (xlen : ℕ) (labels : List (Str × ℕ)) (curAddr : ℕ)

/-- A register and a memory operand. -/
def regMem (first : Str → Except AsmError (BitVec 5)) (args : List Str) :
    Except AsmError (BitVec 5 × BitVec 5 × BitVec 12) := do
  let r ← first (← arg args 0)
  let m ← memOperand U (← arg args 1)
  let rs1 ← reg U m.2
  let imm12 ← imm U m.1 12 true
  return (r, rs1, imm12)

def optReg (args : List Str) (n : ℕ) : Except AsmError (BitVec 5) :=
  match args[n]? with
  | some a => reg U a
  | none => .ok 0

def encode : Form → List Str → Except AsmError (BitVec 32)
  | .nop, _ => .ok nopWord
  | .rType f7 f3, args => do
    let rd ← reg U (← arg args 0)
    let rs1 ← reg U (← arg args 1)
    let rs2 ← reg U (← arg args 2)
    return rWord opR f7 f3 rd rs1 rs2
  | .ctz, args => do
    let rd ← reg U (← arg args 0)
    let rs1 ← reg U (← arg args 1)
    return ctz rd rs1
  | .iType f3 shift, args => do
    let rd ← reg U (← arg args 0)
    let rs1 ← reg U (← arg args 1)
    iType U xlen f3 shift rd rs1 (← arg args 2)
  | .rTypeW f7 f3, args => do
    let rd ← reg U (← arg args 0)
    let rs1 ← reg U (← arg args 1)
    let rs2 ← reg U (← arg args 2)
    return rWord op32 f7 f3 rd rs1 rs2
  | .iTypeW f3 shift, args => do
    let rd ← reg U (← arg args 0)
    let rs1 ← reg U (← arg args 1)
    iTypeW U f3 shift rd rs1 (← arg args 2)
  | .load f3, args => do
    let m ← regMem U (reg U) args
    return iWord opLoad m.2.2 f3 m.1 m.2.1
  | .store f3, args => do
    let m ← regMem U (reg U) args
    return sWord opStore m.2.2 f3 m.2.1 m.1
  | .branch f3, args => do
    let rs1 ← reg U (← arg args 0)
    let rs2 ← reg U (← arg args 1)
    branch f3 rs1 rs2 (← resolve U labels curAddr (← arg args 2))
  | .jal, args => do
    let rd ← reg U (← arg args 0)
    jal rd (← resolve U labels curAddr (← arg args 1))
  | .jalr, args => do
    let m ← regMem U (reg U) args
    return iWord opJalr m.2.2 0 m.1 m.2.1
  | .lui, args => do
    let rd ← reg U (← arg args 0)
    return uWord opLui (← imm U (← arg args 1) 20 false) rd
  | .auipc, args => do
    let rd ← reg U (← arg args 0)
    return uWord opAuipc (← imm U (← arg args 1) 20 false) rd
  | .csrReg f3, args => do
    let rd ← reg U (← arg args 0)
    let csr ← arg args 1
    let rs1 ← reg U (← arg args 2)
    return iWord opSystem (BitVec.ofInt 12 (← csrLookup U csr)) f3 rd rs1
  | .csrImm f3, args => do
    let rd ← reg U (← arg args 0)
    let csr ← arg args 1
    let uimm ← arg args 2
    let addr ← csrLookup U csr
    return iWord opSystem (BitVec.ofInt 12 addr) f3 rd (← imm U uimm 5 false)
  | .system imm12, _ => .ok (systemNoarg imm12)
  | .sfenceVma, args => do
    let rs1 ← optReg U args 0
    let rs2 ← optReg U args 1
    return sfenceVma rs1 rs2
  | .fence, _ => .ok fence
  | .word, args => do
    return BitVec.ofInt 32 (← pyInt U (← arg args 0))
  | .flw, args => do
    let m ← regMem U (freg U) args
    return iWord opLoadFp m.2.2 0b010#3 m.1 m.2.1
  | .fsw, args => do
    let m ← regMem U (freg U) args
    return sWord opStoreFp m.2.2 0b010#3 m.2.1 m.1
  | .fpArith funct5, args => do
    let rd ← freg U (← arg args 0)
    let rs1 ← freg U (← arg args 1)
    let rs2 ← freg U (← arg args 2)
    return fpWord opFp funct5 (← parseRm U args 3) rd rs1 rs2
  | .fsqrt, args => do
    let rd ← freg U (← arg args 0)
    let rs1 ← freg U (← arg args 1)
    return fpWord opFp funct5Fsqrt (← parseRm U args 2) rd rs1 0
  | .fpSgnj f3, args => do
    let rd ← freg U (← arg args 0)
    let rs1 ← freg U (← arg args 1)
    let rs2 ← freg U (← arg args 2)
    return fpWord opFp funct5Fsgnj f3 rd rs1 rs2
  | .fpMinmax f3, args => do
    let rd ← freg U (← arg args 0)
    let rs1 ← freg U (← arg args 1)
    let rs2 ← freg U (← arg args 2)
    return fpWord opFp funct5Fminmax f3 rd rs1 rs2
  | .fpCmp f3, args => do
    let rd ← reg U (← arg args 0)
    let rs1 ← freg U (← arg args 1)
    let rs2 ← freg U (← arg args 2)
    return fpWord opFp funct5Fcmp f3 rd rs1 rs2
  | .fcvtWS unsigned, args => do
    let rd ← reg U (← arg args 0)
    let rs1 ← freg U (← arg args 1)
    return fpWord opFp funct5FcvtWS (← parseRm U args 2) rd rs1 (if unsigned then 1 else 0)
  | .fcvtSW unsigned, args => do
    let rd ← freg U (← arg args 0)
    let rs1 ← reg U (← arg args 1)
    return fpWord opFp funct5FcvtSW (← parseRm U args 2) rd rs1 (if unsigned then 1 else 0)
  | .fmvXW, args => do
    let rd ← reg U (← arg args 0)
    let rs1 ← freg U (← arg args 1)
    return fpWord opFp funct5FmvXWFclass 0 rd rs1 0
  | .fclass, args => do
    let rd ← reg U (← arg args 0)
    let rs1 ← freg U (← arg args 1)
    return fpWord opFp funct5FmvXWFclass 1 rd rs1 0
  | .fmvWX, args => do
    let rd ← freg U (← arg args 0)
    let rs1 ← reg U (← arg args 1)
    return fpWord opFp funct5FmvWX 0 rd rs1 0
  | .madd opcode, args => do
    let rd ← freg U (← arg args 0)
    let rs1 ← freg U (← arg args 1)
    let rs2 ← freg U (← arg args 2)
    let rs3 ← freg U (← arg args 3)
    return fpWord opcode rs3 (← parseRm U args 4) rd rs1 rs2

/-- `re.split(r"[,\s]+", line.strip())`. -/
def parts (line : Str) : List Str :=
  splitRuns (fun c ↦ c == ',' || U.isSpace c) false (strip U line)

def mnemonic (line : Str) : Str := U.lower ((parts U line).headD [])

def statement (line : Str) : Except AsmError (BitVec 32) :=
  match forms.lookup (mnemonic U line) with
  | some f => encode U xlen labels curAddr f (parts U line).tail
  | none => .error (.unknownMnemonic (mnemonic U line) line)

end Statements

/-! ## The two passes -/

structure Pass1 where
  addr : ℕ := 0
  labels : List (Str × ℕ) := []
  stmts : List (ℕ × Str) := []

/-- One line of pass 1; of two labels with one name the later wins. -/
def Pass1.scan (U : Unicode) (p : Pass1) (raw : Str) : Pass1 :=
  let line := strip U (raw.takeWhile (· ≠ '#'))
  if line = [] then p
  else if line.getLast? = some ':' then
    { p with labels := (strip U line.dropLast, p.addr) :: p.labels }
  else { p with stmts := p.stmts ++ [(p.addr, line)], addr := p.addr + 4 }

def pass1 (U : Unicode) (lines : List Str) : Pass1 := lines.foldl (Pass1.scan U) {}

def assemble (U : Unicode) (xlen : ℕ) (lines : List Str) : Except AsmError (List (BitVec 32)) :=
  (pass1 U lines).stmts.mapM fun e ↦ statement U xlen (pass1 U lines).labels e.1 e.2

end RvPipeline.Tools
