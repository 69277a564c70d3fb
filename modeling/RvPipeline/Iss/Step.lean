import RvPipeline.Iss.Model

/-!
# `ISS.step`

One branch of the dispatch on the opcode at a time: `A` and `B` are the values of the source
registers, and a branch that can raise returns an option.
-/

namespace RvPipeline

namespace IssConfig

variable (C : IssConfig)

def uxlen (v : ℤ) : ℕ := uXlen v C.xlen
def sxlen (v : ℤ) : ℤ := sXlen v C.xlen

/-! ## Arithmetic -/

/-- Division of the absolute values, signed afterwards. -/
def signedQuot (a b : ℤ) : ℤ :=
  let q : ℤ := (a.natAbs / b.natAbs : ℕ)
  if (a < 0) ≠ (b < 0) then -q else q

def signedRem (a b : ℤ) : ℤ :=
  let r : ℤ := (a.natAbs % b.natAbs : ℕ)
  if a < 0 then -r else r

/-- The M extension, on operands of `xlen` bits. -/
def mulDiv (f3 : BitVec 3) (A B : ℕ) : ℕ :=
  if f3 = 0b000#3 then C.uxlen (A * B)
  else if f3 = 0b001#3 then C.uxlen ((C.sxlen A * C.sxlen B) >>> C.xlen)
  else if f3 = 0b010#3 then C.uxlen ((C.sxlen A * C.uxlen B) >>> C.xlen)
  else if f3 = 0b011#3 then (C.uxlen A * C.uxlen B) >>> C.xlen
  else if f3 = 0b100#3 then
    if B = 0 then C.uxlen (-1)
    else if C.sxlen A = -(2 ^ (C.xlen - 1)) ∧ C.sxlen B = -1 then A
    else C.uxlen (signedQuot (C.sxlen A) (C.sxlen B))
  else if f3 = 0b101#3 then if B = 0 then C.uxlen (-1) else C.uxlen A / C.uxlen B
  else if f3 = 0b110#3 then
    if B = 0 then A
    else if C.sxlen A = -(2 ^ (C.xlen - 1)) ∧ C.sxlen B = -1 then 0
    else C.uxlen (signedRem (C.sxlen A) (C.sxlen B))
  else if B = 0 then A else C.uxlen A % C.uxlen B

/-- The loop of the custom `ctz`. -/
def ctz (A : ℕ) : ℕ :=
  ((List.range (C.xlen - 1)).foldl
    (fun p i ↦ if !A.testBit i && !p.2 then (p.1 + 1, p.2) else (p.1, true)) (0, false)).1

/-- R-type. -/
def rtype (f7 : BitVec 7) (f3 : BitVec 3) (A B : ℕ) : Option ℕ :=
  let shamt := B &&& (C.xlen - 1)
  if f7 = funct7Muldiv then some (C.mulDiv f3 A B)
  else if f7 = funct7Alt ∧ f3 = 0b111#3 then some (C.ctz A)
  else if f3 = 0b000#3 ∧ f7 = funct7Base then some (C.uxlen (A + B))
  else if f3 = 0b000#3 ∧ f7 = funct7Alt then some (C.uxlen (A - B))
  else if f3 = 0b001#3 then some (C.uxlen (A <<< shamt : ℕ))
  else if f3 = 0b010#3 then some (if C.sxlen A < C.sxlen B then 1 else 0)
  else if f3 = 0b011#3 then some (if C.uxlen A < C.uxlen B then 1 else 0)
  else if f3 = 0b100#3 then some (C.uxlen (A ^^^ B : ℕ))
  else if f3 = 0b101#3 ∧ f7 = funct7Base then some (C.uxlen A >>> shamt)
  else if f3 = 0b101#3 ∧ f7 = funct7Alt then some (C.uxlen (C.sxlen A >>> shamt))
  else if f3 = 0b110#3 then some (C.uxlen (A ||| B : ℕ))
  else if f3 = 0b111#3 then some (C.uxlen (A &&& B : ℕ))
  else none

/-- OP-32, before the sign extension. -/
def op32 (f7 : BitVec 7) (f3 : BitVec 3) (A B : ℕ) : Option ℕ :=
  let shamt := B &&& 0x1F
  if f7 = funct7Muldiv then
    if f3 = 0b000#3 then some (u32 (A * B))
    else if f3 = 0b100#3 then
      if u32 B = 0 then some 0xFFFFFFFF
      else if s32 A = -2147483648 ∧ s32 B = -1 then some (u32 A)
      else some (u32 (signedQuot (s32 A) (s32 B)))
    else if f3 = 0b101#3 then some (if u32 B = 0 then 0xFFFFFFFF else u32 A / u32 B)
    else if f3 = 0b110#3 then
      if u32 B = 0 then some (u32 A)
      else if s32 A = -2147483648 ∧ s32 B = -1 then some 0
      else some (u32 (signedRem (s32 A) (s32 B)))
    else some (if u32 B = 0 then u32 A else u32 A % u32 B)
  else if f3 = 0b000#3 ∧ f7 = funct7Base then some (u32 (A + B))
  else if f3 = 0b000#3 ∧ f7 = funct7Alt then some (u32 (A - B))
  else if f3 = 0b001#3 then some (u32 (u32 A <<< shamt : ℕ))
  else if f3 = 0b101#3 ∧ f7 = funct7Base then some (u32 A >>> shamt)
  else if f3 = 0b101#3 ∧ f7 = funct7Alt then some (u32 (s32 A >>> shamt))
  else none

/-- The I-type field. -/
def immI (word : BitVec 32) : ℤ := (word.extractLsb' 20 12).toInt

/-- I-type arithmetic; the eight function codes are all there. -/
def itype (word : BitVec 32) (A : ℕ) : ℕ :=
  let f3 := funct3Of word
  let imm := immI word
  if f3 = 0b001#3 ∨ f3 = 0b101#3 then
    let shamt :=
      if 64 ≤ C.xlen then (word.extractLsb' 20 6).toNat else (word.extractLsb' 20 5).toNat
    let isAlt :=
      if 64 ≤ C.xlen then word.extractLsb' 26 6 == funct6Alt else funct7Of word == funct7Alt
    if f3 = 0b001#3 then C.uxlen (A <<< shamt : ℕ)
    else if isAlt then C.uxlen (C.sxlen A >>> shamt)
    else C.uxlen A >>> shamt
  else if f3 = 0b000#3 then C.uxlen (A + imm)
  else if f3 = 0b010#3 then if C.sxlen A < imm then 1 else 0
  else if f3 = 0b011#3 then if C.uxlen A < C.uxlen imm then 1 else 0
  else if f3 = 0b100#3 then C.uxlen (A ^^^ C.uxlen imm : ℕ)
  else if f3 = 0b110#3 then C.uxlen (A ||| C.uxlen imm : ℕ)
  else C.uxlen (A &&& C.uxlen imm : ℕ)

/-- OP-IMM-32, before the sign extension. -/
def opImm32 (word : BitVec 32) (A : ℕ) : Option ℕ :=
  let f3 := funct3Of word
  let shamt := (word.extractLsb' 20 5).toNat
  if f3 = 0b001#3 then some (u32 (u32 A <<< shamt : ℕ))
  else if f3 = 0b101#3 then
    some (if funct7Of word = funct7Alt then u32 (s32 A >>> shamt) else u32 A >>> shamt)
  else if f3 = 0b000#3 then some (u32 (A + immI word))
  else none

/-! ## Control transfer -/

def branchTaken (f3 : BitVec 3) (A B : ℕ) : Bool :=
  if f3 = 0b000#3 then C.sxlen A == C.sxlen B
  else if f3 = 0b001#3 then C.sxlen A != C.sxlen B
  else if f3 = 0b010#3 then decide (C.sxlen A ≤ C.sxlen B)
  else if f3 = 0b011#3 then decide (C.sxlen B < C.sxlen A)
  else if f3 = 0b100#3 then decide (C.sxlen A < C.sxlen B)
  else if f3 = 0b101#3 then decide (C.sxlen B ≤ C.sxlen A)
  else if f3 = 0b110#3 then decide (C.uxlen A < C.uxlen B)
  else decide (C.uxlen B ≤ C.uxlen A)

def branchOffset (word : BitVec 32) : ℤ :=
  (word.extractLsb' 31 1 ++ word.extractLsb' 7 1 ++ word.extractLsb' 25 6 ++
    word.extractLsb' 8 4 ++ 0#1).toInt

def jalOffset (word : BitVec 32) : ℤ :=
  (word.extractLsb' 31 1 ++ word.extractLsb' 12 8 ++ word.extractLsb' 20 1 ++
    word.extractLsb' 21 10 ++ 0#1).toInt

/-- `(A + imm_i) & ~1`. -/
def jalrTarget (word : BitVec 32) (A : ℕ) : ℕ :=
  let t := A + immI word
  C.uxlen (t - t % 2)

/-- The S-type field. -/
def immS (word : BitVec 32) : ℤ := (word.extractLsb' 25 7 ++ word.extractLsb' 7 5).toInt

end IssConfig

namespace Iss

variable (C : IssConfig) (σ : Iss)

def wr (rd : BitVec 5) (val : ℤ) : Iss :=
  if rd ≠ 0 then
    { σ with
      regs := Function.update σ.regs rd (C.uxlen val)
      trace := { σ.trace with x := σ.trace.x ++ [(rd, C.uxlen val)] } }
  else σ

/-- The value a load writes. -/
def loadResult (f3 : BitVec 3) (addr : ℕ) : Option ℤ :=
  if f3 = 0b000#3 then
    let v := σ.loadMem C addr 1
    some (s32 (v ||| if v &&& 0x80 ≠ 0 then 0xFFFFFF00 else 0 : ℕ))
  else if f3 = 0b001#3 then
    let v := σ.loadMem C addr 2
    some (s32 (v ||| if v &&& 0x8000 ≠ 0 then 0xFFFF0000 else 0 : ℕ))
  else if f3 = 0b010#3 then some (s32 (σ.loadMem C addr 4))
  else if f3 = 0b100#3 then some (σ.loadMem C addr 1)
  else if f3 = 0b101#3 then some (σ.loadMem C addr 2)
  else if f3 = 0b011#3 then some (σ.loadMem C addr 8)
  else if f3 = 0b110#3 then some (σ.loadMem C addr 4)
  else none

/-- How many bytes a store writes. -/
def storeBytes (f3 : BitVec 3) : Option ℕ :=
  if f3 = 0b000#3 then some 1
  else if f3 = 0b001#3 then some 2
  else if f3 = 0b010#3 then some 4
  else if f3 = 0b011#3 then some 8
  else none

/-- `new_val` of a CSR instruction. -/
def csrNewVal (f3 : BitVec 3) (old src : ℕ) : ℕ :=
  if f3.extractLsb' 0 2 = 0b01#2 then src
  else if f3.extractLsb' 0 2 = 0b10#2 then old ||| src
  else andNot old src

/-- The SYSTEM opcode. -/
def system (word : BitVec 32) (A : ℕ) : Option Iss :=
  let f3 := funct3Of word
  let csrAddr := csrImm12Of word
  let nextPc := σ.pc + 4
  if f3 = csrF3None then
    if funct7Of word = funct7SfenceVma then
      some (if σ.privMode = privU then σ.trap mcauseIllegalInstruction 0
        else { σ with pc := nextPc })
    else if csrAddr = csrImm12Ecall then
      if σ.privMode = privM then some (σ.trap mcauseEcallFromM 0)
      else if σ.privMode = privS then some (σ.trap mcauseEcallFromS 0)
      else if σ.privMode = privU then some (σ.trap mcauseEcallFromU 0)
      else none
    else if csrAddr = csrImm12Ebreak then some (σ.trap mcauseBreakpoint 0)
    else if csrAddr = csrImm12Mret then
      some (if σ.privMode ≠ privM then σ.trap mcauseIllegalInstruction 0 else σ.mret)
    else if csrAddr = csrImm12Sret then
      some (if σ.privMode = privU then σ.trap mcauseIllegalInstruction 0 else σ.sret)
    else some (σ.trap mcauseIllegalInstruction 0)
  else if σ.privMode < csrAddr.extractLsb' 8 2 then some (σ.trap mcauseIllegalInstruction 0)
  else
    let old := σ.csrRead C csrAddr
    let src := if f3.getLsbD 2 then (rs1Of word).toNat else A
    some { (σ.csrWrite csrAddr (csrNewVal f3 old src)).wr C (rdOf word) old with pc := nextPc }

/-- Executes one instruction word. -/
def step (word : BitVec 32) : Option Iss :=
  if word = 0 then some { σ with pc := σ.pc + 4 }
  else
    let op := opcodeOf word
    let rd := rdOf word
    let f3 := funct3Of word
    let A := σ.regs (rs1Of word)
    let B := σ.regs (rs2Of word)
    let nextPc := σ.pc + 4
    if op = opcodeR then
      (C.rtype (funct7Of word) f3 A B).map fun res ↦ { σ.wr C rd res with pc := nextPc }
    else if op = opcodeOp32 then
      (IssConfig.op32 (funct7Of word) f3 A B).map fun res ↦
        { σ.wr C rd (s32 res) with pc := nextPc }
    else if op = opcodeCustom then some { σ.wr C rd (C.ctz A) with pc := nextPc }
    else if op = opcodeI then some { σ.wr C rd (C.itype word A) with pc := nextPc }
    else if op = opcodeOpImm32 then
      (IssConfig.opImm32 word A).map fun res ↦ { σ.wr C rd (s32 res) with pc := nextPc }
    else if op = opcodeLoad then
      match σ.translate C (C.uxlen (A + IssConfig.immI word)) .load with
      | .error σ' => some σ'
      | .ok addr => (σ.loadResult C f3 addr).map fun res ↦ { σ.wr C rd res with pc := nextPc }
    else if op = opcodeStore then
      match σ.translate C (C.uxlen (A + IssConfig.immS word)) .store with
      | .error σ' => some σ'
      | .ok addr => (storeBytes f3).map fun n ↦ { σ.storeMem C addr B n with pc := nextPc }
    else if op = opcodeBranch then
      some { σ with
        pc := if C.branchTaken f3 A B then C.uxlen (σ.pc + IssConfig.branchOffset word)
          else nextPc }
    else if op = opcodeJal then
      some { σ.wr C rd nextPc with pc := C.uxlen (σ.pc + IssConfig.jalOffset word) }
    else if op = opcodeJalr then some { σ.wr C rd nextPc with pc := C.jalrTarget word A }
    else if op = opcodeLui then
      some { σ.wr C rd (s32 (word &&& 0xFFFFF000#32).toNat) with pc := nextPc }
    else if op = opcodeAuipc then
      some { σ.wr C rd (C.uxlen (σ.pc + s32 (word &&& 0xFFFFF000#32).toNat)) with pc := nextPc }
    else if op = opcodeSystem then σ.system C word A
    else if op = opcodeLoadFp ∨ op = opcodeStoreFp ∨ op = opcodeFp ∨ isFmaOpcode op then
      C.fpStep word σ
    else if op = opcodeMiscMem ∧ f3 = 0b000#3 then some { σ with pc := nextPc }
    else some (σ.trap mcauseIllegalInstruction 0)

/-! ## Runs -/

/-- One instruction of the program, noted as retired. -/
def next (program : ℕ → BitVec 32) : Option Iss :=
  (σ.step C (program σ.pc)).map fun σ' ↦
    { σ' with trace := { σ'.trace with c := σ'.trace.c ++ [(σ.pc, σ'.csrView)] } }

/-- The simulator after `n` instructions of the program. -/
def runN (C : IssConfig) (program : ℕ → BitVec 32) : ℕ → Option Iss
  | 0 => some (init C.memSize)
  | n + 1 => (runN C program n).bind fun σ ↦ σ.next C program

end Iss

end RvPipeline
