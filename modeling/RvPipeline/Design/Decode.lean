import RvPipeline.Design.Defs

/-!
# Instruction decode

`Control.v`, `ALUCtrl.v`, `ImmGen.v`, `ShiftLeftOne.v` and
`CompressedExpander.v`.  An instruction word is 32 bits at every `XLEN`: the
fetch path zero-extends it, and no decoder looks above bit 31.
-/

namespace RvPipeline

/-- `ALUOp`, the instruction class `Control.v` hands to `ALUCtrl.v`. -/
inductive AluOp where
  | loadStore | branch | rtype | itype
  deriving DecidableEq, Repr, Inhabited

/-- `ALUCtl`, the operation `ALUCtrl.v` selects. -/
inductive AluCtl where
  | add | sub | sll | slt | sltu | xor | srl | sra | or | and
  | beq | bne | blt | bge | ble | bgt | bltu | bgeu | ctz | illegal
  | mul | mulh | mulhsu | mulhu | div | divu | rem | remu
  deriving DecidableEq, Repr

/-- The outputs of `Control.v`; every field is 0 unless an opcode arm sets it. -/
structure Control where
  branch : Bool := false
  memRead : Bool := false
  memtoReg : Bool := false
  aluOp : AluOp := .loadStore
  memWrite : Bool := false
  aluSrc : Bool := false
  regWrite : Bool := false
  jump : Bool := false
  jalr : Bool := false
  lui : Bool := false
  auipc : Bool := false
  isCsr : Bool := false
  isEcall : Bool := false
  isEbreak : Bool := false
  isMret : Bool := false
  isSret : Bool := false
  isSfenceVma : Bool := false
  isFence : Bool := false
  isAmo : Bool := false
  illegalOpcode : Bool := false
  fRegWrite : Bool := false
  deriving DecidableEq, Repr, Inhabited

/-- `Control.v`.  `funt7`, `funt3` are its own port names. -/
def control (xlen : ℕ) (opcode funt7 : BitVec 7) (funt3 : BitVec 3)
    (csrImm12 : BitVec 12) : Control :=
  if opcode = opcodeCustom then { aluOp := .rtype, regWrite := true }
  else if opcode = opcodeLoad then
    { memRead := true, memtoReg := true, aluSrc := true, regWrite := true }
  else if opcode = opcodeStore then { memWrite := true, aluSrc := true }
  else if opcode = opcodeAmo then { aluSrc := true, regWrite := true, isAmo := true }
  else if opcode = opcodeI then { aluOp := .itype, aluSrc := true, regWrite := true }
  else if opcode = opcodeR then { aluOp := .rtype, regWrite := true }
  else if opcode = opcodeOp32 then
    if 64 ≤ xlen then { aluOp := .rtype, regWrite := true } else { illegalOpcode := true }
  else if opcode = opcodeOpImm32 then
    if 64 ≤ xlen then { aluOp := .itype, aluSrc := true, regWrite := true }
    else { illegalOpcode := true }
  else if opcode = opcodeBranch then { branch := true, aluOp := .branch }
  else if opcode = opcodeJal then { regWrite := true, jump := true }
  else if opcode = opcodeJalr then { regWrite := true, jump := true, jalr := true }
  else if opcode = opcodeLui then { aluSrc := true, regWrite := true, lui := true }
  else if opcode = opcodeAuipc then { aluSrc := true, regWrite := true, auipc := true }
  else if opcode = opcodeSystem then
    if funt3 = csrF3None then
      if funt7 = funct7SfenceVma then { isSfenceVma := true }
      else if csrImm12 = csrImm12Ecall then { isEcall := true }
      else if csrImm12 = csrImm12Ebreak then { isEbreak := true }
      else if csrImm12 = csrImm12Mret then { isMret := true }
      else if csrImm12 = csrImm12Sret then { isSret := true }
      else { illegalOpcode := true }
    else { isCsr := true, regWrite := true }
  else if opcode = opcodeFp then
    let funct5 := funt7.extractLsb' 2 5
    if funct5 = funct5Fcmp ∨ funct5 = funct5FcvtWS ∨ funct5 = funct5FmvXWFclass then
      { regWrite := true }
    else { fRegWrite := true }
  else if opcode = opcodeLoadFp then
    { memRead := true, memtoReg := true, aluSrc := true, fRegWrite := true }
  else if opcode = opcodeStoreFp then { memWrite := true, aluSrc := true }
  else if opcode = opcodeMadd ∨ opcode = opcodeMsub ∨ opcode = opcodeNmsub ∨
      opcode = opcodeNmadd then { fRegWrite := true }
  else if opcode = opcodeMiscMem then
    if funt3 = 0b000#3 then { isFence := true } else { illegalOpcode := true }
  else { illegalOpcode := true }

/-- `ALUCtrl.v`. -/
def aluCtrl (aluOp : AluOp) (funct7 : BitVec 7) (funct3 : BitVec 3) : AluCtl :=
  match aluOp with
  | .loadStore => .add
  | .rtype =>
    if funct7 = funct7Base then
      if funct3 = 0b000#3 then .add
      else if funct3 = 0b001#3 then .sll
      else if funct3 = 0b010#3 then .slt
      else if funct3 = 0b011#3 then .sltu
      else if funct3 = 0b100#3 then .xor
      else if funct3 = 0b101#3 then .srl
      else if funct3 = 0b110#3 then .or
      else .and
    else if funct7 = funct7Alt then
      if funct3 = 0b000#3 then .sub
      else if funct3 = 0b101#3 then .sra
      else if funct3 = 0b111#3 then .ctz
      else .illegal
    else if funct7 = funct7Muldiv then
      if funct3 = 0b000#3 then .mul
      else if funct3 = 0b001#3 then .mulh
      else if funct3 = 0b010#3 then .mulhsu
      else if funct3 = 0b011#3 then .mulhu
      else if funct3 = 0b100#3 then .div
      else if funct3 = 0b101#3 then .divu
      else if funct3 = 0b110#3 then .rem
      else .remu
    else .illegal
  | .branch =>
    -- 010/011 are the custom ble/bgt, 100/101 the specified blt/bge
    if funct3 = 0b000#3 then .beq
    else if funct3 = 0b001#3 then .bne
    else if funct3 = 0b010#3 then .ble
    else if funct3 = 0b011#3 then .bgt
    else if funct3 = 0b100#3 then .blt
    else if funct3 = 0b101#3 then .bge
    else if funct3 = 0b110#3 then .bltu
    else .bgeu
  | .itype =>
    if funct3 = 0b000#3 then .add
    else if funct3 = 0b001#3 then .sll
    else if funct3 = 0b010#3 then .slt
    else if funct3 = 0b011#3 then .sltu
    else if funct3 = 0b100#3 then .xor
    else if funct3 = 0b101#3 then
      if funct7.extractLsb' 1 6 = funct6Alt then .sra else .srl
    else if funct3 = 0b110#3 then .or
    else .and

/-- `ImmGen.v` at `Width = w`.  Branch and jal immediates are in halfwords, with
the filler top bit that `ShiftLeftOne` drops. -/
def immGen (w : ℕ) (inst : BitVec 32) : BitVec w :=
  let opcode := inst.extractLsb' 0 7
  let funct3 := inst.extractLsb' 12 3
  let shamtBits := if 64 ≤ w then 6 else 5
  let immI := (inst.extractLsb' 20 12).signExtend w
  if opcode = opcodeI then
    if funct3 = 0b101#3 ∨ funct3 = 0b001#3 then (inst.extractLsb' 20 shamtBits).setWidth w
    else immI
  else if opcode = opcodeOpImm32 then
    if funct3 = 0b101#3 ∨ funct3 = 0b001#3 then (inst.extractLsb' 20 5).setWidth w
    else immI
  else if opcode = opcodeBranch then
    ((inst.extractLsb' 31 1 ++ inst.extractLsb' 7 1 ++ inst.extractLsb' 25 6 ++
      inst.extractLsb' 8 4).signExtend (w - 1)).setWidth w
  else if opcode = opcodeLoad ∨ opcode = opcodeLoadFp then immI
  else if opcode = opcodeStore ∨ opcode = opcodeStoreFp then
    (inst.extractLsb' 25 7 ++ inst.extractLsb' 7 5).signExtend w
  else if opcode = opcodeJal then
    ((inst.extractLsb' 31 1 ++ inst.extractLsb' 12 8 ++ inst.extractLsb' 20 1 ++
      inst.extractLsb' 21 10).signExtend (w - 1)).setWidth w
  else if opcode = opcodeJalr then immI
  else if opcode = opcodeLui ∨ opcode = opcodeAuipc then
    (inst.extractLsb' 12 20 ++ 0#12).signExtend w
  else if opcode = opcodeSystem then (inst.extractLsb' 20 12).setWidth w
  else 0

/-- `ShiftLeftOne.v`. -/
def shiftLeftOne {w : ℕ} (i : BitVec w) : BitVec w := i <<< 1

end RvPipeline
