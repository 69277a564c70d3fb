import RvPipeline.Tools.Source

/-!
# The random program generator

`gen_program` of `random_gen.py`.  What `random.Random` draws is an `Outcome`: the items of the body
with their fields, and the boundary of the interrupt.  A `raise` is `none`.
-/

namespace RvPipeline.Tools

open Py Disasm

namespace RandomGen

/-- A list of names of the module. -/
def names (l : List String) : List Str := l.map String.toList

def rType : List Str :=
  names ["add", "sub", "sll", "slt", "sltu", "xor", "srl", "sra", "or", "and",
    "mul", "mulh", "mulhsu", "mulhu", "div", "divu", "rem", "remu"]
def iType : List Str := names ["addi", "slti", "sltiu", "xori", "ori", "andi"]
def shiftI : List Str := names ["slli", "srli", "srai"]
def branches : List Str := names ["beq", "bne", "blt", "bge", "ble", "bgt", "bltu", "bgeu"]
def csrRegOp : List Str := names ["csrrw", "csrrs", "csrrc"]
def csrImmOp : List Str := names ["csrrwi", "csrrsi", "csrrci"]
def csrNames : List Str := names ["mstatus", "mtvec", "mscratch", "mepc", "mcause"]

/-- The memory-safe base pointer, left out of the pool. -/
def baseReg : BitVec 5 := 31
def gpRegs : List (BitVec 5) := (List.range' 1 30).map (BitVec.ofNat 5)

def fpArith : List Str := names ["fadd.s", "fsub.s", "fmul.s", "fdiv.s"]
def fpSgnj : List Str := names ["fsgnj.s", "fsgnjn.s", "fsgnjx.s"]
def fpMinmax : List Str := names ["fmin.s", "fmax.s"]
def fpCmp : List Str := names ["feq.s", "flt.s", "fle.s"]
def fpCvtToInt : List Str := names ["fcvt.w.s", "fcvt.wu.s"]
def fpCvtFromInt : List Str := names ["fcvt.s.w", "fcvt.s.wu"]
def fmaddFamily : List Str := names ["fmadd.s", "fmsub.s", "fnmsub.s", "fnmadd.s"]
def rmPool : List Str := names ["rne", "rtz", "rdn", "rup", "rmm", "dyn"]
/-- `FCSR_ADDR` of the names. -/
def fcsrAddr : List Str := names ["0x1", "0x2", "0x3"]
def floatSeedBits : List ℕ :=
  [0x00000000, 0x3F800000, 0xBF800000, 0x7F800000, 0x7FC00000, 0x00400000]
def rTypeW : List Str :=
  names ["addw", "subw", "sllw", "srlw", "sraw", "mulw", "divw", "divuw", "remw", "remuw"]
def iTypeW : List Str := names ["addiw", "slliw", "srliw", "sraiw"]

/-! ## Lines -/

/-- A statement with one blank behind the mnemonic. -/
def stmt (mn : String) (ops : List Str) : Line := .stmt mn.toList 0 ops

/-- `f"{n:#x}"`. -/
def hexLit (n : ℕ) : Str := '0' :: 'x' :: hex 1 n

/-- `f"{off}(x{base})"`. -/
def offBase (off : ℤ) (base : BitVec 5) : Str := Disasm.memOp off base

/-- `f"__L{target_idx}"`. -/
def targetLabel (target : ℕ) : Str := '_' :: '_' :: 'L' :: dec target

/-! ## Constants -/

def constToRegInstrs (rd : BitVec 5) (bits32 : ℕ) : List Line :=
  let lo := bits32 &&& 0xFFF
  let hi := (bits32 >>> 12) &&& 0xFFFFF
  let hi := if lo &&& 0x800 ≠ 0 then (hi + 1) &&& 0xFFFFF else hi
  let loSigned : ℤ := if lo &&& 0x800 ≠ 0 then (lo : ℤ) - 0x1000 else lo
  stmt "lui" [xReg rd, hexLit hi] ::
    if lo ≠ 0 then [stmt "addi" [xReg rd, xReg rd, decInt loSigned]] else []

def const64ToRegInstrs (rd rdScratch : BitVec 5) (bits64 : ℕ) : List Line :=
  let hi32 := (bits64 >>> 32) &&& 0xFFFFFFFF
  let lo32 := bits64 &&& 0xFFFFFFFF
  constToRegInstrs rd hi32 ++ [stmt "slli" [xReg rd, xReg rd, dec 32]] ++
    constToRegInstrs rdScratch lo32 ++
      [stmt "slli" [xReg rdScratch, xReg rdScratch, dec 32],
        stmt "srli" [xReg rdScratch, xReg rdScratch, dec 32],
        stmt "or" [xReg rd, xReg rd, xReg rdScratch]]

/-! ## Parameters -/

inductive IntSource where
  | timer | uart | msi | both
  deriving DecidableEq

/-- The arguments of `gen_program`; `base_addr` keeps its default. -/
structure GenParams where
  nInstrs : ℤ := 16
  memSize : ℤ := 128
  interrupt : Option IntSource := none
  mmu : Bool := false
  xlen : ℕ := 32

def baseAddr : ℤ := 32

namespace GenParams

variable (P : GenParams)

def addrSpace : ℤ := if P.mmu then min P.memSize 4096 else P.memSize

def interruptPrefixCost : ℤ :=
  match P.interrupt with
  | none => 0
  | some .timer => 5 + 4 + 2
  | some .uart => 5 + 3 + 2
  | some .msi => 5 + 3 + 2
  | some .both => 5 + 7 + 2

def mmuPrefixCost : ℤ := if P.mmu then if 64 ≤ P.xlen then 24 else 13 else 0

def xlen64SeedCost : ℤ := if 64 ≤ P.xlen then 8 else 0

def budget : ℤ :=
  1 + 2 * floatSeedBits.length + P.xlen64SeedCost + P.nInstrs + 1 + P.interruptPrefixCost +
    P.mmuPrefixCost

attribute [local instance] Py.decideMem in
def csrPool : List Str :=
  if P.interrupt = none then csrNames
  else csrNames.filter fun n ↦ n ∉ names ["mstatus", "mepc", "mcause", "mtvec"]

def loadMnemonics : List Str :=
  names ["lb", "lh", "lw", "lbu", "lhu"] ++ if 64 ≤ P.xlen then names ["ld", "lwu"] else []

def storeMnemonics : List Str :=
  names ["sb", "sh", "sw"] ++ if 64 ≤ P.xlen then names ["sd"] else []

/-- The offsets that a load or store of some width draws from. -/
def OffsetDrawn (width : ℤ) (off : ℤ) : Prop :=
  let maxOff := min (P.addrSpace - baseAddr - width) 2047
  if 0 ≤ maxOff then 0 ≤ off ∧ off ≤ maxOff ∧ width ∣ off else off = 0

end GenParams

def loadWidths : List (Str × ℤ) :=
  [("lb".toList, 1), ("lbu".toList, 1), ("lh".toList, 2), ("lhu".toList, 2), ("lw".toList, 4),
    ("lwu".toList, 4), ("ld".toList, 8)]

def storeWidths : List (Str × ℤ) :=
  [("sb".toList, 1), ("sh".toList, 2), ("sw".toList, 4), ("sd".toList, 8)]

/-! ## Items -/

/-- An instruction of the body with all that was drawn for it; a branch and a jump with the target
the second pass draws. -/
inductive Item where
  | r (mn : Str) (rd rs1 rs2 : BitVec 5)
  | rw (mn : Str) (rd rs1 rs2 : BitVec 5)
  | i (mn : Str) (rd rs1 : BitVec 5) (imm : ℤ)
  | iw (mn : Str) (rd rs1 : BitVec 5) (imm : ℤ)
  | shift (mn : Str) (rd rs1 : BitVec 5) (shamt : ℤ)
  | load (mn : Str) (rd : BitVec 5) (off : ℤ)
  | store (mn : Str) (rs2 : BitVec 5) (off : ℤ)
  | branch (mn : Str) (rs1 rs2 : BitVec 5) (target : ℕ)
  | csrReg (mn csr : Str) (rd rs1 : BitVec 5)
  | csrImm (mn csr : Str) (rd : BitVec 5) (uimm : ℤ)
  | jal (rd : BitVec 5) (target : ℕ)
  | fpArith (mn : Str) (rd rs1 rs2 : BitVec 5) (rm : Str)
  | fpSqrt (rd rs1 : BitVec 5) (rm : Str)
  | fpSgnj (mn : Str) (rd rs1 rs2 : BitVec 5)
  | fpMinmax (mn : Str) (rd rs1 rs2 : BitVec 5)
  | fpCmp (mn : Str) (rd rs1 rs2 : BitVec 5)
  | fpCvtToInt (mn : Str) (rd rs1 : BitVec 5) (rm : Str)
  | fpCvtFromInt (mn : Str) (rd rs1 : BitVec 5) (rm : Str)
  | fpMadd (mn : Str) (rd rs1 rs2 rs3 : BitVec 5) (rm : Str)
  | fload (rd : BitVec 5) (off : ℤ)
  | fstore (rs2 : BitVec 5) (off : ℤ)

namespace Item

/-- `target_idx`. -/
def target : Item → Option ℕ
  | .branch _ _ _ t => some t
  | .jal _ t => some t
  | _ => none

/-- The line in `out`. -/
def line : Item → Line
  | .r mn rd rs1 rs2 | .rw mn rd rs1 rs2 => .stmt mn 0 [xReg rd, xReg rs1, xReg rs2]
  | .i mn rd rs1 imm | .iw mn rd rs1 imm => .stmt mn 0 [xReg rd, xReg rs1, decInt imm]
  | .shift mn rd rs1 shamt => .stmt mn 0 [xReg rd, xReg rs1, decInt shamt]
  | .load mn rd off => .stmt mn 0 [xReg rd, offBase off baseReg]
  | .store mn rs2 off => .stmt mn 0 [xReg rs2, offBase off baseReg]
  | .branch mn rs1 rs2 target => .stmt mn 0 [xReg rs1, xReg rs2, targetLabel target]
  | .csrReg mn csr rd rs1 => .stmt mn 0 [xReg rd, csr, xReg rs1]
  | .csrImm mn csr rd uimm => .stmt mn 0 [xReg rd, csr, decInt uimm]
  | .jal rd target => stmt "jal" [xReg rd, targetLabel target]
  | .fpArith mn rd rs1 rs2 rm => .stmt mn 0 [fReg rd, fReg rs1, fReg rs2, rm]
  | .fpSqrt rd rs1 rm => stmt "fsqrt.s" [fReg rd, fReg rs1, rm]
  | .fpSgnj mn rd rs1 rs2 | .fpMinmax mn rd rs1 rs2 => .stmt mn 0 [fReg rd, fReg rs1, fReg rs2]
  | .fpCmp mn rd rs1 rs2 => .stmt mn 0 [xReg rd, fReg rs1, fReg rs2]
  | .fpCvtToInt mn rd rs1 rm => .stmt mn 0 [xReg rd, fReg rs1, rm]
  | .fpCvtFromInt mn rd rs1 rm => .stmt mn 0 [fReg rd, xReg rs1, rm]
  | .fpMadd mn rd rs1 rs2 rs3 rm => .stmt mn 0 [fReg rd, fReg rs1, fReg rs2, fReg rs3, rm]
  | .fload rd off => stmt "flw" [fReg rd, offBase off baseReg]
  | .fstore rs2 off => stmt "fsw" [fReg rs2, offBase off baseReg]

/-- What `gen_program` can draw for the item with index `curIdx` of `n`.  The `csr` kind has no
weight with `mmu`; the `fcsr` kind has the same lines. -/
def Drawn (P : GenParams) (curIdx n : ℕ) : Item → Prop
  | .r mn rd rs1 rs2 => mn ∈ rType ∧ rd ∈ gpRegs ∧ rs1 ∈ gpRegs ∧ rs2 ∈ gpRegs
  | .rw mn rd rs1 rs2 => 64 ≤ P.xlen ∧ mn ∈ rTypeW ∧ rd ∈ gpRegs ∧ rs1 ∈ gpRegs ∧ rs2 ∈ gpRegs
  | .i mn rd rs1 imm => mn ∈ iType ∧ rd ∈ gpRegs ∧ rs1 ∈ gpRegs ∧ -2048 ≤ imm ∧ imm ≤ 2047
  | .iw mn rd rs1 imm =>
    64 ≤ P.xlen ∧ mn ∈ iTypeW ∧ rd ∈ gpRegs ∧ rs1 ∈ gpRegs ∧
      if mn = "addiw".toList then -2048 ≤ imm ∧ imm ≤ 2047 else 0 ≤ imm ∧ imm ≤ 31
  | .shift mn rd rs1 shamt =>
    mn ∈ shiftI ∧ rd ∈ gpRegs ∧ rs1 ∈ gpRegs ∧ 0 ≤ shamt ∧ shamt ≤ if 64 ≤ P.xlen then 63 else 31
  | .load mn rd off =>
    mn ∈ P.loadMnemonics ∧ rd ∈ gpRegs ∧
      ∃ width, loadWidths.lookup mn = some width ∧ P.OffsetDrawn width off
  | .store mn rs2 off =>
    mn ∈ P.storeMnemonics ∧ rs2 ∈ gpRegs ∧
      ∃ width, storeWidths.lookup mn = some width ∧ P.OffsetDrawn width off
  | .branch mn rs1 rs2 target =>
    mn ∈ branches ∧ rs1 ∈ gpRegs ∧ rs2 ∈ gpRegs ∧ min (curIdx + 1) n ≤ target ∧ target ≤ n
  | .csrReg mn csr rd rs1 =>
    (P.mmu = false ∧ csr ∈ P.csrPool ∨ csr ∈ fcsrAddr) ∧ mn ∈ csrRegOp ∧ rd ∈ gpRegs ∧ rs1 ∈ gpRegs
  | .csrImm mn csr rd uimm =>
    (P.mmu = false ∧ csr ∈ P.csrPool ∨ csr ∈ fcsrAddr) ∧ mn ∈ csrImmOp ∧ rd ∈ gpRegs ∧
      0 ≤ uimm ∧ uimm ≤ 31
  | .jal rd target => rd ∈ gpRegs ∧ min (curIdx + 1) n ≤ target ∧ target ≤ n
  | .fpArith mn _ _ _ rm => mn ∈ RandomGen.fpArith ∧ rm ∈ rmPool
  | .fpSqrt _ _ rm => rm ∈ rmPool
  | .fpSgnj mn _ _ _ => mn ∈ RandomGen.fpSgnj
  | .fpMinmax mn _ _ _ => mn ∈ RandomGen.fpMinmax
  | .fpCmp mn rd _ _ => mn ∈ RandomGen.fpCmp ∧ rd ∈ gpRegs
  | .fpCvtToInt mn rd _ rm => mn ∈ RandomGen.fpCvtToInt ∧ rd ∈ gpRegs ∧ rm ∈ rmPool
  | .fpCvtFromInt mn _ rs1 rm => mn ∈ RandomGen.fpCvtFromInt ∧ rs1 ∈ gpRegs ∧ rm ∈ rmPool
  | .fpMadd mn _ _ _ _ rm => mn ∈ fmaddFamily ∧ rm ∈ rmPool
  | .fload _ off => P.OffsetDrawn 4 off
  | .fstore _ off => P.OffsetDrawn 4 off

end Item

/-- What the generator draws. -/
structure Outcome (P : GenParams) where
  items : List Item
  interruptK : ℕ
  length : items.length = P.nInstrs.toNat
  drawn : ∀ (k : ℕ) (h : k < items.length), (items.get ⟨k, h⟩).Drawn P (k + 1) items.length
  boundary : P.interrupt ≠ none → 1 ≤ interruptK ∧ (interruptK : ℤ) ≤ P.nInstrs

/-! ## The text -/

def seedLines (P : GenParams) : List Line :=
  floatSeedBits.zipIdx.flatMap (fun e ↦
    constToRegInstrs 30 e.1 ++ [stmt "fmv.w.x" [fReg (BitVec.ofNat 5 (e.2 + 1)), xReg 30]]) ++
  if 64 ≤ P.xlen then const64ToRegInstrs 29 30 0xDEADBEEF12345678 else []

/-- The second pass from the item with index `curIdx` on; `n` is `len(instrs)` and `labelsAt` the
targets so far. -/
def emit (n : ℕ) : ℕ → List ℕ → List Item → List Line
  | _, labelsAt, [] => if n ∈ labelsAt then [.label (targetLabel n)] else []
  | curIdx, labelsAt, item :: items =>
    let labelsAt := item.target.toList ++ labelsAt
    item.line ::
      ((if curIdx + 1 ∈ labelsAt then [.label (targetLabel (curIdx + 1))] else []) ++
        emit n (curIdx + 1) labelsAt items)

def haltLabel : Str := "__halt".toList

/-- `out`. -/
def body (P : GenParams) (items : List Item) : List Line :=
  stmt "addi" [xReg baseReg, xReg 0, decInt baseAddr] :: seedLines P ++
    emit items.length 1 [] items ++
      [stmt "fence" [], .label haltLabel, stmt "jal" [xReg 0, haltLabel]]

/-- The Sv39 prefix, with the text in place of `__MEPC_PLACEHOLDER__`. -/
def prefix39 (mepc : Str) : List Line :=
  constToRegInstrs 1 0x401 ++ [stmt "sw" [xReg 1, offBase 0 0]] ++
    [stmt "lui" [xReg 4, "0x1".toList]] ++ constToRegInstrs 2 0x801 ++
      [stmt "sw" [xReg 2, offBase 0 4]] ++
    [stmt "lui" [xReg 5, "0x2".toList]] ++ constToRegInstrs 3 0x1F ++
      [stmt "sw" [xReg 3, offBase 0 5]] ++
    [stmt "fence" []] ++
    const64ToRegInstrs 1 6 (8 <<< 60) ++ [stmt "csrrw" [xReg 0, "0x180".toList, xReg 1]] ++
    [stmt "addi" [xReg 1, xReg 0, mepc], stmt "csrrw" [xReg 0, "mepc".toList, xReg 1],
      stmt "mret" []]

/-- The Sv32 prefix. -/
def prefix32 (mepc : Str) : List Line :=
  constToRegInstrs 1 0x401 ++ [stmt "sw" [xReg 1, offBase 0 0]] ++
    [stmt "lui" [xReg 3, "0x1".toList]] ++ constToRegInstrs 2 0x1F ++
      [stmt "sw" [xReg 2, offBase 0 3]] ++
    [stmt "fence" []] ++
    constToRegInstrs 1 0x80000000 ++ [stmt "csrrw" [xReg 0, "0x180".toList, xReg 1]] ++
    [stmt "addi" [xReg 1, xReg 0, mepc], stmt "csrrw" [xReg 0, "mepc".toList, xReg 1],
      stmt "mret" []]

/-- The lines that arm an interrupt, with the text in place of `__MTVEC_PLACEHOLDER__`, and the
cause. -/
def interruptPrefix (k : ℕ) (mtvec : Str) : IntSource → List Line × ℕ
  | .timer =>
    ([.stmt "lui".toList 2 [xReg 2, "0x10104".toList], .stmt "addi".toList 1 [xReg 5, xReg 0, mtvec],
        stmt "csrrw" [xReg 0, "mtvec".toList, xReg 5],
        .stmt "addi".toList 1 [xReg 6, xReg 0, "128".toList],
        stmt "csrrw" [xReg 0, "mie".toList, xReg 6]] ++
      constToRegInstrs 7 (100 + k * 10) ++
      [.stmt "sw".toList 3 [xReg 7, offBase 0 2],
        stmt "csrrsi" [xReg 0, "mstatus".toList, "8".toList]], 0x80000007)
  | .uart =>
    ([.stmt "lui".toList 2 [xReg 1, "0x10000".toList], .stmt "addi".toList 1 [xReg 5, xReg 0, mtvec],
        stmt "csrrw" [xReg 0, "mtvec".toList, xReg 5],
        .stmt "addi".toList 1 [xReg 6, xReg 0, "-2048".toList],
        stmt "csrrw" [xReg 0, "mie".toList, xReg 6],
        .stmt "addi".toList 1 [xReg 8, xReg 0, "1".toList],
        .stmt "sw".toList 3 [xReg 8, offBase 4 1],
        stmt "csrrsi" [xReg 0, "mstatus".toList, "8".toList]], 0x8000000B)
  | .msi =>
    ([.stmt "lui".toList 2 [xReg 2, "0x10100".toList], .stmt "addi".toList 1 [xReg 5, xReg 0, mtvec],
        stmt "csrrw" [xReg 0, "mtvec".toList, xReg 5],
        .stmt "addi".toList 1 [xReg 6, xReg 0, "8".toList],
        stmt "csrrw" [xReg 0, "mie".toList, xReg 6],
        .stmt "addi".toList 1 [xReg 7, xReg 0, "1".toList],
        .stmt "sw".toList 3 [xReg 7, offBase 0 2],
        stmt "csrrsi" [xReg 0, "mstatus".toList, "8".toList]], 0x80000003)
  | .both =>
    ([.stmt "lui".toList 2 [xReg 1, "0x10000".toList], .stmt "lui".toList 2 [xReg 2, "0x10104".toList],
        .stmt "addi".toList 1 [xReg 5, xReg 0, mtvec],
        stmt "csrrw" [xReg 0, "mtvec".toList, xReg 5],
        .stmt "addi".toList 1 [xReg 6, xReg 0, "-1920".toList],
        stmt "csrrw" [xReg 0, "mie".toList, xReg 6]] ++
      constToRegInstrs 7 (100 + k * 10) ++
      [.stmt "sw".toList 3 [xReg 7, offBase 0 2], .stmt "addi".toList 1 [xReg 8, xReg 0, "1".toList],
        .stmt "sw".toList 3 [xReg 8, offBase 4 1],
        stmt "csrrsi" [xReg 0, "mstatus".toList, "8".toList]], 0x8000000B)

def handler : List Line :=
  [.label "handler".toList, stmt "csrrw" [xReg 0, "mie".toList, xReg 0], stmt "mret" []]

/-- `interrupt_info`. -/
structure InterruptInfo where
  after : ℕ
  cause : ℕ

/-- `gen_program` up to the joining of the lines. -/
def genLines (P : GenParams) (o : Outcome P) : Option (List Line × Option InterruptInfo) :=
  if P.interrupt ≠ none ∧ P.mmu = true then none
  else if P.memSize / 4 < P.budget then none
  else
    let out := body P o.items
    if P.mmu = true ∧ 64 ≤ P.xlen then
      let mepcTarget := instrCount (prefix39 "__MEPC_PLACEHOLDER__".toList) * 4
      some (prefix39 (dec mepcTarget) ++ out, none)
    else if P.mmu = true then
      let mepcTarget := instrCount (prefix32 "__MEPC_PLACEHOLDER__".toList) * 4
      some (prefix32 (dec mepcTarget) ++ out, none)
    else match P.interrupt with
      | none => some (out, none)
      | some source =>
        let armed := interruptPrefix o.interruptK "__MTVEC_PLACEHOLDER__".toList source
        let handlerAddr := (instrCount armed.1 + instrCount out) * 4
        some ((interruptPrefix o.interruptK (dec handlerAddr) source).1 ++ out ++ handler,
          some { after := o.interruptK, cause := armed.2 })

def genProgram (P : GenParams) (o : Outcome P) : Option (Str × Option InterruptInfo) :=
  (genLines P o).map fun g ↦ (joinLines g.1, g.2)

end RandomGen

end RvPipeline.Tools
