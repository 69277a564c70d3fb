import Mathlib

/-!
# Encodings shared by the core

The opcode, function-field, CSR-address and cause constants of
`design/riscv_defs.vh`.  Fixed-width fields keep the width the header gives
them; causes and memory-map constants are numbers, since the core widens them
to `XLEN` where it uses them.
-/

namespace RvPipeline

/-! ## Opcodes -/

abbrev opcodeR : BitVec 7 := 0b0110011#7
abbrev opcodeI : BitVec 7 := 0b0010011#7
abbrev opcodeLoad : BitVec 7 := 0b0000011#7
abbrev opcodeStore : BitVec 7 := 0b0100011#7
abbrev opcodeBranch : BitVec 7 := 0b1100011#7
abbrev opcodeJal : BitVec 7 := 0b1101111#7
abbrev opcodeJalr : BitVec 7 := 0b1100111#7
abbrev opcodeLui : BitVec 7 := 0b0110111#7
abbrev opcodeAuipc : BitVec 7 := 0b0010111#7
abbrev opcodeCustom : BitVec 7 := 0b0101010#7
abbrev opcodeSystem : BitVec 7 := 0b1110011#7
abbrev opcodeMiscMem : BitVec 7 := 0b0001111#7
abbrev opcodeAmo : BitVec 7 := 0b0101111#7
abbrev opcodeOp32 : BitVec 7 := 0b0111011#7
abbrev opcodeOpImm32 : BitVec 7 := 0b0011011#7
abbrev opcodeFp : BitVec 7 := 0b1010011#7
abbrev opcodeLoadFp : BitVec 7 := 0b0000111#7
abbrev opcodeStoreFp : BitVec 7 := 0b0100111#7
abbrev opcodeMadd : BitVec 7 := 0b1000011#7
abbrev opcodeMsub : BitVec 7 := 0b1000111#7
abbrev opcodeNmsub : BitVec 7 := 0b1001011#7
abbrev opcodeNmadd : BitVec 7 := 0b1001111#7

/-! ## Function fields -/

abbrev funct7Base : BitVec 7 := 0b0000000#7
abbrev funct7Alt : BitVec 7 := 0b0100000#7
abbrev funct7Muldiv : BitVec 7 := 0b0000001#7
abbrev funct6Alt : BitVec 6 := 0b010000#6
abbrev funct7SfenceVma : BitVec 7 := 0b0001001#7

abbrev amoF5Add : BitVec 5 := 0b00000#5
abbrev amoF5Lr : BitVec 5 := 0b00010#5
abbrev amoF5Xor : BitVec 5 := 0b00100#5
abbrev amoF5Or : BitVec 5 := 0b01000#5
abbrev amoF5And : BitVec 5 := 0b01100#5
abbrev amoF5Min : BitVec 5 := 0b10000#5
abbrev amoF5Max : BitVec 5 := 0b10100#5
abbrev amoF5Minu : BitVec 5 := 0b11000#5
abbrev amoF5Maxu : BitVec 5 := 0b11100#5

abbrev f3LoadLd : BitVec 3 := 0b011#3
abbrev f3StoreSd : BitVec 3 := 0b011#3

abbrev funct5Fadd : BitVec 5 := 0b00000#5
abbrev funct5Fsub : BitVec 5 := 0b00001#5
abbrev funct5Fmul : BitVec 5 := 0b00010#5
abbrev funct5Fdiv : BitVec 5 := 0b00011#5
abbrev funct5Fsqrt : BitVec 5 := 0b01011#5
abbrev funct5Fsgnj : BitVec 5 := 0b00100#5
abbrev funct5Fminmax : BitVec 5 := 0b00101#5
abbrev funct5Fcmp : BitVec 5 := 0b10100#5
abbrev funct5FcvtWS : BitVec 5 := 0b11000#5
abbrev funct5FcvtSW : BitVec 5 := 0b11010#5
abbrev funct5FmvXWFclass : BitVec 5 := 0b11100#5
abbrev funct5FmvWX : BitVec 5 := 0b11110#5

abbrev f3FsgnjJ : BitVec 3 := 0b000#3
abbrev f3FsgnjJn : BitVec 3 := 0b001#3
abbrev f3FsgnjJx : BitVec 3 := 0b010#3
abbrev f3Fmin : BitVec 3 := 0b000#3
abbrev f3Fle : BitVec 3 := 0b000#3
abbrev f3Flt : BitVec 3 := 0b001#3
abbrev f3Feq : BitVec 3 := 0b010#3
abbrev f3Fclass : BitVec 3 := 0b001#3
abbrev rs2FcvtWu : BitVec 5 := 0b00001#5

abbrev rmRne : BitVec 3 := 0b000#3
abbrev rmRtz : BitVec 3 := 0b001#3
abbrev rmRdn : BitVec 3 := 0b010#3
abbrev rmRup : BitVec 3 := 0b011#3
abbrev rmRmm : BitVec 3 := 0b100#3
abbrev rmDyn : BitVec 3 := 0b111#3

/-! ## CSR addresses -/

abbrev csrF3None : BitVec 3 := 0b000#3
abbrev csrImm12Ecall : BitVec 12 := 0x000#12
abbrev csrImm12Ebreak : BitVec 12 := 0x001#12
abbrev csrImm12Mret : BitVec 12 := 0x302#12
abbrev csrImm12Sret : BitVec 12 := 0x102#12

abbrev csrAddrFflags : BitVec 12 := 0x001#12
abbrev csrAddrFrm : BitVec 12 := 0x002#12
abbrev csrAddrFcsr : BitVec 12 := 0x003#12
abbrev csrAddrSstatus : BitVec 12 := 0x100#12
abbrev csrAddrSie : BitVec 12 := 0x104#12
abbrev csrAddrStvec : BitVec 12 := 0x105#12
abbrev csrAddrSscratch : BitVec 12 := 0x140#12
abbrev csrAddrSepc : BitVec 12 := 0x141#12
abbrev csrAddrScause : BitVec 12 := 0x142#12
abbrev csrAddrStval : BitVec 12 := 0x143#12
abbrev csrAddrSip : BitVec 12 := 0x144#12
abbrev csrAddrSatp : BitVec 12 := 0x180#12
abbrev csrAddrMstatus : BitVec 12 := 0x300#12
abbrev csrAddrMedeleg : BitVec 12 := 0x302#12
abbrev csrAddrMideleg : BitVec 12 := 0x303#12
abbrev csrAddrMie : BitVec 12 := 0x304#12
abbrev csrAddrMtvec : BitVec 12 := 0x305#12
abbrev csrAddrMcountinhibit : BitVec 12 := 0x320#12
abbrev csrAddrMhpmevent3Base : BitVec 12 := 0x323#12
abbrev csrAddrMscratch : BitVec 12 := 0x340#12
abbrev csrAddrMepc : BitVec 12 := 0x341#12
abbrev csrAddrMcause : BitVec 12 := 0x342#12
abbrev csrAddrMtval : BitVec 12 := 0x343#12
abbrev csrAddrMip : BitVec 12 := 0x344#12
abbrev csrAddrMcycle : BitVec 12 := 0xB00#12
abbrev csrAddrMinstret : BitVec 12 := 0xB02#12
abbrev csrAddrMhpmcounter3Base : BitVec 12 := 0xB03#12
abbrev csrAddrMcycleh : BitVec 12 := 0xB80#12
abbrev csrAddrMinstreth : BitVec 12 := 0xB82#12
abbrev csrAddrMhpmcounter3hBase : BitVec 12 := 0xB83#12
abbrev numHpmCounters : ℕ := 9

/-! ## Privilege, causes and bit positions -/

abbrev privU : BitVec 2 := 0b00#2
abbrev privS : BitVec 2 := 0b01#2
abbrev privM : BitVec 2 := 0b11#2

abbrev mcauseIllegalInstruction : ℕ := 2
abbrev mcauseBreakpoint : ℕ := 3
abbrev mcauseEcallFromU : ℕ := 8
abbrev mcauseEcallFromS : ℕ := 9
abbrev mcauseEcallFromM : ℕ := 11
abbrev mcauseInstructionPageFault : ℕ := 12
abbrev mcauseLoadPageFault : ℕ := 13
abbrev mcauseStorePageFault : ℕ := 15
abbrev mcauseIntSupervisorSoftware : ℕ := 1
abbrev mcauseIntMachineSoftware : ℕ := 3
abbrev mcauseIntSupervisorTimer : ℕ := 5
abbrev mcauseIntMachineTimer : ℕ := 7
abbrev mcauseIntMachineExternal : ℕ := 11

abbrev mstatusSieBit : ℕ := 1
abbrev mstatusMieBit : ℕ := 3
abbrev mstatusSpieBit : ℕ := 5
abbrev mstatusMpieBit : ℕ := 7
abbrev mstatusSppBit : ℕ := 8
abbrev mstatusMppLo : ℕ := 11

abbrev mieSsieBit : ℕ := 1
abbrev mieMsieBit : ℕ := 3
abbrev mieStieBit : ℕ := 5
abbrev mieMtieBit : ℕ := 7
abbrev mieSeieBit : ℕ := 9
abbrev mieMeieBit : ℕ := 11

abbrev pteVBit : ℕ := 0
abbrev pteRBit : ℕ := 1
abbrev pteWBit : ℕ := 2
abbrev pteXBit : ℕ := 3
abbrev pteUBit : ℕ := 4

/-! ## Memory map -/

abbrev uartBase : ℕ := 0x10000000
abbrev uartSize : ℕ := 32
abbrev timerBase : ℕ := 0x10100000
abbrev timerSize : ℕ := 0x00010000
abbrev clintOffMsip : BitVec 16 := 0x0000#16
abbrev clintOffMtimecmp : BitVec 16 := 0x4000#16
abbrev clintOffMtime : BitVec 16 := 0xBFF8#16

/-! ## Bit-level helpers -/

/-- `$clog2`. -/
def clog2 (n : ℕ) : ℕ := if n ≤ 1 then 0 else Nat.log2 (n - 1) + 1

/-- The bits of `v` at the positions in `bits`, everything else zero. -/
def keepBits {w : ℕ} (bits : List ℕ) (v : BitVec w) : BitVec w :=
  v &&& bits.foldl (fun acc i ↦ acc ||| BitVec.twoPow w i) 0

/-- Assignment to one bit of a register. -/
def putBit {w : ℕ} (v : BitVec w) (i : ℕ) (b : Bool) : BitVec w :=
  if b then v ||| BitVec.twoPow w i else v &&& ~~~(BitVec.twoPow w i)

/-- Assignment to the two-bit field at `lo`. -/
def putBits2 {w : ℕ} (v : BitVec w) (lo : ℕ) (x : BitVec 2) : BitVec w :=
  putBit (putBit v lo (x.getLsbD 0)) (lo + 1) (x.getLsbD 1)

/-- A one-bit wire shifted to position `i` of a word. -/
def bitAt (w : ℕ) (b : Bool) (i : ℕ) : BitVec w :=
  if b then BitVec.twoPow w i else 0

end RvPipeline
