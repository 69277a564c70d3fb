import RvPipeline.Trap.CsrOps
import Mathlib.Tactic

/-!
# A hart at the level of the assembler

The registers, the memory and the CSR file of an RV64 hart, and the instructions that
`sim/firmware/trap_entry.S` is written in.  CSR instructions, traps and `mret` go through `CSR.v`.
-/

namespace RvPipeline

/-! ## Doublewords -/

/-- The little-endian doubleword at `a`. -/
def loadD (m : BitVec 64 → BitVec 8) (a : BitVec 64) : BitVec 64 :=
  m (a + 7) ++ m (a + 6) ++ m (a + 5) ++ m (a + 4) ++ m (a + 3) ++ m (a + 2) ++ m (a + 1) ++ m a

def storeD (m : BitVec 64 → BitVec 8) (a v : BitVec 64) : BitVec 64 → BitVec 8 :=
  fun b ↦ if (b - a).toNat < 8 then v.extractLsb' (8 * (b - a).toNat) 8 else m b

theorem loadD_storeD (m : BitVec 64 → BitVec 8) (a v : BitVec 64) :
    loadD (storeD m a v) a = v := by
  have h : ∀ i : BitVec 64, i.toNat < 8 → storeD m a v (a + i) = v.extractLsb' (8 * i.toNat) 8 := by
    intro i hi
    have hsub : a + i - a = i := by rw [BitVec.add_comm, BitVec.add_sub_cancel]
    rw [storeD, hsub, if_pos hi]
  have h0 : storeD m a v a = v.extractLsb' 0 8 := by simpa using h 0 (by decide)
  rw [loadD, h 7 (by decide), h 6 (by decide), h 5 (by decide), h 4 (by decide), h 3 (by decide),
    h 2 (by decide), h 1 (by decide), h0]
  -- the bytes are put together from the top
  have glue : ∀ (s n : ℕ), v.extractLsb' (s + 8) n ++ v.extractLsb' s 8 = v.extractLsb' s (n + 8) := by
    intro s n
    exact BitVec.extractLsb'_append_extractLsb'_eq_extractLsb' rfl
  exact (congrArg (fun x ↦ x ++ v.extractLsb' 40 8 ++ v.extractLsb' 32 8 ++ v.extractLsb' 24 8 ++
    v.extractLsb' 16 8 ++ v.extractLsb' 8 8 ++ v.extractLsb' 0 8) (glue 48 8)).trans <|
    (congrArg (fun x ↦ x ++ v.extractLsb' 32 8 ++ v.extractLsb' 24 8 ++ v.extractLsb' 16 8 ++
      v.extractLsb' 8 8 ++ v.extractLsb' 0 8) (glue 40 16)).trans <|
    (congrArg (fun x ↦ x ++ v.extractLsb' 24 8 ++ v.extractLsb' 16 8 ++ v.extractLsb' 8 8 ++
      v.extractLsb' 0 8) (glue 32 24)).trans <|
    (congrArg (fun x ↦ x ++ v.extractLsb' 16 8 ++ v.extractLsb' 8 8 ++ v.extractLsb' 0 8)
      (glue 24 32)).trans <|
    (congrArg (fun x ↦ x ++ v.extractLsb' 8 8 ++ v.extractLsb' 0 8) (glue 16 40)).trans <|
    (congrArg (fun x ↦ x ++ v.extractLsb' 0 8) (glue 8 48)).trans <|
    (glue 0 56).trans BitVec.extractLsb'_eq_self

theorem loadD_congr {m m' : BitVec 64 → BitVec 8} {a : BitVec 64}
    (h : ∀ i : BitVec 64, i.toNat < 8 → m (a + i) = m' (a + i)) : loadD m a = loadD m' a := by
  have h0 : m a = m' a := by simpa using h 0 (by decide)
  rw [loadD, loadD, h 7 (by decide), h 6 (by decide), h 5 (by decide), h 4 (by decide),
    h 3 (by decide), h 2 (by decide), h 1 (by decide), h0]

/-- Doublewords that do not overlap. -/
theorem loadD_storeD_of_apart {m : BitVec 64 → BitVec 8} {a b v : BitVec 64}
    (h : 8 ≤ (b - a).toNat ∧ (b - a).toNat + 8 ≤ 2 ^ 64) :
    loadD (storeD m a v) b = loadD m b := by
  apply loadD_congr
  intro i hi
  have hge : ¬(b + i - a).toNat < 8 := by
    bv_omega
  rw [storeD, if_neg hge]

/-! ## The hart -/

structure Hart where
  x : BitVec 5 → BitVec 64
  mem : BitVec 64 → BitVec 8
  csr : Csr 64
  pc : BitVec 64

/-- The instructions of the handler; `call` and `bne` take the place of their labels. -/
inductive Instr where
  | csrrw (rd : BitVec 5) (csr : BitVec 12) (rs1 : BitVec 5)
  | csrr (rd : BitVec 5) (csr : BitVec 12)
  | csrw (csr : BitVec 12) (rs1 : BitVec 5)
  | sd (rs2 : BitVec 5) (offset : BitVec 64) (rs1 : BitVec 5)
  | ld (rd : BitVec 5) (offset : BitVec 64) (rs1 : BitVec 5)
  | la (rd : BitVec 5) (symbol : BitVec 64)
  | li (rd : BitVec 5) (imm : BitVec 64)
  | mv (rd rs1 : BitVec 5)
  | addi (rd rs1 : BitVec 5) (imm : BitVec 64)
  | bne (rs1 rs2 : BitVec 5) (skipped : ℕ)
  | call
  | mret

namespace Hart

variable (h : Hart)

def reg (r : BitVec 5) : BitVec 64 := if r = 0 then 0 else h.x r

def setReg (r : BitVec 5) (v : BitVec 64) : Hart :=
  if r = 0 then h else { h with x := Function.update h.x r v }

/-- One access to the CSR file.  The three registers the handler uses are neither counters nor
interrupt lines. -/
def csrAccess (fn : CsrFn) (csr : BitVec 12) (rd : BitVec 5) (wdata : BitVec 64) : Hart :=
  let k := Counters.reset 64
  let p : Pending := { msip := false, timer := false, ext := false }
  { h with csr := h.csr.next k p (CsrOp.access fn csr wdata).input }.setReg rd (h.csr.rdata k p csr)

/-- What an instruction that goes on to the next one does. -/
def exec : Instr → Hart
  | .csrrw rd csr rs1 => h.csrAccess .write csr rd (h.reg rs1)
  | .csrr rd csr => h.csrAccess .set csr rd 0
  | .csrw csr rs1 => h.csrAccess .write csr 0 (h.reg rs1)
  | .sd rs2 offset rs1 => { h with mem := storeD h.mem (h.reg rs1 + offset) (h.reg rs2) }
  | .ld rd offset rs1 => h.setReg rd (loadD h.mem (h.reg rs1 + offset))
  | .la rd symbol => h.setReg rd symbol
  | .li rd imm => h.setReg rd imm
  | .mv rd rs1 => h.setReg rd (h.reg rs1)
  | .addi rd rs1 imm => h.setReg rd (h.reg rs1 + imm)
  | .bne .. | .call | .mret => h

/-- `mret`. -/
def mret : Hart :=
  { h with
    csr := h.csr.next (Counters.reset 64) { msip := false, timer := false, ext := false }
      (CsrOp.mret (w := 64)).input
    pc := h.csr.mepc }

/-- A trap out of the interrupted code, the first instruction of the handler next. -/
def trap (isInterrupt : Bool) (cause : BitVec 31) : Hart :=
  let c := h.csr.next (Counters.reset 64) { msip := false, timer := false, ext := false }
    (CsrOp.trap isInterrupt cause h.pc 0).input
  { h with csr := c, pc := if h.csr.privState.toS isInterrupt cause then c.stvec else c.mtvec }

end Hart

/-- Code from some instruction on, the next `skip` of them jumped over; `callee` is what the called
function makes of the hart, if it returns. -/
def runCode (callee : Hart → Option Hart) : ℕ → List Instr → Hart → Option Hart
  | _, [], _ => none
  | skip + 1, _ :: code, h => runCode callee skip code h
  | 0, .bne rs1 rs2 skipped :: code, h =>
    runCode callee (if h.reg rs1 ≠ h.reg rs2 then skipped else 0) code h
  | 0, .call :: code, h => (callee h).bind (runCode callee 0 code)
  | 0, .mret :: _, h => some h.mret
  | 0, i :: code, h => runCode callee 0 code (h.exec i)

end RvPipeline
