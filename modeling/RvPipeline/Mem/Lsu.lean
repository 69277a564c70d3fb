import RvPipeline.Bus.Transaction

/-!
# The load/store unit on its own

A stream of accesses goes through `reg3` one after the other, each held there as long as
`mem_stall` is high, against the RAM directly.
-/

namespace RvPipeline

variable {w k : ℕ}

/-- What the instruction in `reg3` asks of the memory. -/
inductive MemOp (w : ℕ) where
  | load (addr : BitVec w) (funct3 : BitVec 3)
  | store (addr data : BitVec w) (funct3 : BitVec 3)
  | fence
  | none
  deriving DecidableEq

namespace MemOp

/-- `lsu_cyc`, `lsu_we` and the address and data that go with them. -/
def req : MemOp w → BusReq w
  | load addr funct3 =>
    { cyc := true, stb := true, we := false, addr := addr, data := 0, funct3 := funct3 }
  | store addr data funct3 =>
    { cyc := true, stb := true, we := true, addr := addr, data := data, funct3 := funct3 }
  | _ => idleReq

def isLoad : MemOp w → Bool
  | load _ _ => true
  | _ => false

end MemOp

/-! ## Without a cache -/

/-- `reg3` holds the access number `idx`. -/
structure Lsu (w : ℕ) where
  ram : RamPort w
  memStallDone : Bool
  idx : ℕ

namespace Lsu

variable (sizeBytes : ℕ) (ops : ℕ → MemOp w) (l : Lsu w)

def op : MemOp w := ops l.idx

/-- `mem_trigger`. -/
def trigger : Bool :=
  match l.op ops with
  | .load _ _ => true
  | .store _ _ _ => !l.ram.ack (l.op ops).req
  | _ => false

def stall : Bool := l.trigger ops && !l.memStallDone

/-- One clock edge. -/
def step : Lsu w :=
  { ram := l.ram.step sizeBytes (l.op ops).req
    memStallDone := l.stall ops && l.ram.ack (l.op ops).req
    idx := if l.stall ops then l.idx else l.idx + 1 }

def run (l₀ : Lsu w) : ℕ → Lsu w
  | 0 => l₀
  | n + 1 => (run l₀ n).step sizeBytes ops

/-- Access `j` leaves MEM in cycle `n`. -/
def Leaves (l₀ : Lsu w) (n j : ℕ) : Prop :=
  (run sizeBytes ops l₀ n).idx = j ∧ (run sizeBytes ops l₀ n).stall ops = false

/-- Reset, with the first access in MEM. -/
def start (ram : RamPort w) : Lsu w := { ram := ram, memStallDone := false, idx := 0 }

end Lsu

/-! ## The same unit in the core -/

/-- What the occupant of `reg3` asks for. -/
def Reg3.memOp (r : Reg3 w) (fence : Bool) : MemOp w :=
  if r.memRead then .load r.aluOut r.funct3
  else if r.memWrite then .store r.aluOut r.readData2 r.funct3
  else if fence then .fence else .none

/-- The same RAM, as far as anything can tell: what the read register holds only matters while a
read is being answered. -/
structure RamPort.Same (r r' : RamPort w) : Prop where
  dataMemory : r.dataMemory = r'.dataMemory
  memRead : r.memRead = r'.memRead
  memReadPending : r.memReadPending = r'.memReadPending
  read : r.memRead = true → r.rawWord = r'.rawWord ∧ r.funct3 = r'.funct3

theorem RamPort.Same.readData {r r' : RamPort w} (h : r.Same r') : r.readData = r'.readData := by
  unfold RamPort.readData
  rw [← h.memRead]
  by_cases hr : r.memRead = true
  · rw [if_pos hr, if_pos hr, (h.read hr).1, (h.read hr).2]
  · rw [if_neg hr, if_neg hr]

section Core

variable {P : Params} {s : State w k} {i : Inputs} {l : Lsu w} {ops : ℕ → MemOp w}

theorem RamPort.ack_load (r : RamPort w) (addr : BitVec w) (funct3 : BitVec 3) :
    r.ack (MemOp.load addr funct3).req = r.memReadPending := by
  simp [RamPort.ack, RamPort.memWrite, MemOp.req]

theorem RamPort.ack_store (r : RamPort w) (addr data : BitVec w) (funct3 : BitVec 3) :
    r.ack (MemOp.store addr data funct3).req = true := by
  simp [RamPort.ack, RamPort.memWrite, MemOp.req]

/-- A core without cache and added latency drives its RAM as the unit does, while the walker keeps
off the bus and every access is to RAM. -/
theorem Lsu.step_core (hmode : P.cacheMode = .none) (hlat : P.memLatencyD = 0)
    (hacc : s.reg3.OneAccess) (hamo : s.reg3.isAmo = false) (hbusy : s.ptw.busy = false)
    (hram : RvPipeline.memOp s = true → ramOnly P s.reg3.aluOut = true)
    (hop : l.op ops = s.reg3.memOp false) (hsame : l.ram.Same s.ram)
    (hdone : l.memStallDone = s.memStallDone) :
    l.stall ops = memHold P s ∧
      (l.step P.memSizeBytes ops).memStallDone = (RvPipeline.step P s i).memStallDone ∧
      (l.step P.memSizeBytes ops).ram.Same (RvPipeline.step P s i).ram := by
  have hbus : busReq P s = lsuReq s := busReq_of_not_busy hmode hbusy
  have hamoStall : amoStall s = false := by simp [amoStall, amoActive, hamo]
  by_cases hr : s.reg3.memRead = true
  · have hmem : RvPipeline.memOp s = true := by simp [RvPipeline.memOp, hr]
    have hw := (hacc.read hr).1
    have hown : busReq P s = ownRequest s := hbus.trans (lsuReq_of_memOp hacc hmem)
    have hop' : l.op ops = .load s.reg3.aluOut s.reg3.funct3 := by
      rw [hop, Reg3.memOp, if_pos hr]
    have hack : lsuAck P s = l.ram.memReadPending := by
      rw [lsuAck_of_ramOnly hlat (by rw [hown]; exact hram hmem), hown, hsame.memReadPending]
      simp [RamPort.ack, RamPort.memWrite, ownRequest, hw]
    have hstall : l.stall ops = memHold P s := by
      simp [stall, trigger, hop', memHold, memStall, memTrigger, hmode, hr, hamoStall, hdone]
    refine ⟨hstall, ?_, ?_⟩
    · have hhold : memHold P s = memStall P s := by simp [memHold, hamoStall]
      simp [step, RvPipeline.step, hstall, hhold, hop', RamPort.ack_load, memAccessReady, hmode,
        hack]
    · rw [step_ram_of_read hown hw (hram hmem)]
      constructor <;> simp [step, RamPort.step, hop', MemOp.req, RamPort.memWrite,
        RamPort.memReadReq, hsame.dataMemory]
  · have hr' : s.reg3.memRead = false := by simpa using hr
    by_cases hw : s.reg3.memWrite = true
    · have hmem : RvPipeline.memOp s = true := by simp [RvPipeline.memOp, hw]
      have hown : busReq P s = ownRequest s := hbus.trans (lsuReq_of_memOp hacc hmem)
      have hop' : l.op ops = .store s.reg3.aluOut s.reg3.readData2 s.reg3.funct3 := by
        rw [hop, Reg3.memOp, if_neg hr, if_pos hw]
      have hack : lsuAck P s = true := by
        rw [lsuAck_of_ramOnly hlat (by rw [hown]; exact hram hmem), hown]
        simp [RamPort.ack, RamPort.memWrite, ownRequest, hw]
      have hstall : l.stall ops = memHold P s := by
        simp [stall, trigger, hop', RamPort.ack_store, memHold, memStall, memTrigger, hmode, hr',
          hack, hamoStall]
      have hhold : memHold P s = false := by
        simp [memHold, memStall, memTrigger, hmode, hr', hack, hamoStall]
      refine ⟨hstall, ?_, ?_⟩
      · have hmemStall : memStall P s = false := by
          simp [memStall, memTrigger, hmode, hr', hack]
        simp [step, RvPipeline.step, hstall, hhold, hmemStall]
      · have hhit := hram hmem
        simp only [ramOnly, Bool.and_eq_true, Bool.not_eq_true'] at hhit
        constructor <;> simp [step, RvPipeline.step, RamPort.step, hop', MemOp.req, ramReq, ramHit,
          hown, ownRequest, BusReq.select, RamPort.memWrite, RamPort.memReadReq, hw, hhit,
          hsame.dataMemory]
    · have hw' : s.reg3.memWrite = false := by simpa using hw
      have hop' : l.op ops = .none := by
        rw [hop, Reg3.memOp, if_neg hr, if_neg hw]
        rfl
      have hcyc : lsuCyc s = false := by
        simp [lsuCyc, effMemRead, effMemWrite, amoActive, hamo, hr', hw']
      have hmemStall : memStall P s = false := by simp [memStall, memTrigger, hmode, hr', hw']
      refine ⟨?_, ?_, ?_⟩
      · simp [stall, trigger, hop', memHold, hmemStall, hamoStall]
      · simp [step, RvPipeline.step, stall, trigger, hop', hmemStall]
      · constructor <;> simp [step, RvPipeline.step, RamPort.step, hop', MemOp.req, idleReq, ramReq,
          hbus, lsuReq, hcyc, BusReq.select, RamPort.memWrite, RamPort.memReadReq,
          hsame.dataMemory]

end Core

end RvPipeline
