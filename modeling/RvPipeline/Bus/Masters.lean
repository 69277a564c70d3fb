import RvPipeline.Refine.Parked

/-!
# The two masters of the bus

If no load or store is in MEM while the walker is busy, every RAM access gets its own transaction,
walks or no walks; a load that is in MEM then takes a page-table entry for its data.
-/

namespace RvPipeline

variable {w k : ℕ} {P : Params} {s : State w k} {i : Inputs}

section Runs

variable (P) (s₀ : State w k) (ins : ℕ → Inputs)

/-- In every run in which no load or store is in MEM while the walker is busy, every load and
store to RAM gets its own bus transaction and no acknowledge changes hands. -/
theorem ownTransactions_of_walkExclusive (hmode : P.cacheMode = .none)
    (hlat : P.memLatencyD = 0) (hex : ∀ n, WalkExclusive (run P s₀ ins n)) :
    OwnTransactions P (run P s₀ ins) := by
  have hacc := fun n ↦ reg3_oneAccess (run_reachable P s₀ ins n)
  have hreq := fun n hop ↦ busReq_of_memOp (s := run P s₀ ins n) hmode (hacc n) (hex n) hop
  refine ⟨?_, ?_, ?_, ?_⟩
  · -- a store is written and acknowledged in the cycle it reaches MEM
    intro n hw hram _
    have hown := hreq n (by simp [memOp, hw])
    refine ⟨n, le_rfl, fun j hj hj' ↦ absurd hj' (by omega), hown, ?_⟩
    rw [lsuAck_of_ramOnly hlat (by rw [hown]; exact hram), hown]
    simp [RamPort.ack, RamPort.memWrite, ownRequest, hw]
  · -- a load leaves one cycle after a cycle that drove its read
    intro n hr hram hhold
    have hdone := memStallDone_of_load_leaves hmode hr hhold
    cases n with
    | zero => simp [run, reset] at hdone
    | succ n =>
      obtain ⟨hr', hhold', hreg3⟩ := load_of_step_memStallDone hmode hdone
      have hreg3' : (run P s₀ ins (n + 1)).reg3 = (run P s₀ ins n).reg3 := hreg3
      have hown := hreq n (by simp [memOp, hr'])
      have hown' := hreq (n + 1) (by simp [memOp, hr])
      have hram' : ramOnly P (run P s₀ ins n).reg3.aluOut = true := by rwa [hreg3'] at hram
      have hmem := step_ram_of_read (i := ins n) hown ((hacc n).read hr').1 hram'
      have hmem' : (run P s₀ ins (n + 1)).ram = _ := hmem
      have hbus : ramOnly P (busReq P (run P s₀ ins (n + 1))).addr = true := by
        rw [hown']
        exact hram
      refine ⟨n, Nat.lt_succ_self n, ?_, ?_, ?_, ?_⟩
      · intro j hj hj'
        obtain rfl : j = n := by omega
        exact ⟨hhold', hreg3'.symm⟩
      · rw [hown]
        simp [ownRequest, hreg3']
      · rw [lsuAck_of_ramOnly hlat hbus]
        simp [RamPort.ack, hmem']
      · rw [readData_of_ramOnly hlat hbus]
        simp [RamPort.readData, loadValue, hmem', hreg3']
  · intro n hbusy hpend
    by_cases hbusy' : (run P s₀ ins (n + 1)).ptw.busy = true
    · exact hex (n + 1) hbusy'
    · have hnone := memReadPending_of_walk_end (i := ins n) hmode hbusy
        (Bool.eq_false_of_not_eq_true hbusy')
      exact absurd (hnone.symm.trans hpend) Bool.false_ne_true
  · intro n hbusy hcyc _
    exact mCyc_of_lsuCyc (walkInv (run_reachable P s₀ ins n)).sane hbusy hcyc

end Runs

/-- Builds two-level tables in low RAM (data page 1 and code page 2, both onto page 0), enters
S-mode, loads, and calls back into M-mode, which turns translation off.  The walker serves the fetch
and then the load, which reaches MEM when it is done. -/
def walkedProgram : List (BitVec 32) :=
  [0x00100093,  -- addi x1, x0, 1
   0x00102023,  -- sw   x1, 0(x0)
   0x00700093,  -- addi x1, x0, 7
   0x00102223,  -- sw   x1, 4(x0)
   0x00900093,  -- addi x1, x0, 9
   0x00102423,  -- sw   x1, 8(x0)
   0x80000137,  -- lui  x2, 0x80000
   0x18011073,  -- csrw satp, x2
   0x05c00193,  -- addi x3, x0, 92
   0x30519073,  -- csrw mtvec, x3
   0x00001237,  -- lui  x4, 1
   0x80020213,  -- addi x4, x4, -2048
   0x30021073,  -- csrw mstatus, x4
   0x000022b7,  -- lui  x5, 2
   0x05028293,  -- addi x5, x5, 80
   0x34129073,  -- csrw mepc, x5
   0x00001337,  -- lui  x6, 1
   0x30200073,  -- mret
   0x00000013,  -- nop
   0x00000013,  -- nop
   0x00432383,  -- lw   x7, 4(x6)
   0x00000073,  -- ecall
   0x00000013,  -- nop
   0x18001073,  -- csrw satp, x0
   0x0000006f]  -- j    .

def walkedParams : Params := { insts := instsOfWords walkedProgram }

instance : Decidable (WalkExclusive s) :=
  inferInstanceAs (Decidable (s.ptw.busy = true → memOp s = false))

abbrev walkedRun (n : ℕ) : State 32 0 := run walkedParams default (fun _ ↦ {}) n

/-- In cycle 46 the core is empty and has come to the last instruction. -/
theorem walked_walkExclusive (n : ℕ) : WalkExclusive (walkedRun n) := by
  have hfirst : ∀ m < 46, WalkExclusive (walkedRun m) := by decide +kernel
  have hempty : Emptied (walkedRun 46) := by decide +kernel
  have hpark : (drainArch walkedParams (walkedRun 46)).AtPark walkedParams :=
    ⟨by decide +kernel, by decide +kernel, by decide +kernel, by decide +kernel⟩
  by_cases hn : n < 46
  · exact hfirst n hn
  · obtain ⟨a, ha⟩ := parked_run rfl rfl (parked_of_emptied rfl rfl hempty hpark) n
      (Nat.not_lt.mp hn)
    intro hbusy
    exact absurd (ha.sim.idle.busy.symm.trans hbusy) Bool.false_ne_true

/-- The walker is busy for the fetch of the load and for the load, which leaves MEM in cycle 41 with
its own word. -/
theorem ownTransactions_walked :
    (walkedRun 21).ptw.busy = true ∧ (walkedRun 31).ptw.busy = true ∧
      (walkedRun 41).reg3.memRead = true ∧ memHold walkedParams (walkedRun 41) = false ∧
      readData walkedParams (walkedRun 41) = 7#32 ∧ OwnTransactions walkedParams walkedRun :=
  ⟨by decide +kernel, by decide +kernel, by decide +kernel, by decide +kernel, by decide +kernel,
    ownTransactions_of_walkExclusive walkedParams default (fun _ ↦ {}) rfl rfl
      walked_walkExclusive⟩

/-! ## A load that takes a page-table entry -/

/-- Builds two-level tables in low RAM (data page 1 and code page 2, both onto page 0), enters
S-mode, flushes the TLB and loads: the walk for the next fetch starts as the load moves to
MEM. -/
def stolenAckProgram : List (BitVec 32) :=
  [0x00100093,  -- addi x1, x0, 1
   0x00102023,  -- sw   x1, 0(x0)
   0x00700093,  -- addi x1, x0, 7
   0x00102223,  -- sw   x1, 4(x0)
   0x00900093,  -- addi x1, x0, 9
   0x00102423,  -- sw   x1, 8(x0)
   0x80000137,  -- lui  x2, 0x80000
   0x18011073,  -- csrw satp, x2
   0x00001237,  -- lui  x4, 1
   0x80020213,  -- addi x4, x4, -2048
   0x30021073,  -- csrw mstatus, x4
   0x000022b7,  -- lui  x5, 2
   0x04028293,  -- addi x5, x5, 64
   0x34129073,  -- csrw mepc, x5
   0x00001337,  -- lui  x6, 1
   0x30200073,  -- mret
   0x12000073,  -- sfence.vma
   0x01032383,  -- lw   x7, 16(x6)
   0x00000013,  -- nop
   0x00000013]  -- nop

def stolenAckParams : Params := { insts := instsOfWords stolenAckProgram }

/-- The load leaves MEM in cycle 40 with the level-1 entry, 1, in place of the word 0. -/
theorem ownTransactions_fails :
    ¬ ∀ (P : Params) (s₀ : State 32 0) (ins : ℕ → Inputs), P.cacheMode = .none →
      P.memLatencyD = 0 → OwnTransactions P (run P s₀ ins) := by
  intro hall
  have hown := hall stolenAckParams default (fun _ ↦ {}) rfl rfl
  obtain ⟨m, -, -, -, -, hdata⟩ := hown.load 40 (by decide +kernel) (by decide +kernel)
    (by decide +kernel)
  have hgot : readData stolenAckParams (run stolenAckParams default (fun _ ↦ {}) 40 : State 32 0) =
      1#32 := by decide +kernel
  have hshould : loadValue (run stolenAckParams default (fun _ ↦ {}) 40 : State 32 0) = 0#32 := by
    decide +kernel
  exact absurd (hgot.symm.trans (hdata.trans hshould)) (by decide)

end RvPipeline
