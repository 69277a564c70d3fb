import RvPipeline.Design.Periph
import RvPipeline.Firmware.SbiCalls
import RvPipeline.Trap.CsrOps

/-!
# The forwarded timer

S-mode code, the firmware and the timer of an RV64 board, one event after another: the firmware
does its accesses one at a time, and the clock may tick between any two of them.  The pending bit
of the supervisor timer and `mtimecmp` tell together whether the last request has come due.
-/

namespace RvPipeline

open Sbi

/-! ## The board -/

/-- The CSR file and the timer, and the history of the requests. -/
structure Board where
  csr : Csr 64
  timer : Timer
  /-- what the handler has still to do, outside of S-mode -/
  todo : Option (List Access)
  /-- the target of the last `SET_TIMER` -/
  target : BitVec 64
  /-- `mtime` when the last machine-timer trap was taken -/
  takenAt : BitVec 64
  /-- `takenAt` whenever `STIP` has gone up since the last request -/
  raises : List (BitVec 64)

inductive Event where
  | tick
  | smode (csr : Csr 64)
  | ecall (pc : BitVec 64) (regs : Regs) (answers : List (BitVec 64))
  | timerTrap (pc : BitVec 64) (regs : Regs) (answers : List (BitVec 64))
  | access (ext : Bool)
  | mret

/-- A cycle in which the bus does not address the timer. -/
def busIdle : BusReq 64 :=
  { cyc := false, stb := false, we := false, addr := 0, data := 0, funct3 := 0 }

/-- `sd` to `CLINT_MTIMECMP`. -/
def writeMtimecmp (v : BitVec 64) : BusReq 64 :=
  { cyc := true, stb := true, we := true, addr := BitVec.ofNat 64 timerBase + 0x4000#64, data := v
    funct3 := 0b011#3 }

/-- A `SET_TIMER` of either version. -/
def SetsTimer (regs : Regs) : Prop :=
  regs regA7 = eidSetTimer ∨ regs regA7 = eidTime ∧ regs regA6 = 0

instance : DecidablePred SetsTimer := fun _ ↦ inferInstanceAs (Decidable (_ ∨ _))

namespace Board

variable (b : Board)

def lines (ext : Bool) : Pending :=
  { msip := b.timer.msipPending, timer := b.timer.pending, ext := ext }

def csrNext (ext : Bool) (op : CsrOp 64) : Csr 64 :=
  b.csr.next (Counters.reset 64) (b.lines ext) op.input

/-- An access to the CSR file or to the timer. -/
def perform (ext : Bool) : Access → Board
  | .mtimecmp v => { b with timer := b.timer.step (writeMtimecmp v) }
  | .mipSet mask => { b with csr := b.csrNext ext (.access .set csrAddrMip mask) }
  | .mipClear mask => { b with csr := b.csrNext ext (.access .clear csrAddrMip mask) }
  | .uartRead _ | .uartWrite .. | .load _ => b

/-- Notes that `STIP` has gone up. -/
def note (b b' : Board) : Board :=
  if !b.csr.mipStip && b'.csr.mipStip then { b' with raises := b'.raises ++ [b'.takenAt] } else b'

/-- A trap into the firmware, which is one that is not delegated. -/
def enter (specVersion : BitVec 64) (isInterrupt : Bool) (cause : BitVec 31) (pc : BitVec 64)
    (regs : Regs) (answers : List (BitVec 64)) : Option Board :=
  if b.todo.isSome || b.csr.privState.toS isInterrupt cause then none
  else
    let csr := b.csrNext false (.trap isInterrupt cause pc 0)
    (outcome (dispatch specVersion csr.mcause regs) answers).map fun r ↦
      { b with csr := csr, todo := some r.2 }

/-- One event, where it can happen. -/
def step (specVersion : BitVec 64) : Event → Option Board
  | .tick => some { b with timer := b.timer.step busIdle }
  -- S-mode code leaves `sip.STIP` alone
  | .smode csr =>
    if b.todo.isNone && csr.mipStip == b.csr.mipStip then some { b with csr := csr } else none
  | .ecall pc regs answers =>
    if b.csr.privMode = privS then
      (b.enter specVersion false 9 pc regs answers).map fun b' ↦
        if SetsTimer regs then { b' with target := regs regA0, raises := [] } else b'
    else none
  | .timerTrap pc regs answers =>
    if b.timer.pending then
      (b.enter specVersion true 7 pc regs answers).map fun b' ↦ { b' with takenAt := b.timer.mtime }
    else none
  | .access ext =>
    match b.todo with
    | some (a :: todo) => some { note b (b.perform ext a) with todo := some todo }
    | _ => none
  | .mret =>
    if b.todo = some [] then some { b with csr := b.csrNext false .mret, todo := none } else none

def run (specVersion : BitVec 64) (events : List Event) (b : Board) : Option Board :=
  events.foldlM (fun b e ↦ b.step specVersion e) b

/-! ## The invariant -/

/-- The request is armed, or it has come due and `STIP` has gone up once since. -/
def Settled : Prop :=
  b.csr.mipStip = false ∧ b.timer.mtimecmp = b.target ∧ b.raises = [] ∨
    b.csr.mipStip = true ∧ b.timer.mtimecmp = -1 ∧ b.target ≤ b.takenAt ∧
      ∃ t, b.raises = [t] ∧ b.target ≤ t

/-- A machine-timer trap for a request that has come due, whether or not it had before. -/
def Due : Prop :=
  b.target ≤ b.takenAt ∧
    (b.csr.mipStip = false ∧ b.raises = [] ∨
      b.csr.mipStip = true ∧ ∃ t, b.raises = [t] ∧ b.target ≤ t)

end Board

/-- The access is neither to `mtimecmp` nor to `STIP`. -/
def Sbi.Access.Harmless : Access → Prop
  | .mtimecmp _ => False
  | .mipSet mask | .mipClear mask => mask.getLsbD mipStipBit = false
  | .uartRead _ | .uartWrite .. | .load _ => True

namespace Board

variable (b : Board)

/-- The accesses still to be done fit what has been done. -/
def Inv : Prop :=
  match b.todo with
  | none => b.Settled
  | some todo =>
    todo = [.mtimecmp b.target, .mipClear (BitVec.twoPow 64 mipStipBit)] ∧ b.raises = [] ∨
    todo = [.mipClear (BitVec.twoPow 64 mipStipBit)] ∧ b.timer.mtimecmp = b.target ∧ b.raises = [] ∨
    todo = [.mtimecmp (-1), .mipSet (BitVec.twoPow 64 mipStipBit)] ∧ b.Due ∨
    todo = [.mipSet (BitVec.twoPow 64 mipStipBit)] ∧ b.timer.mtimecmp = -1 ∧ b.Due ∨
    (∀ a ∈ todo, a.Harmless) ∧ b.Settled

end Board

/-! ## What the handler does -/

namespace Sbi

/-- Between the two states of the firmware lie harmless accesses alone. -/
def Quiet (s s' : Volatiles) : Prop :=
  ∃ l, s'.accesses = s.accesses ++ l ∧ ∀ a ∈ l, a.Harmless

section Quiet

variable {s s' s'' : Volatiles}

theorem Quiet.refl (s : Volatiles) : Quiet s s := ⟨[], by simp, by simp⟩

theorem Quiet.trans (h : Quiet s s') (h' : Quiet s' s'') : Quiet s s'' := by
  obtain ⟨l, hl, hharm⟩ := h
  obtain ⟨l', hl', hharm'⟩ := h'
  refine ⟨l ++ l', by rw [hl', hl, List.append_assoc], fun a ha ↦ ?_⟩
  rcases List.mem_append.mp ha with ha | ha
  · exact hharm a ha
  · exact hharm' a ha

theorem quiet_access {a : Access} (ha : a.Harmless) {u : Unit} (h : access a s = some (u, s')) :
    Quiet s s' := by
  cases h
  exact ⟨[a], rfl, by simpa using ha⟩

theorem quiet_read {a : Access} (ha : a.Harmless) {v : BitVec 64} (h : read a s = some (v, s')) :
    Quiet s s' := by
  obtain ⟨answers, accesses⟩ := s
  cases answers with
  | nil => cases h
  | cons v answers =>
    cases h
    exact ⟨[a], rfl, by simpa using ha⟩

theorem quiet_uartReg {off : BitVec 64} {v : BitVec 32} (h : uartReg off s = some (v, s')) :
    Quiet s s' := by
  obtain ⟨p, hp, hret⟩ := firmware_bind h
  cases hret
  exact quiet_read (a := .uartRead off) trivial hp

theorem quiet_awaitThre {answers : List (BitVec 64)} {accesses : List Access}
    (h : awaitThre answers accesses = some s') :
    Quiet { answers := answers, accesses := accesses } s' := by
  induction answers generalizing accesses with
  | nil => cases h
  | cons v answers ih =>
    have hread : Quiet { answers := v :: answers, accesses := accesses }
        { answers := answers, accesses := accesses ++ [.uartRead uartLsr] } :=
      ⟨[.uartRead uartLsr], rfl, by simp [Access.Harmless]⟩
    simp only [awaitThre] at h
    split_ifs at h with hthre
    · cases h
      exact hread
    · exact hread.trans (ih h)

theorem quiet_uartPutchar {c : BitVec 8} {u : Unit} (h : uartPutchar c s = some (u, s')) :
    Quiet s s' := by
  obtain ⟨p, hp, hwrite⟩ := firmware_bind h
  obtain ⟨s₁, hawait, hs₁⟩ := Option.map_eq_some_iff.mp hp
  cases hs₁
  exact (quiet_awaitThre hawait).trans
    (quiet_access (a := .uartWrite uartThrRbr (c.setWidth 32)) trivial hwrite)

theorem quiet_uartGetchar {c : BitVec 32} (h : uartGetchar s = some (c, s')) : Quiet s s' := by
  obtain ⟨p, hlsr, h⟩ := firmware_bind h
  refine (quiet_uartReg hlsr).trans ?_
  cases hdr : p.1.getLsbD uartLsrDr with
  | false =>
    simp only [hdr, Bool.not_false, if_true] at h
    cases h
    exact Quiet.refl _
  | true =>
    simp only [hdr, Bool.not_true, Bool.false_eq_true, if_false] at h
    obtain ⟨q, hrbr, hret⟩ := firmware_bind h
    cases hret
    exact quiet_uartReg hrbr

theorem ssip_harmless :
    (Access.mipSet (BitVec.twoPow 64 mipSsipBit)).Harmless ∧
      (Access.mipClear (BitVec.twoPow 64 mipSsipBit)).Harmless := by
  constructor <;> exact (by decide : (BitVec.twoPow 64 mipSsipBit).getLsbD mipStipBit = false)

variable {specVersion eid fid a0 a1 : BitVec 64} {r : BitVec 64 × BitVec 64}

/-- But for `SET_TIMER` no call reaches `mtimecmp` or `STIP`. -/
theorem quiet_call (hset : ¬(eid = eidSetTimer ∨ eid = eidTime ∧ fid = 0))
    (h : call specVersion eid fid a0 a1 s = some (r, s')) : Quiet s s' := by
  by_cases hsup : Supported eid fid
  · rcases hsup with hlegacy | ⟨rfl, hfid⟩ | hnot | ⟨rfl, rfl⟩ | ⟨rfl, hfid⟩
    · rcases legacy_cases hlegacy with rfl | rfl | rfl | rfl | rfl | rfl | rfl | rfl | rfl
      · exact absurd (.inl rfl) hset
      · obtain ⟨p, hput, hret⟩ := firmware_bind h
        cases hret
        exact quiet_uartPutchar hput
      · obtain ⟨p, hget, hret⟩ := firmware_bind h
        cases hret
        exact quiet_uartGetchar hget
      · obtain ⟨p, hclear, hret⟩ := firmware_bind h
        cases hret
        exact quiet_access ssip_harmless.2 hclear
      · obtain ⟨p, hread, h⟩ := firmware_bind h
        refine (quiet_read (a := .load a0) trivial hread).trans ?_
        cases hmask : p.1.getLsbD 0 with
        | false =>
          simp only [hmask] at h
          cases h
          exact Quiet.refl _
        | true =>
          simp only [hmask] at h
          obtain ⟨q, hmip, hret⟩ := firmware_bind h
          cases hret
          exact quiet_access ssip_harmless.1 hmip
      · cases h
        exact Quiet.refl _
      · cases h
        exact Quiet.refl _
      · cases h
        exact Quiet.refl _
      · cases h
    · cases h
      exact Quiet.refl _
    · exact absurd (.inr hnot) hset
    · have hipi : call specVersion eidIpi 0 a0 a1 s = (do
          if a0.getLsbD 0 ∧ a1 = 0 then access (.mipSet (BitVec.twoPow 64 mipSsipBit))
          return (success, 0) : Firmware (BitVec 64 × BitVec 64)) s := rfl
      rw [hipi] at h
      by_cases hself : a0.getLsbD 0 = true ∧ a1 = 0
      · simp only [hself, and_self, if_true] at h
        obtain ⟨q, hmip, hret⟩ := firmware_bind h
        cases hret
        exact quiet_access ssip_harmless.1 hmip
      · simp only [hself, if_false] at h
        cases h
        exact Quiet.refl _
    · have hcases : fid = 0#64 ∨ fid = 1#64 ∨ fid = 2#64 := by bv_omega
      rcases hcases with rfl | rfl | rfl <;> cases h <;> exact Quiet.refl _
  · rw [call_unsupported hsup] at h
    cases h
    exact Quiet.refl _

end Quiet

section Dispatch

variable {specVersion : BitVec 64} {regs regs' : Regs} {answers : List (BitVec 64)}
  {accesses : List Access}

theorem setTimer_accesses (hset : SetsTimer regs)
    (h : outcome (dispatch specVersion mcauseEcallFromS regs) answers = some (regs', accesses)) :
    accesses = [.mtimecmp (regs regA0), .mipClear (BitVec.twoPow 64 mipStipBit)] := by
  obtain ⟨err, val, s', hcall, -, rfl⟩ := dispatchEcall_eq h
  rcases hset with heid | ⟨heid, hfid⟩
  · rw [heid] at hcall
    cases hcall
    rfl
  · rw [heid, hfid] at hcall
    cases hcall
    rfl

theorem ecall_accesses (hset : ¬SetsTimer regs)
    (h : outcome (dispatch specVersion mcauseEcallFromS regs) answers = some (regs', accesses)) :
    ∀ a ∈ accesses, a.Harmless := by
  obtain ⟨err, val, s', hcall, -, rfl⟩ := dispatchEcall_eq h
  obtain ⟨l, hl, hharm⟩ := quiet_call hset hcall
  rw [hl]
  exact hharm

theorem timer_accesses
    (h : outcome (dispatch specVersion mcauseIntMachineTimer regs) answers = some (regs', accesses)) :
    accesses = [.mtimecmp (-1), .mipSet (BitVec.twoPow 64 mipStipBit)] := by
  cases h
  rfl

end Dispatch

end Sbi

/-! ## What an event does -/

namespace Board

variable {b b' : Board} {specVersion : BitVec 64}

/-- A CSR instruction on `mip` acts on the software bit alone. -/
theorem mipStip_access (ext : Bool) (fn : CsrFn) (mask : BitVec 64) :
    (b.csrNext ext (.access fn csrAddrMip mask)).mipStip =
      fn.bit b.csr.mipStip (mask.getLsbD mipStipBit) := by
  have hmip := congrFun (congrArg PrivState.mip (Csr.privState_access (c := b.csr)
    (k := Counters.reset 64) (p := b.lines ext) fn csrAddrMip mask)) mieStieBit
  exact hmip

theorem perform_mtimecmp (ext : Bool) (v : BitVec 64) :
    (b.perform ext (.mtimecmp v)).timer.mtimecmp = v := by
  have hoff : (writeMtimecmp v).addr.setWidth 16 = clintOffMtimecmp := by
    change (BitVec.ofNat 64 timerBase + 0x4000#64).setWidth 16 = clintOffMtimecmp
    decide
  have hwe : ((writeMtimecmp v).cyc && (writeMtimecmp v).stb && (writeMtimecmp v).we) = true := rfl
  rw [perform]
  simp [Timer.step, hoff, hwe]
  rfl

theorem perform_harmless {a : Access} (ha : a.Harmless) (ext : Bool) :
    (b.perform ext a).csr.mipStip = b.csr.mipStip ∧ (b.perform ext a).timer = b.timer := by
  cases a with
  | mtimecmp v => cases ha
  | mipSet mask =>
    have hmask : mask.getLsbD mipStipBit = false := ha
    exact ⟨by rw [perform, mipStip_access, hmask]; simp [CsrFn.bit], rfl⟩
  | mipClear mask =>
    have hmask : mask.getLsbD mipStipBit = false := ha
    exact ⟨by rw [perform, mipStip_access, hmask]; simp [CsrFn.bit], rfl⟩
  | uartRead off => exact ⟨rfl, rfl⟩
  | uartWrite off v => exact ⟨rfl, rfl⟩
  | load addr => exact ⟨rfl, rfl⟩

theorem perform_history (ext : Bool) (a : Access) :
    (b.perform ext a).target = b.target ∧ (b.perform ext a).takenAt = b.takenAt ∧
      (b.perform ext a).raises = b.raises := by
  cases a <;> exact ⟨rfl, rfl, rfl⟩

/-- An access of the handler, and the note of it. -/
structure Accessed (b : Board) (ext : Bool) (a : Access) (todo : List Access) (b' : Board) : Prop where
  todo : b'.todo = some todo
  csr : b'.csr = (b.perform ext a).csr
  timer : b'.timer = (b.perform ext a).timer
  target : b'.target = b.target
  takenAt : b'.takenAt = b.takenAt
  raises : b'.raises =
    if !b.csr.mipStip && (b.perform ext a).csr.mipStip then b.raises ++ [b.takenAt] else b.raises

theorem accessed_of_step {ext : Bool} {a : Access} {todo : List Access}
    (htodo : b.todo = some (a :: todo)) (hstep : b.step specVersion (.access ext) = some b') :
    Accessed b ext a todo b' := by
  obtain ⟨htarget, htaken, hraises⟩ := perform_history (b := b) ext a
  rw [step, htodo] at hstep
  cases hstep
  rw [note]
  split_ifs with hrise
  · exact ⟨rfl, rfl, rfl, htarget, htaken, by rw [hraises, htaken, if_pos hrise]⟩
  · exact ⟨rfl, rfl, rfl, htarget, htaken, by rw [hraises, if_neg hrise]⟩

/-- A trap into the firmware tells it its cause, and leaves the pending bits. -/
theorem enter_eq {isInterrupt : Bool} {cause : BitVec 31} {pc : BitVec 64} {regs : Regs}
    {answers : List (BitVec 64)} (h : b.enter specVersion isInterrupt cause pc regs answers = some b') :
    b.todo = none ∧ ∃ csr regs' accesses, csr.mipStip = b.csr.mipStip ∧
      outcome (dispatch specVersion (Csr.causeWord isInterrupt (cause.setWidth 64)) regs) answers =
        some (regs', accesses) ∧ b' = { b with csr := csr, todo := some accesses } := by
  rw [enter] at h
  split_ifs at h with hcond
  rw [Bool.or_eq_true, not_or, Bool.not_eq_true, Bool.not_eq_true, Option.isSome_eq_false_iff,
    Option.isNone_iff_eq_none] at hcond
  obtain ⟨⟨regs', accesses⟩, hout, rfl⟩ := Option.map_eq_some_iff.mp h
  have htarget := (Csr.trapTargetIsS_input (c := b.csr) (by decide) isInterrupt cause pc 0).trans
    hcond.2
  have hmcause : (b.csrNext false (.trap isInterrupt cause pc 0)).mcause =
      if !b.csr.trapTargetIsS (CsrOp.trap isInterrupt cause pc 0).input then
        Csr.causeWord isInterrupt (cause.setWidth 64) else b.csr.mcause := rfl
  rw [hmcause, htarget] at hout
  exact ⟨hcond.1, b.csrNext false (.trap isInterrupt cause pc 0), regs', accesses, rfl, hout, rfl⟩

/-- The invariant reads six things. -/
theorem Inv.of_eq (h : b.Inv) (htodo : b'.todo = b.todo) (htarget : b'.target = b.target)
    (htaken : b'.takenAt = b.takenAt) (hraises : b'.raises = b.raises)
    (hstip : b'.csr.mipStip = b.csr.mipStip)
    (hcmp : b'.timer.mtimecmp = b.timer.mtimecmp) : b'.Inv := by
  simpa only [Inv, Settled, Due, htodo, htarget, htaken, hraises, hstip, hcmp] using h

theorem settled_of_inv (h : b.Inv) (htodo : b.todo = none) : b.Settled := by
  rwa [Inv, htodo] at h

theorem ecall_eq {pc : BitVec 64} {regs : Regs} {answers : List (BitVec 64)}
    (hstep : b.step specVersion (.ecall pc regs answers) = some b') :
    b.todo = none ∧ ∃ csr regs' accesses, csr.mipStip = b.csr.mipStip ∧
      outcome (dispatch specVersion Sbi.mcauseEcallFromS regs) answers = some (regs', accesses) ∧
        b' = if SetsTimer regs then
          { b with csr := csr, todo := some accesses, target := regs regA0, raises := [] }
          else { b with csr := csr, todo := some accesses } := by
  have hpriv : b.csr.privMode = privS := by
    by_contra hne
    rw [step, if_neg hne] at hstep
    cases hstep
  rw [step, if_pos hpriv] at hstep
  obtain ⟨b₁, henter, rfl⟩ := Option.map_eq_some_iff.mp hstep
  obtain ⟨htodo, csr, regs', accesses, hstip, hout, rfl⟩ := enter_eq henter
  have hcause : Csr.causeWord false ((9 : BitVec 31).setWidth 64) = Sbi.mcauseEcallFromS := by decide
  rw [hcause] at hout
  exact ⟨htodo, csr, regs', accesses, hstip, hout, rfl⟩

/-- A request starts over, whatever was before. -/
theorem inv_setTimer {pc : BitVec 64} {regs : Regs} {answers : List (BitVec 64)}
    (hset : SetsTimer regs) (hstep : b.step specVersion (.ecall pc regs answers) = some b') :
    b'.Inv := by
  obtain ⟨-, csr, regs', accesses, -, hout, rfl⟩ := ecall_eq hstep
  rw [if_pos hset]
  exact .inl ⟨setTimer_accesses hset hout, rfl⟩

theorem inv_ecall {pc : BitVec 64} {regs : Regs} {answers : List (BitVec 64)} (h : b.Inv)
    (hstep : b.step specVersion (.ecall pc regs answers) = some b') : b'.Inv := by
  by_cases hset : SetsTimer regs
  · exact inv_setTimer hset hstep
  · obtain ⟨htodo, csr, regs', accesses, hstip, hout, rfl⟩ := ecall_eq hstep
    rw [if_neg hset]
    have hsettled := settled_of_inv h htodo
    refine .inr (.inr (.inr (.inr ⟨ecall_accesses hset hout, ?_⟩)))
    simpa only [Settled, hstip] using hsettled

theorem inv_timerTrap {pc : BitVec 64} {regs : Regs} {answers : List (BitVec 64)} (h : b.Inv)
    (hstep : b.step specVersion (.timerTrap pc regs answers) = some b') : b'.Inv := by
  rw [step] at hstep
  split_ifs at hstep with hpending
  obtain ⟨b₁, henter, rfl⟩ := Option.map_eq_some_iff.mp hstep
  obtain ⟨htodo, csr, regs', accesses, hstip, hout, rfl⟩ := enter_eq henter
  have hcause : Csr.causeWord true ((7 : BitVec 31).setWidth 64) = Sbi.mcauseIntMachineTimer := by decide
  rw [hcause] at hout
  have hle : b.timer.mtimecmp ≤ b.timer.mtime := by simpa [Timer.pending] using hpending
  refine .inr (.inr (.inl ⟨timer_accesses hout, ?_⟩))
  rcases settled_of_inv h htodo with ⟨hlow, hcmp, hraises⟩ | ⟨hhigh, hcmp, -, hraises⟩
  · exact ⟨hcmp ▸ hle, .inl ⟨hstip.trans hlow, hraises⟩⟩
  · -- the clock is at its end, past every target
    refine ⟨?_, .inr ⟨hstip.trans hhigh, hraises⟩⟩
    rw [hcmp] at hle
    change b.target ≤ b.timer.mtime
    bv_omega

/-- After `STIP` is set the request is settled; it has gone up unless it was up before. -/
theorem settled_of_raise {ext : Bool} (hcmp : b.timer.mtimecmp = -1) (hdue : b.Due)
    (hacc : Accessed b ext (.mipSet (BitVec.twoPow 64 mipStipBit)) [] b') : b'.Settled := by
  have hstip : (b.perform ext (.mipSet (BitVec.twoPow 64 mipStipBit))).csr.mipStip = true := by
    rw [perform, mipStip_access]
    exact Bool.or_true _
  have hraises := hacc.raises
  rw [hstip, Bool.and_true] at hraises
  refine .inr ⟨by rw [hacc.csr, hstip], by rw [hacc.timer]; exact hcmp,
    by rw [hacc.target, hacc.takenAt]; exact hdue.1, ?_⟩
  rcases hdue with ⟨hle, ⟨hlow, hnone⟩ | ⟨hhigh, t, hone, ht⟩⟩
  · refine ⟨b.takenAt, ?_, by rw [hacc.target]; exact hle⟩
    rw [hraises, hlow, hnone]
    rfl
  · refine ⟨t, ?_, by rw [hacc.target]; exact ht⟩
    rw [hraises, hhigh, hone]
    rfl

theorem inv_access {ext : Bool} (h : b.Inv)
    (hstep : b.step specVersion (.access ext) = some b') : b'.Inv := by
  obtain ⟨a, todo, htodo⟩ : ∃ a todo, b.todo = some (a :: todo) := by
    rw [step] at hstep
    split at hstep
    · exact ⟨_, _, ‹_›⟩
    · cases hstep
  have hacc := accessed_of_step htodo hstep
  have hsame : (b.perform ext a).csr.mipStip = b.csr.mipStip → b'.raises = b.raises := by
    intro hstip
    rw [hacc.raises, hstip]
    cases b.csr.mipStip <;> rfl
  rw [Inv, htodo] at h
  rw [Inv, hacc.todo]
  rcases h with ⟨heq, hraises⟩ | ⟨heq, hcmp, hraises⟩ | ⟨heq, hdue⟩ | ⟨heq, hcmp, hdue⟩ |
    ⟨hharm, hsettled⟩
  · obtain ⟨rfl, rfl⟩ := List.cons.inj heq
    refine .inr (.inl ⟨rfl, ?_, (hsame rfl).trans hraises⟩)
    rw [hacc.timer, hacc.target, perform_mtimecmp]
  · obtain ⟨rfl, rfl⟩ := List.cons.inj heq
    have hstip : (b.perform ext (.mipClear (BitVec.twoPow 64 mipStipBit))).csr.mipStip = false := by
      rw [perform, mipStip_access]
      exact Bool.and_false _
    refine .inr (.inr (.inr (.inr ⟨by simp, .inl ⟨?_, ?_, ?_⟩⟩)))
    · rw [hacc.csr, hstip]
    · rw [hacc.timer, hacc.target]
      exact hcmp
    · rw [hacc.raises, hstip, Bool.and_false]
      exact hraises
  · obtain ⟨rfl, rfl⟩ := List.cons.inj heq
    refine .inr (.inr (.inr (.inl ⟨rfl, ?_, ?_⟩)))
    · rw [hacc.timer, perform_mtimecmp]
    · have hstip : (b.perform ext (.mtimecmp (-1))).csr.mipStip = b.csr.mipStip := rfl
      simpa only [Due, hacc.csr, hacc.target, hacc.takenAt, hsame hstip, hstip] using hdue
  · obtain ⟨rfl, rfl⟩ := List.cons.inj heq
    exact .inr (.inr (.inr (.inr ⟨by simp, settled_of_raise hcmp hdue hacc⟩)))
  · obtain ⟨hstip, htimer⟩ := perform_harmless (b := b) (hharm a List.mem_cons_self) ext
    refine .inr (.inr (.inr (.inr ⟨fun x hx ↦ hharm x (List.mem_cons_of_mem _ hx), ?_⟩)))
    simpa only [Settled, hacc.csr, hacc.timer, hacc.target, hacc.takenAt, hsame hstip, hstip, htimer]
      using hsettled

theorem inv_step {e : Event} (h : b.Inv) (hstep : b.step specVersion e = some b') : b'.Inv := by
  cases e with
  | tick =>
    cases hstep
    exact h.of_eq rfl rfl rfl rfl rfl rfl
  | smode csr =>
    rw [step] at hstep
    split_ifs at hstep with hcond
    cases hstep
    rw [Bool.and_eq_true, beq_iff_eq] at hcond
    exact h.of_eq rfl rfl rfl rfl hcond.2 rfl
  | ecall pc regs answers => exact inv_ecall h hstep
  | timerTrap pc regs answers => exact inv_timerTrap h hstep
  | access ext => exact inv_access h hstep
  | mret =>
    rw [step] at hstep
    split_ifs at hstep with htodo
    cases hstep
    rw [Inv, htodo] at h
    have hsettled : b.Settled := by simpa using h
    exact hsettled

theorem inv_run {events : List Event} (h : b.Inv)
    (hrun : run specVersion events b = some b') : b'.Inv := by
  induction events generalizing b with
  | nil =>
    cases hrun
    exact h
  | cons e events ih =>
    rw [run, List.foldlM_cons] at hrun
    obtain ⟨b₁, hstep, hrun⟩ := Option.bind_eq_some_iff.mp hrun
    exact ih (inv_step h hstep) hrun

/-- Nowhere in the handler is a rise of `STIP` forgotten. -/
theorem raises_of_inv (h : b.Inv) : b.raises = [] ∨ ∃ t, b.raises = [t] ∧ b.target ≤ t := by
  have hsettled : b.Settled → b.raises = [] ∨ ∃ t, b.raises = [t] ∧ b.target ≤ t := by
    rintro (⟨-, -, hnone⟩ | ⟨-, -, -, hone⟩)
    · exact .inl hnone
    · exact .inr hone
  have hdue : b.Due → b.raises = [] ∨ ∃ t, b.raises = [t] ∧ b.target ≤ t := by
    rintro ⟨-, ⟨-, hnone⟩ | ⟨-, hone⟩⟩
    · exact .inl hnone
    · exact .inr hone
  cases htodo : b.todo with
  | none => exact hsettled (settled_of_inv h htodo)
  | some todo =>
    rw [Inv, htodo] at h
    rcases h with ⟨-, hnone⟩ | ⟨-, -, hnone⟩ | ⟨-, h⟩ | ⟨-, -, h⟩ | ⟨-, h⟩
    · exact .inl hnone
    · exact .inl hnone
    · exact hdue h
    · exact hdue h
    · exact hsettled h

end Board

/-- From the first `SET_TIMER` on, outside of the handler the request is armed with `STIP` low, or
`STIP` is high, `mtimecmp` out of reach and the clock has passed the target; `STIP` goes up at most
once for a request, and not before its time. -/
theorem forwarded_timer (specVersion : BitVec 64) {b b' : Board} {pc : BitVec 64} {regs : Regs}
    {answers : List (BitVec 64)} {events : List Event} (hset : SetsTimer regs)
    (hrun : Board.run specVersion (.ecall pc regs answers :: events) b = some b') :
    (b'.todo = none →
      b'.csr.mipStip = false ∧ b'.timer.mtimecmp = b'.target ∨
        b'.csr.mipStip = true ∧ b'.timer.mtimecmp = -1 ∧ b'.target ≤ b'.takenAt) ∧
    b'.raises.length ≤ 1 ∧ ∀ t ∈ b'.raises, b'.target ≤ t := by
  rw [Board.run, List.foldlM_cons] at hrun
  obtain ⟨b₁, hstep, hrun⟩ := Option.bind_eq_some_iff.mp hrun
  have hinv : b'.Inv := Board.inv_run (Board.inv_setTimer hset hstep) hrun
  refine ⟨fun htodo ↦ ?_, ?_⟩
  · rcases Board.settled_of_inv hinv htodo with ⟨hlow, hcmp, -⟩ | ⟨hhigh, hcmp, hle, -⟩
    · exact .inl ⟨hlow, hcmp⟩
    · exact .inr ⟨hhigh, hcmp, hle⟩
  · rcases Board.raises_of_inv hinv with hnone | ⟨t, hone, ht⟩
    · simp [hnone]
    · simp [hone, ht]

/-- A board in S-mode with everything else as after a reset. -/
def resetBoard : Board :=
  { csr := { Csr.reset 64 with privMode := privS }, timer := Timer.reset, todo := none
    target := 0, takenAt := 0, raises := [] }

/-- A request for the next tick, and the trap it leads to. -/
def timerEvents : List Event :=
  [.ecall 0x1000 (callRegs eidTime 0 1 0) [], .access false, .access false, .mret, .tick,
    .smode { Csr.reset 64 with privMode := privS }, .timerTrap 0x1004 (fun _ ↦ 0) [], .access false,
    .access false, .mret]

theorem forwarded_timer_fires :
    ∃ b', Board.run 0 timerEvents resetBoard = some b' ∧ b'.csr.mipStip = true ∧
      (b'.csr.mipStip = false ∧ b'.timer.mtimecmp = b'.target ∨
        b'.csr.mipStip = true ∧ b'.timer.mtimecmp = -1 ∧ b'.target ≤ b'.takenAt) := by
  refine ⟨_, rfl, by decide +kernel, ?_⟩
  exact (forwarded_timer 0 (.inr ⟨rfl, rfl⟩) (rfl : Board.run 0 timerEvents resetBoard = _)).1 rfl

end RvPipeline
