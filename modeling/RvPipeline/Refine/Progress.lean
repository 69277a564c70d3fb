import RvPipeline.Refine.Run
import Mathlib.Data.BitVec

/-!
# Progress

A safe run never stops: MEM is released again and again, the iterative units finish, a fetch
is answered, and an empty EX is filled.  So every action is followed by another, and what an
action writes is committed in the end.
-/

namespace RvPipeline

variable {w k : ℕ} {P : Params} {s : State w k} {a : Arch w} {i : Inputs}

/-! ## The memory latency wrapper -/

/-- A request the wrapper is serving has the model running. -/
theorem dmem_running (h : Reachable P s) :
    s.dmem.reqActive = true → s.dmem.model.busy = true ∨ s.dmem.model.done = true := by
  refine h.invariant
    (fun s ↦ s.dmem.reqActive = true → s.dmem.model.busy = true ∨ s.dmem.model.done = true) ?_ ?_
  · rintro _ ⟨s₀, rfl⟩ h
    exact absurd h Bool.false_ne_true
  · intro s i ih hact
    change (if dmemNewRequest P s then true
      else if s.dmem.model.done then false else s.dmem.reqActive) = true at hact
    change (s.dmem.model.step P.memLatencyD (dmemNewRequest P s)).busy = true ∨
      (s.dmem.model.step P.memLatencyD (dmemNewRequest P s)).done = true
    unfold LatencyModel.step
    cases hb : s.dmem.model.busy with
    | true =>
      simp only [Bool.not_true, Bool.and_false, Bool.false_eq_true, if_false, if_true]
      split_ifs
      · exact .inr rfl
      · exact .inl rfl
    | false =>
      cases hn : dmemNewRequest P s with
      | true => exact .inl rfl
      | false =>
        -- neither new nor busy: the request was answered, so it is not active any more
        rw [hn, if_neg Bool.false_ne_true] at hact
        split_ifs at hact with hd
        rcases ih hact with h1 | h1
        · rw [hb] at h1
          exact Bool.noConfusion h1
        · exact absurd h1 hd

/-- Cycles until the latency model reports. -/
def LatencyModel.cost (latency : ℕ) (m : LatencyModel) : ℕ :=
  if m.done then 0 else if m.busy then m.count + 1 else latency + 1

theorem LatencyModel.cost_step {latency : ℕ} {m : LatencyModel} {start : Bool}
    (hlat : latency ≠ 0) (hdone : m.done = false) (h : m.busy = true ∨ start = true) :
    (m.step latency start).cost latency < m.cost latency := by
  unfold LatencyModel.step LatencyModel.cost
  cases hb : m.busy with
  | true =>
    simp only [Bool.not_true, Bool.and_false, Bool.false_eq_true, if_false, if_true, hdone]
    by_cases hc : m.count = 0
    · simp [hc]
    · simp only [hc, if_false, Bool.false_eq_true, if_true]
      omega
  | false =>
    have hs : start = true := by simpa [hb] using h
    simp only [hs, Bool.not_false, Bool.and_self, if_true, Bool.false_eq_true, if_false, hdone]
    omega

/-- Cycles until MEM is released, at most. -/
def memCost (P : Params) (s : State w k) : ℕ :=
  if memHold P s then
    1 + (if P.memLatencyD = 0 then if s.ram.memReadPending then 0 else 1
      else s.dmem.model.cost P.memLatencyD)
  else 0

theorem memCost_of_free (h : memHold P s = false) : memCost P s = 0 := by simp [memCost, h]

section Held

variable (hmode : P.cacheMode = .none) (hreach : Reachable P s) (h : Sim P s a)
  (hsafe : Safe P s i) (hmem : memHold P s = true)

include h hmem

theorem Sim.stall_of_memHold : memStall P s = true ∧ s.memStallDone = false := by
  have hamo : amoStall s = false := by simp [amoStall, amoActive, h.amo.1]
  have hstall : memStall P s = true := by simpa [memHold, hamo] using hmem
  refine ⟨hstall, ?_⟩
  simp only [memStall, Bool.and_eq_true, Bool.not_eq_true'] at hstall
  exact hstall.2

include hmode

/-- A load that is acknowledged leaves in the next cycle. -/
theorem Sim.memHold_of_ack (hack : lsuAck P s = true) : memHold P (step P s i) = false := by
  obtain ⟨hstall, -⟩ := h.stall_of_memHold hmem
  have hdone : (step P s i).memStallDone = true := by
    change (memStall P s && memAccessReady P s) = true
    simp [hstall, memAccessReady, hmode, hack]
  have hreg3 := step_reg3_of_memHold (i := i) hmem
  simp [memHold, memStall, hdone, amoStall, amoActive, hreg3, h.amo.1]

include hsafe

/-- What holds MEM is an access to the RAM. -/
theorem Sim.ramOnly_of_memHold : ramOnly P s.reg3.aluOut = true ∧
    (s.reg3.memRead = false → s.reg3.memWrite = true ∧ lsuAck P s = false) := by
  obtain ⟨hstall, -⟩ := h.stall_of_memHold hmem
  have hbus := busReq_plain hmode h.idle h.amo.1
  simp only [memStall, memTrigger, hmode, Bool.and_eq_true, Bool.or_eq_true,
    Bool.not_eq_true'] at hstall
  rcases hstall.1 with hr | ⟨hw, hack⟩
  · refine ⟨hsafe.load hr, fun hno ↦ ?_⟩
    rw [hr] at hno
    exact Bool.noConfusion hno
  · refine ⟨?_, fun _ ↦ ⟨hw, hack⟩⟩
    -- a peripheral would have acknowledged the store
    have hmapped := hsafe.store hw
    have hop : memOp s = true := by simp [memOp, hw]
    simp only [lsuAck, wbSelect, List.foldl_cons, List.foldl_nil, timerHit, uartHit, ramHit,
      timerReq, uartReq, Timer.ack, BusReq.select, hbus, hop, Bool.true_and] at hack
    cases ht : wbHit timerBase timerSize s.reg3.aluOut with
    | true => simp [ht] at hack
    | false =>
      cases hu : wbHit uartBase uartSize s.reg3.aluOut with
      | true => simp [ht, hu] at hack
      | false => simpa [ramOnly, mapped, ht, hu] using hmapped

include hreach

theorem Sim.memCost_step : memCost P (step P s i) < memCost P s := by
  obtain ⟨hram, hstore⟩ := h.ramOnly_of_memHold hmode hsafe hmem
  have hbus := busReq_plain hmode h.idle h.amo.1
  have hop := memOp_of_memHold hmode h.amo.1 hmem
  have hack := (ram_of_ramOnly (P := P) (s := s) (by rw [hbus]; exact hram)).1
  have hhit : ramHit P s = true := by
    simp only [ramOnly, Bool.and_eq_true] at hram
    rw [ramHit, hbus]
    exact hram.1.1
  have hcost : memCost P s = 1 + (if P.memLatencyD = 0 then
      if s.ram.memReadPending then 0 else 1 else s.dmem.model.cost P.memLatencyD) := by
    rw [memCost, if_pos hmem]
  -- an acknowledged access leaves at once
  cases hyes : lsuAck P s with
  | true =>
    rw [memCost_of_free (h.memHold_of_ack hmode hmem hyes), hcost]
    omega
  | false =>
    rw [hyes] at hack
    have hle : memCost P (step P s i) ≤ 1 + (if P.memLatencyD = 0 then
        if (step P s i).ram.memReadPending then 0 else 1
        else (step P s i).dmem.model.cost P.memLatencyD) := by
      unfold memCost
      split_ifs <;> omega
    by_cases hlat : P.memLatencyD = 0
    · -- the read is on the bus, so the next cycle answers it
      rw [ramAck, if_pos hlat, ramAckRaw, RamPort.ack] at hack
      have hno := Bool.or_eq_false_iff.1 hack.symm
      have hpend : (step P s i).ram.memReadPending = true := by
        have hw : s.reg3.memWrite = false := by
          simpa [RamPort.memWrite, ramReq, BusReq.select, hhit, hbus, hop] using hno.1
        change RamPort.memReadReq (ramReq P s) = true
        simp [RamPort.memReadReq, ramReq, BusReq.select, hhit, hbus, hop, hw]
      rw [if_pos hlat, hpend, if_pos rfl] at hle
      rw [hcost, if_pos hlat, hno.2, if_neg Bool.false_ne_true]
      omega
    · rw [ramAck, if_neg hlat] at hack
      have hstart : s.dmem.model.busy = true ∨ dmemNewRequest P s = true := by
        by_contra hne
        rw [not_or] at hne
        have hact : s.dmem.reqActive = false := by
          by_contra hact
          rcases dmem_running hreach (by simpa using hact) with hb | hd
          · exact hne.1 hb
          · rw [hd] at hack
            exact Bool.noConfusion hack
        apply hne.2
        simp [dmemNewRequest, ramReq, BusReq.select, hhit, hbus, hop, hact]
      have hlt := LatencyModel.cost_step hlat hack.symm hstart
      rw [if_neg hlat] at hle
      rw [hcost, if_neg hlat]
      change memCost P (step P s i) ≤ 1 + (s.dmem.model.step P.memLatencyD
        (dmemNewRequest P s)).cost P.memLatencyD at hle
      omega

end Held

/-! ## The iterative units -/

/-- Cycles until a unit reports. -/
def unitCost {c : ℕ} (busy done : Bool) (count last : BitVec c) : ℕ :=
  if done then 0 else if busy then (last - count).toNat + 1 else 2 ^ c + 1

theorem toNat_sub_one {c : ℕ} {x : BitVec c} (h : x ≠ 0) : (x - 1).toNat < x.toNat := by
  have hpos : 0 < x.toNat := by
    by_contra hne
    exact h (BitVec.eq_of_toNat_eq (by simpa using hne))
  have hc : 1 < 2 ^ c := by
    have := x.isLt
    omega
  have hone : (1 : BitVec c).toNat = 1 := by
    simp only [BitVec.ofNat_eq_ofNat, BitVec.toNat_ofNat]
    exact Nat.mod_eq_of_lt hc
  rw [BitVec.toNat_sub_of_le]
  · omega
  · rw [BitVec.le_def, hone]
    exact hpos

theorem UnitStep.cost {c : ℕ} {start busy done busy' done' : Bool} {count count' last : BitVec c}
    (h : UnitStep start busy done busy' done' count count' last) (hstart : start = true)
    (hdone : done = false) :
    unitCost busy' done' count' last < unitCost busy done count last := by
  have hpow : 0 < 2 ^ c := Nat.two_pow_pos c
  unfold unitCost
  rw [hdone]
  cases hd : done' with
  | true =>
    simp only [if_true, Bool.false_eq_true, if_false]
    split_ifs <;> omega
  | false =>
    have hb' : busy' = true := by simpa [hd] using h.work hstart hdone
    simp only [Bool.false_eq_true, if_false, hb', if_true]
    cases hb : busy with
    | false =>
      have := (last - count').isLt
      simp only [Bool.false_eq_true, if_false]
      omega
    | true =>
      obtain ⟨-, hne, hcount⟩ : busy' = true ∧ count ≠ last ∧ count' = count + 1 := by
        simpa [hd] using h.counts hb
      have hlt := toNat_sub_one (x := last - count) fun hzero ↦ hne (sub_eq_zero.1 hzero).symm
      have heq : last - count' = last - count - 1 := by rw [hcount, sub_add_eq_sub_sub]
      rw [heq]
      simpa using hlt

theorem divCost_step (hd : s.reg2.isDivRem = true) (hdone : s.div.done = false) :
    unitCost (step P s i).div.busy (step P s i).div.done (step P s i).div.count
        (BitVec.ofNat _ (w - 1)) <
      unitCost s.div.busy s.div.done s.div.count (BitVec.ofNat _ (w - 1)) :=
  (Divider.unitStep _ _ _ _ _).cost hd hdone

theorem fdivCost_step (hd : s.reg2.isFpDiv = true) (hdone : s.fdiv.done = false) :
    unitCost (step P s i).fdiv.busy (step P s i).fdiv.done (step P s i).fdiv.count 50#6 <
      unitCost s.fdiv.busy s.fdiv.done s.fdiv.count 50#6 :=
  (Fp.FDivider.unitStep _ _ _ _ _).cost hd hdone

theorem fsqrtCost_step (hd : s.reg2.isFpSqrt = true) (hdone : s.fsqrt.done = false) :
    unitCost (step P s i).fsqrt.busy (step P s i).fsqrt.done (step P s i).fsqrt.count 25#5 <
      unitCost s.fsqrt.busy s.fsqrt.done s.fsqrt.count 25#5 :=
  (Fp.FSqrt.unitStep _ _ _ _).cost hd hdone

/-- What the instruction in WB will still add. -/
def wbLog (s : State w k) : Log w :=
  { x := xEntry s.reg4.regWrite s.reg4.writeToReg (writeDataWb s)
    f := fEntry s.reg4.fRegWrite s.reg4.writeToReg (writeDataWb s)
    m := []
    c := [] }

section Drain

variable (hmode : P.cacheMode = .none) (hreach : Reachable P s) (h : Sim P s a)

include hmode hreach h

theorem Sim.inFlight_le (hmem : memHold P s = false) :
    inFlight s ≤ cycleLog P s i ++ wbLog (step P s i) := by
  have hwb := writeDataWb_of_move (i := i) hmode h.amo hmem (h.load_of_leave hmode hreach hmem)
  have hreg4 := step_reg4_of_move (i := i) hmode hmem
  refine ⟨?_, ?_, ?_, ?_⟩ <;> simp [inFlight, cycleLog, wbLog, hmem, hwb, hreg4, Reg4.ofReg3]

omit hmode hreach in
theorem Sim.wbLog_le (hmem : memHold P s = true) :
    wbLog s ≤ cycleLog P s i ++ wbLog (step P s i) := by
  have hwb := writeDataWb_of_memHold (i := i) h.amo hmem
  have hreg4 := step_reg4_of_memHold (i := i) hmem
  refine ⟨?_, ?_, ?_, ?_⟩ <;> simp [cycleLog, wbLog, hmem, hwb, hreg4]

omit hmode hreach h in
theorem wbLog_le_cycleLog (hmem : memHold P s = false) : wbLog s ≤ cycleLog P s i := by
  refine ⟨?_, ?_, ?_, ?_⟩ <;> simp [cycleLog, wbLog, hmem]

end Drain

/-! ## Holds end -/

section Runs

variable {s₀ : State w k} {ins : ℕ → Inputs} (hmode : P.cacheMode = .none)
  (hsafe : ∀ n, Safe P (run P s₀ ins n) (ins n))

include hmode hsafe

theorem sim_always (n : ℕ) :
    Sim P (run P s₀ ins n) ((Arch.reset P s₀).runActions P (actions P s₀ ins n)) :=
  sim_run hmode n fun m _ ↦ hsafe m

/-- MEM is released again and again. -/
theorem exists_free (n : ℕ) : ∃ m, n ≤ m ∧ memHold P (run P s₀ ins m) = false := by
  apply exists_of_rank fun m ↦ memCost P (run P s₀ ins m)
  intro m _ hne
  exact (sim_always hmode hsafe m).memCost_step hmode (run_reachable P s₀ ins m) (hsafe m)
    (by simpa using hne)

/-- EX is released again and again. -/
theorem exists_moving (n : ℕ) :
    ∃ m, n ≤ m ∧ reg2Hold P (run P s₀ ins m) (ins m) = false := by
  by_contra hno
  push Not at hno
  have hhold : ∀ m, n ≤ m → reg2Hold P (run P s₀ ins m) (ins m) = true := by
    intro m hm
    simpa using hno m hm
  obtain ⟨m₁, hm₁, hfree₁⟩ := exists_free hmode hsafe n
  -- from here on EX waits for a unit alone
  have hfree : ∀ m, m₁ ≤ m → memHold P (run P s₀ ins m) = false := by
    intro m hm
    induction m, hm using Nat.le_induction with
    | base => exact hfree₁
    | succ m hm ih =>
      have hs := (sim_always hmode hsafe m).silent_of_stall (hsafe m) (hhold m (by omega)) ih
      exact memHold_of_silent hmode hs
  have hreg2 : ∀ m, m₁ ≤ m → (run P s₀ ins m).reg2 = (run P s₀ ins m₁).reg2 := by
    intro m hm
    induction m, hm using Nat.le_induction with
    | base => rfl
    | succ m hm ih => exact (step_reg2_of_hold (hhold m (by omega))).trans ih
  have hstall : ∀ m, m₁ ≤ m → divStall (run P s₀ ins m) = true ∨ fpStall (run P s₀ ins m) = true :=
    fun m hm ↦ (sim_always hmode hsafe m).stall_of_hold (hsafe m) (hhold m (by omega)) (hfree m hm)
  have hdec := reg2_decoded (run_reachable P s₀ ins m₁)
  by_cases hdiv : (run P s₀ ins m₁).reg2.isDivRem = true
  · obtain ⟨m, hm, hdone⟩ := exists_of_rank (p := fun m ↦ (run P s₀ ins m).div.done = true)
      (fun m ↦ unitCost (run P s₀ ins m).div.busy (run P s₀ ins m).div.done
        (run P s₀ ins m).div.count (BitVec.ofNat _ (w - 1))) m₁
      fun m hm hne ↦ divCost_step (by rw [hreg2 m hm, hdiv]) (by simpa using hne)
    have hnofp : (run P s₀ ins m₁).reg2.isFpDiv = false ∧
        (run P s₀ ins m₁).reg2.isFpSqrt = false := by
      constructor
      · by_contra hne
        rw [Reg2.isDivRem_of_fp hdec (.inl (by simpa using hne))] at hdiv
        exact Bool.noConfusion hdiv
      · by_contra hne
        rw [Reg2.isDivRem_of_fp hdec (.inr (by simpa using hne))] at hdiv
        exact Bool.noConfusion hdiv
    rcases hstall m hm with h | h
    · simp [divStall, hdone] at h
    · simp [fpStall, hreg2 m hm, hnofp] at h
  · by_cases hfdiv : (run P s₀ ins m₁).reg2.isFpDiv = true
    · obtain ⟨m, hm, hdone⟩ := exists_of_rank (p := fun m ↦ (run P s₀ ins m).fdiv.done = true)
        (fun m ↦ unitCost (run P s₀ ins m).fdiv.busy (run P s₀ ins m).fdiv.done
          (run P s₀ ins m).fdiv.count 50#6) m₁
        fun m hm hne ↦ fdivCost_step (by rw [hreg2 m hm, hfdiv]) (by simpa using hne)
      rcases hstall m hm with h | h
      · simp [divStall, hreg2 m hm, hdiv] at h
      · simp [fpStall, hreg2 m hm, hdone, Reg2.isFpSqrt_of_isFpDiv hfdiv] at h
    · have hfsqrt : (run P s₀ ins m₁).reg2.isFpSqrt = true := by
        rcases hstall m₁ le_rfl with h | h
        · simp [divStall, hdiv] at h
        · simp only [fpStall, Bool.or_eq_true, Bool.and_eq_true] at h
          rcases h with h | h
          · exact absurd h.1 hfdiv
          · exact h.1
      obtain ⟨m, hm, hdone⟩ := exists_of_rank (p := fun m ↦ (run P s₀ ins m).fsqrt.done = true)
        (fun m ↦ unitCost (run P s₀ ins m).fsqrt.busy (run P s₀ ins m).fsqrt.done
          (run P s₀ ins m).fsqrt.count 25#5) m₁
        fun m hm hne ↦ fsqrtCost_step (by rw [hreg2 m hm, hfsqrt]) (by simpa using hne)
      rcases hstall m hm with h | h
      · simp [divStall, hreg2 m hm, hdiv] at h
      · simp [fpStall, hreg2 m hm, hdone, hfdiv] at h

/-! ## What is in flight is committed -/

theorem log_always (n : ℕ) : commitLog P s₀ ins n ++ inFlight (run P s₀ ins n) =
    (Arch.reset P s₀).logActions P (actions P s₀ ins n) :=
  log_run hmode n fun m _ ↦ hsafe m

/-- Whatever the sequential machine has done is committed in the end. -/
theorem commitLog_overtakes (n : ℕ) :
    ∃ m, (Arch.reset P s₀).logActions P (actions P s₀ ins n) ≤ commitLog P s₀ ins m := by
  set l := (Arch.reset P s₀).logActions P (actions P s₀ ins n) with hl
  have hfree := exists_free hmode hsafe
  -- the first cycle in which MEM moves takes what is in MEM to WB
  obtain ⟨m₁, -, hm₁, hle₁⟩ := exists_first
    (q := fun m ↦ l ≤ (Arch.reset P s₀).logActions P (actions P s₀ ins m)) hfree
    (fun m hq _ ↦ hq.trans (Arch.logActions_mono (List.prefix_append _ _))) (le_refl l)
  have hwb : l ≤ commitLog P s₀ ins (m₁ + 1) ++ wbLog (run P s₀ ins (m₁ + 1)) := by
    rw [← log_always hmode hsafe m₁] at hle₁
    have hstep := (sim_always hmode hsafe m₁).inFlight_le (i := ins m₁) hmode
      (run_reachable P s₀ ins m₁) hm₁
    rw [commitLog, Log.append_assoc]
    exact hle₁.trans (Log.append_le_append_left _ hstep)
  -- the second takes it out of WB
  obtain ⟨m₂, -, hm₂, hle₂⟩ := exists_first
    (q := fun m ↦ l ≤ commitLog P s₀ ins m ++ wbLog (run P s₀ ins m)) hfree
    (fun m hq hne ↦ by
      have hstep := (sim_always hmode hsafe m).wbLog_le (i := ins m) (by simpa using hne)
      rw [commitLog, Log.append_assoc]
      exact hq.trans (Log.append_le_append_left _ hstep)) hwb
  refine ⟨m₂ + 1, ?_⟩
  rw [commitLog]
  exact hle₂.trans (Log.append_le_append_left _ (wbLog_le_cycleLog hm₂))

end Runs

end RvPipeline
