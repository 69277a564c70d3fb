import RvPipeline.Core.Wires

/-!
# Interrupt causes

What an interrupt cause should name, and when the cause mux names it.  The taken
condition of `riscvpipeline.v` gates the machine-level group by `mstatus.MIE`; the
cause mux looks at the same three lines without the gate.
-/

namespace RvPipeline

variable {w k : ℕ}

/-- The five interrupt sources, in the order of their priority. -/
inductive IntSource where
  | mei | msi | mti | ssi | sti
  deriving DecidableEq, Repr

namespace IntSource

/-- The code of a source in `mcause` and `scause`. -/
def code : IntSource → ℕ
  | mei => mcauseIntMachineExternal
  | msi => mcauseIntMachineSoftware
  | mti => mcauseIntMachineTimer
  | ssi => mcauseIntSupervisorSoftware
  | sti => mcauseIntSupervisorTimer

/-- Position in the priority order; smaller is served first. -/
def rank : IntSource → ℕ
  | mei => 0
  | msi => 1
  | mti => 2
  | ssi => 3
  | sti => 4

/-- The source's own line. -/
def line (s : State w k) : IntSource → Bool
  | mei => (pending s).ext
  | msi => (pending s).msip
  | mti => (pending s).timer
  | ssi => s.csr.mipSsip
  | sti => s.csr.mipStip

/-- The source's bit of `mie`. -/
def enabled (s : State w k) : IntSource → Bool
  | mei => s.csr.mieMeie
  | msi => s.csr.mieMsie
  | mti => s.csr.mieMtie
  | ssi => s.csr.mieSsie
  | sti => s.csr.mieStie

/-- The global gate of the source's own level. -/
def gate (s : State w k) : IntSource → Bool
  | mei | msi | mti => s.csr.mstatusMie
  | ssi | sti => s.csr.mstatusSie && s.csr.privMode == privS

/-- Pending, enabled and let through. -/
def ready (s : State w k) (src : IntSource) : Bool := src.line s && src.enabled s && src.gate s

/-- The machine-level sources as the cause mux sees them: the gate is missing. -/
def machinePending (s : State w k) : Bool := meiPending s || msiPending s || mtiPending s

end IntSource

open IntSource

/-- The cause register the trap of this cycle writes. -/
def recordedCause (P : Params) (s : State w k) (i : Inputs) : BitVec w :=
  if trapTargetIsS P s i then (step P s i).csr.scause else (step P s i).csr.mcause

/-- The recorded cause names the highest-priority source that is ready. -/
def CauseSound (P : Params) (s : State w k) (i : Inputs) : Prop :=
  ∃ src : IntSource, recordedCause P s i = Csr.causeWord true (BitVec.ofNat w src.code) ∧
    src.ready s = true ∧ ∀ other : IntSource, other.ready s = true → src.rank ≤ other.rank

/-! ## The recorded cause is the mux output -/

theorem csrIn_of_interruptTaken {P : Params} {s : State w k} {i : Inputs}
    (h : interruptTaken P s i = true) :
    (csrIn P s i).trapTaken = true ∧ (csrIn P s i).trapIsInterrupt = true ∧
      (csrIn P s i).trapCause = interruptCause s := by
  simp [csrIn, h]

theorem recordedCause_eq {P : Params} {s : State w k} {i : Inputs}
    (h : interruptTaken P s i = true) :
    recordedCause P s i = Csr.causeWord true (interruptCause s) := by
  obtain ⟨htrap, hint, hcause⟩ := csrIn_of_interruptTaken h
  unfold recordedCause trapTargetIsS
  cases hS : s.csr.trapTargetIsS (csrIn P s i) with
  | true => simp [step, Csr.next, Csr.nextWith, htrap, hint, hcause, hS]
  | false => simp [step, Csr.next, Csr.nextWith, htrap, hint, hcause, hS]

/-- The source the mux picks. -/
def muxSource (s : State w k) : IntSource :=
  if meiPending s then .mei
  else if msiPending s then .msi
  else if mtiPending s then .mti
  else if ssiPending s then .ssi
  else .sti

theorem interruptCause_eq_muxSource (s : State w k) :
    interruptCause s = BitVec.ofNat w (muxSource s).code := by
  unfold interruptCause muxSource
  split_ifs <;> rfl

/-- Distinct sources leave distinct words in the cause register. -/
theorem causeWord_code_injective (hw : w = 32 ∨ w = 64) {a b : IntSource}
    (h : Csr.causeWord true (BitVec.ofNat w a.code) = Csr.causeWord true (BitVec.ofNat w b.code)) :
    a = b := by
  rcases hw with rfl | rfl <;> revert h <;> cases a <;> cases b <;> decide

theorem causeSound_iff_muxSource (hw : w = 32 ∨ w = 64) {P : Params} {s : State w k} {i : Inputs}
    (h : interruptTaken P s i = true) :
    CauseSound P s i ↔ (muxSource s).ready s = true ∧
      ∀ other : IntSource, other.ready s = true → (muxSource s).rank ≤ other.rank := by
  unfold CauseSound
  rw [recordedCause_eq h, interruptCause_eq_muxSource]
  constructor
  · rintro ⟨src, hcode, hready, hbest⟩
    obtain rfl := causeWord_code_injective hw hcode
    exact ⟨hready, hbest⟩
  · rintro ⟨hready, hbest⟩
    exact ⟨_, rfl, hready, hbest⟩

/-! ## When the mux output is sound -/

/-- With the machine-level gate open, or no machine-level line raised, the mux order
is the priority order of the ready sources. -/
theorem muxSource_best {s : State w k} (hreq : interruptRequest s = true)
    (hcond : s.csr.mstatusMie = true ∨ machinePending s = false) :
    (muxSource s).ready s = true ∧
      ∀ other : IntSource, other.ready s = true → (muxSource s).rank ≤ other.rank := by
  simp only [interruptRequest, machinePending] at hreq hcond
  unfold muxSource
  split_ifs with hmei hmsi hmti hssi
  · refine ⟨?_, fun other _ ↦ Nat.zero_le _⟩
    simp_all [ready, line, enabled, gate, meiPending]
  · constructor
    · simp_all [ready, line, enabled, gate, msiPending]
    · intro other hother
      cases other <;> simp_all [ready, line, enabled, gate, meiPending, rank]
  · constructor
    · simp_all [ready, line, enabled, gate, mtiPending]
    · intro other hother
      cases other <;> simp_all [ready, line, enabled, gate, meiPending, msiPending, rank]
  · constructor
    · simp_all [ready, line, enabled, gate, ssiPending]
    · intro other hother
      cases other <;>
        simp_all [ready, line, enabled, gate, meiPending, msiPending, mtiPending, rank]
  · constructor
    · simp_all [ready, line, enabled, gate, stiPending]
    · intro other hother
      cases other <;>
        simp_all [ready, line, enabled, gate, meiPending, msiPending, mtiPending, ssiPending, rank]

/-- With the gate closed and a machine-level line raised, the mux names a source that
its own level does not let through. -/
theorem muxSource_not_ready {s : State w k} (hgate : s.csr.mstatusMie = false)
    (hpend : machinePending s = true) : (muxSource s).ready s = false := by
  unfold muxSource
  split_ifs with hmei hmsi hmti hssi
  · simp [ready, gate, hgate]
  · simp [ready, gate, hgate]
  · simp [ready, gate, hgate]
  · simp_all [machinePending]
  · simp_all [machinePending]

/-- The cause of a taken interrupt is sound exactly when machine-level interrupts are
globally enabled or none of them is pending and enabled in `mie`. -/
theorem causeSound_iff (hw : w = 32 ∨ w = 64) (P : Params) (s : State w k) (i : Inputs)
    (h : interruptTaken P s i = true) :
    CauseSound P s i ↔ s.csr.mstatusMie = true ∨ machinePending s = false := by
  rw [causeSound_iff_muxSource hw h]
  constructor
  · rintro ⟨hready, -⟩
    by_contra hcond
    rw [not_or] at hcond
    obtain ⟨hgate, hpend⟩ := hcond
    have hnot := muxSource_not_ready (by simpa using hgate) (by simpa using hpend)
    rw [hnot] at hready
    exact Bool.noConfusion hready
  · exact muxSource_best (interruptTaken_spec h).1

/-! ## A closed gate that is reached -/

/-- Enables the machine timer and supervisor software interrupts in `mie`, raises
`mip.SSIP`, then returns to S-mode with `SIE` set and `MIE` clear. -/
def gateProgram : List (BitVec 32) :=
  [0x08200093,  -- addi  x1, x0, 0x82
   0x30409073,  -- csrw  mie, x1
   0x34415073,  -- csrwi mip, 2
   0x00001137,  -- lui   x2, 1
   0x80210113,  -- addi  x2, x2, -2046
   0x30011073,  -- csrw  mstatus, x2
   0x30200073]  -- mret

def gateParams : Params := { insts := instsOfWords gateProgram }

/-- The state in the cycle after the `mret`; the timer has been pending since reset. -/
def gateState : State 32 0 := run gateParams default (fun _ ↦ {}) 9

theorem gateState_reachable : Reachable gateParams gateState :=
  (core gateParams 32 0).reachable_run ⟨default, rfl⟩ _ 9

/-- The interrupt taken there is a supervisor software interrupt and is recorded as a
machine timer interrupt. -/
theorem causeSound_fails :
    ¬ ∀ (P : Params) (s : State 32 0) (i : Inputs), Reachable P s →
      interruptTaken P s i = true → CauseSound P s i := by
  intro hall
  have htaken : interruptTaken gateParams gateState {} = true := by decide +kernel
  have hgate : gateState.csr.mstatusMie = false := by decide +kernel
  have hpend : machinePending gateState = true := by decide +kernel
  have hsound := hall gateParams gateState {} gateState_reachable htaken
  rw [causeSound_iff_muxSource (.inl rfl) htaken, muxSource_not_ready hgate hpend] at hsound
  exact Bool.noConfusion hsound.1

/-- The equivalence at that state, where both sides are false. -/
theorem causeSound_iff_witness :
    interruptTaken gateParams gateState {} = true ∧
      (CauseSound gateParams gateState {} ↔
        gateState.csr.mstatusMie = true ∨ machinePending gateState = false) :=
  ⟨by decide +kernel, causeSound_iff (.inl rfl) gateParams gateState {} (by decide +kernel)⟩

end RvPipeline
