import RvPipeline.Core.Bare

/-!
# The combinational loop

`branch_taken`, `interrupt_taken`, `pc_stall` and the miss wires read one another in a circle.  The
source's own equations, as a relation between wires, always have a solution; they have two exactly
when an interrupt is requested in a cycle that only a miss or a hazard stalls, which a redirect would
lift.  The model's two choices of `settle` are all there is.
-/

namespace RvPipeline

variable {w k : ℕ}

/-- The wires of the circle. -/
structure LoopWires where
  stall : Bool
  itlbMiss : Bool
  dtlbMiss : Bool
  icacheMiss : Bool
  imemWait : Bool
  pcStall : Bool
  interruptTaken : Bool
  branchTaken : Bool
  deriving DecidableEq

/-- Every wire carries what its `assign` says of the others. -/
structure LoopWires.Stable (P : Params) (s : State w k) (v : LoopWires) : Prop where
  stall : v.stall = hazardStall P s v.branchTaken
  itlbMiss : v.itlbMiss = (translateEnable s && !itlbHit P s && !(ptwDoneI s && s.ptw.fault) &&
    !v.branchTaken && !s.redirectSquashExtend)
  dtlbMiss : v.dtlbMiss =
    (dtlbNeeded s && !lsHit P s && !(ptwDoneD s && s.ptw.fault) && !v.branchTaken)
  icacheMiss : v.icacheMiss = ((!translateEnable s || itlbHit P s) && !icacheHit P s &&
    !v.branchTaken && !s.redirectSquashExtend)
  imemWait : v.imemWait = (imemLatencyAdded P &&
    (imemLatencyStart P s v.branchTaken || s.imem.model.busy) && !v.branchTaken &&
    !s.redirectSquashExtend)
  pcStall : v.pcStall = (v.stall || divStall s || memStall P s || fpStall s ||
    floatLoadUseHazard s || v.itlbMiss || v.dtlbMiss || v.icacheMiss || v.imemWait || amoStall s)
  interruptTaken : v.interruptTaken =
    (interruptRequest s && !v.pcStall && !otherRedirectTaken P s)
  branchTaken : v.branchTaken = (otherRedirectTaken P s || v.interruptTaken)

/-- The wires as they follow from `branch_taken`. -/
def loopWires (P : Params) (s : State w k) (taken bt : Bool) : LoopWires :=
  { stall := hazardStall P s bt
    itlbMiss := RvPipeline.itlbMiss P s bt
    dtlbMiss := RvPipeline.dtlbMiss P s bt
    icacheMiss := RvPipeline.icacheMiss P s bt
    imemWait := RvPipeline.imemWait P s bt
    pcStall := pcStallOf P s bt
    interruptTaken := taken
    branchTaken := bt }

/-- An interrupt is requested in a cycle that a redirect would release. -/
def Bistable (P : Params) (s : State w k) : Prop :=
  interruptRequest s = true ∧ otherRedirectTaken P s = false ∧ pcStallOf P s false = true ∧
    pcStallOf P s true = false

instance (P : Params) (s : State w k) : Decidable (Bistable P s) :=
  inferInstanceAs (Decidable (_ ∧ _))

section Loop

variable {P : Params} {s : State w k} {v : LoopWires}

/-- The other wires follow from `interrupt_taken` and `branch_taken`. -/
theorem LoopWires.Stable.eq_loopWires (h : v.Stable P s) :
    v = loopWires P s v.interruptTaken v.branchTaken := by
  obtain ⟨h1, h2, h3, h4, h5, h6, -, -⟩ := h
  cases v
  simp only [loopWires, LoopWires.mk.injEq] at *
  refine ⟨h1, h2, h3, h4, h5, ?_, trivial, trivial⟩
  rw [h6, h1, h2, h3, h4, h5]
  rfl

/-- Which valuations are consistent: that of an interrupt taken, and that of one refused. -/
theorem stable_iff : v.Stable P s ↔ ∃ taken : Bool,
    v = loopWires P s taken (otherRedirectTaken P s || taken) ∧
      taken = (interruptRequest s && !pcStallOf P s (otherRedirectTaken P s || taken) &&
        !otherRedirectTaken P s) := by
  constructor
  · intro h
    refine ⟨v.interruptTaken, ?_, ?_⟩
    · rw [← h.branchTaken]
      exact h.eq_loopWires
    · have hps : v.pcStall = pcStallOf P s v.branchTaken := congrArg LoopWires.pcStall h.eq_loopWires
      rw [← h.branchTaken, ← hps]
      exact h.interruptTaken
  · rintro ⟨taken, rfl, htaken⟩
    exact
      { stall := rfl, itlbMiss := rfl, dtlbMiss := rfl, icacheMiss := rfl, imemWait := rfl
        pcStall := rfl, interruptTaken := htaken, branchTaken := rfl }

/-- The choice of the model is consistent, whichever it is. -/
theorem stable_of_settle (i : Inputs) :
    (loopWires P s (interruptTaken P s i) (branchTaken P s i)).Stable P s :=
  stable_iff.mpr ⟨interruptTaken P s i, rfl, interruptTaken_fixpoint⟩

/-- Off a bistable cycle the two choices agree. -/
theorem interruptTaken_settle (h : ¬Bistable P s) (i j : Inputs) :
    interruptTaken P s i = interruptTaken P s j := by
  have hst : interruptRequest s = true → otherRedirectTaken P s = false →
      pcStallOf P s i.settle = pcStallOf P s j.settle := by
    intro hreq hother
    have hmono := pcStallOf_of_true (P := P) (s := s)
    cases hT : pcStallOf P s true with
    | true => rw [hmono hT, hmono hT]
    | false =>
      have hF : pcStallOf P s false = false := by
        by_contra hne
        exact h ⟨hreq, hother, by simpa using hne, hT⟩
      have hall : ∀ b, pcStallOf P s b = false := by
        intro b
        cases b
        · exact hF
        · exact hT
      rw [hall, hall]
  unfold interruptTaken
  cases hreq : interruptRequest s with
  | false => rfl
  | true =>
    cases hother : otherRedirectTaken P s with
    | true => rfl
    | false => rw [hst hreq hother]

/-- A valuation that is consistent is that of some choice. -/
theorem settle_of_stable (h : v.Stable P s) :
    ∃ i : Inputs, v = loopWires P s (interruptTaken P s i) (branchTaken P s i) := by
  obtain ⟨taken, rfl, htaken⟩ := stable_iff.mp h
  -- with another redirect nothing is taken; without one `settle` is `branch_taken`
  have hint : interruptTaken P s { settle := otherRedirectTaken P s || taken } = taken := by
    rw [interruptTaken]
    rw [Bool.and_right_comm] at htaken
    exact htaken.symm
  refine ⟨{ settle := otherRedirectTaken P s || taken }, ?_⟩
  rw [branchTaken, hint]

/-- The equations of the circle always have a solution, the model has all of them, and there is
only one exactly if the cycle is not bistable. -/
theorem loop_settles (P : Params) (s : State w k) :
    (∀ v : LoopWires, v.Stable P s ↔
      ∃ i : Inputs, v = loopWires P s (interruptTaken P s i) (branchTaken P s i)) ∧
    ((∃! v : LoopWires, v.Stable P s) ↔ ¬Bistable P s) := by
  refine ⟨fun v ↦ ⟨settle_of_stable, ?_⟩, ?_, ?_⟩
  · rintro ⟨i, rfl⟩
    exact stable_of_settle i
  · rintro ⟨v, -, huniq⟩ ⟨hreq, hother, hF, hT⟩
    have hno := huniq _ (stable_of_settle { settle := false })
    have hyes := huniq _ (stable_of_settle { settle := true })
    have heq := congrArg LoopWires.interruptTaken (hno.trans hyes.symm)
    simp [loopWires, interruptTaken, hreq, hother, hF, hT] at heq
  · intro h
    refine ⟨_, stable_of_settle {}, fun v hv ↦ ?_⟩
    obtain ⟨i, rfl⟩ := settle_of_stable hv
    rw [branchTaken, branchTaken, interruptTaken_settle h i {}]

end Loop

/-! ## Where the circle is broken -/

section Broken

variable {P : Params} {s : State w k}

/-- With forwarding, without caches and fetch latency, and with translation off no stall depends on
a redirect. -/
theorem not_bistable_of_default (hH : P.hazardStrategy = .forwarding) (hmode : P.cacheMode = .none)
    (hlat : P.memLatencyI = 0) (hbare : translateEnable s = false) : ¬Bistable P s := by
  rintro ⟨-, -, hF, hT⟩
  have hsame : pcStallOf P s false = pcStallOf P s true := by
    simp [pcStallOf, hazardStall, hH, itlbMiss_of_bare hbare, dtlbMiss_of_bare hbare, icacheMiss,
      icacheHit, hmode, imemWait, imemLatencyAdded, hlat]
  rw [hsame, hT] at hF
  exact Bool.noConfusion hF

end Broken

/-- Opens the timer interrupt in front of two instructions of which the second needs the first. -/
def hazardTimerParams : Params :=
  { insts := instsOfWords [0x08000093, 0x30409073, 0x30046073, 0x00100293, 0x00128313]
    hazardStrategy := .noForward }

/-- The circle is a real one: the interrupt and the hazard can each win. -/
theorem bistable_hazard :
    Bistable hazardTimerParams (run hazardTimerParams (default : State 32 0) (fun _ ↦ {}) 7) := by
  decide +kernel

end RvPipeline
