import RvPipeline.Config.Plain

/-!
# Bubbles

In every configuration, translation, caches, AMOs and interrupts included, a stage that holds no
instruction does nothing: it asks for no access, writes no register but `x0`, no float register and
no CSR, and returns from no trap.
-/

namespace RvPipeline

variable {w k : ℕ} {P : Params} {s : State w k} {i : Inputs}

/-- An EX/MEM register without an instruction. -/
structure Reg3.Inert (r : Reg3 w) : Prop where
  read : r.memRead = false
  write : r.memWrite = false
  amo : r.isAmo = false
  f : r.fRegWrite = false
  x : r.writeToReg = 0

/-- What is empty in MEM and WB is inert. -/
structure BubblesInert (s : State w k) : Prop where
  mem : s.reg3.valid = false → s.reg3.Inert
  wb : s.reg4.valid = false → s.reg4.fRegWrite = false ∧ s.reg4.writeToReg = 0

/-- An empty EX hands an inert instruction on. -/
theorem reg3Next_inert (hdec : s.reg2.Decoded) (hbub : BubbleInv s)
    (h : (reg3Next P s i).valid = false) : (reg3Next P s i).Inert := by
  cases hlive : reg3Bubble P s i with
  | true => constructor <;> simp [reg3Next, hlive]
  | false =>
    have hval : s.reg2.valid = false := by simpa [reg3Next, hlive] using h
    have hrd := writeToReg_of_bubble hdec hbub hval
    rcases (bubble_cases hdec hbub hval).1 with hctl | hctl
    · constructor <;> simp [reg3Next, hctl, hrd]
    · constructor <;> simp [reg3Next, hctl, hrd]

theorem BubblesInert.step (hdec : s.reg2.Decoded) (hbub : BubbleInv s) (h : BubblesInert s) :
    BubblesInert (step P s i) := by
  constructor
  · change (s.reg3.step _ _).valid = false → (s.reg3.step _ _).Inert
    unfold Reg3.step
    split_ifs
    · exact h.mem
    · exact reg3Next_inert hdec hbub
  · change (s.reg4.step _ _).valid = false →
      (s.reg4.step _ _).fRegWrite = false ∧ (s.reg4.step _ _).writeToReg = 0
    unfold Reg4.step
    split_ifs
    · exact h.wb
    · intro hval
      exact ⟨(h.mem hval).f, (h.mem hval).x⟩

theorem bubblesInert (h : Reachable P s) : BubblesInert s := by
  obtain ⟨_, ins, n, ⟨s₀, rfl⟩, rfl⟩ := h
  induction n with
  | zero => exact ⟨fun _ ↦ ⟨rfl, rfl, rfl, rfl, rfl⟩, fun _ ↦ ⟨rfl, rfl⟩⟩
  | succ n ih =>
    have hreach := run_reachable P s₀ ins n
    exact ih.step (reg2_decoded hreach) (bubbleInv hreach)

/-- A write to `x0` leaves what is read. -/
theorem RegFile.get_write_zero (f : RegFile w) (en : Bool) (v : BitVec w) (r : BitVec 5) :
    (f.write en 0 v).get r = f.get r := by
  unfold RegFile.get
  split_ifs with hr
  · rfl
  · have hno : r = 0#5 → 0#w = f r := fun h0 ↦ absurd h0 hr
    simpa [RegFile.write] using fun _ ↦ hno

/-- What the registers and the CSR file hold, and what is asked of the memory, is the work of
instructions: a stage without one asks for nothing and changes nothing, but for flags and traps. -/
theorem no_ghost_commit (h : Reachable P s) (i : Inputs) :
    (s.reg4.valid = false → (∀ r, (step P s i).regs.get r = s.regs.get r) ∧
      (step P s i).fregs = s.fregs) ∧
    (s.reg3.valid = false → s.reg3.memRead = false ∧ s.reg3.memWrite = false ∧
      s.reg3.isAmo = false ∧ (csrEvents P s i).instret = false) ∧
    (s.reg2.valid = false → (csrIn P s i).csrWriteEn = false ∧ (csrIn P s i).mretTaken = false ∧
      (csrIn P s i).sretTaken = false ∧ bpUpdateValid P s i = false ∧ desiredTaken P s = false) := by
  have hinert := bubblesInert h
  have hdec := reg2_decoded h
  have hbub := bubbleInv h
  refine ⟨fun hval ↦ ?_, fun hval ↦ ?_, fun hval ↦ ?_⟩
  · obtain ⟨hf, hx⟩ := hinert.wb hval
    constructor
    · intro r
      change (s.regs.write s.reg4.regWrite s.reg4.writeToReg (writeDataWb s)).get r = _
      rw [hx]
      exact RegFile.get_write_zero _ _ _ r
    · change s.fregs.fwrite s.reg4.fRegWrite s.reg4.writeToReg (writeDataWb s) = _
      rw [hf]
      rfl
  · obtain ⟨hr, hw, hamo, -, -⟩ := hinert.mem hval
    exact ⟨hr, hw, hamo, by simp [csrEvents, hval]⟩
  · obtain ⟨hm, hs⟩ := mretReal_of_bubble hdec hbub hval
    have hd := desiredTaken_of_bubble hdec hbub hval (operands P s)
    have hctl : s.reg2.ctl.isCsr = false ∧ s.reg2.ctl.branch = false ∧ s.reg2.ctl.jump = false := by
      rcases (bubble_cases hdec hbub hval).1 with hc | hc <;> simp [hc]
    exact ⟨by simp [csrIn, hctl], by simp [csrIn, hm], by simp [csrIn, hs],
      by simp [bpUpdateValid, hctl], hd⟩

/-- The squash word in WB has its write enable up, for `x0`; it leaves the registers. -/
theorem no_ghost_commit_count :
    (run countParams (default : State 32 0) (fun _ ↦ {}) 3).reg4.regWrite = true ∧
      ∀ r, (run countParams (default : State 32 0) (fun _ ↦ {}) 4).regs.get r =
        (run countParams (default : State 32 0) (fun _ ↦ {}) 3).regs.get r := by
  have hval : (run countParams (default : State 32 0) (fun _ ↦ {}) 3).reg4.valid = false := rfl
  have hreach := run_reachable countParams (default : State 32 0) (fun _ ↦ {}) 3
  exact ⟨rfl, ((no_ghost_commit hreach {}).1 hval).1⟩

end RvPipeline
