import RvPipeline.Lib.Cells
import RvPipeline.Core.Wires

/-!
# What the predictor has learnt

Along every run the entry of the target buffer is the last taken branch or jump that fell on it, and
the direction counter is wrong about few of the branches that fall on it.
-/

namespace RvPipeline

variable {w k : ℕ}

section Defs

variable (P : Params) (s : State w k) (i : Inputs) (j : BitVec k)

/-- A branch or jump at this index leaves EX, with this outcome. -/
def resolved : Option Bool :=
  if bpUpdateValid P s i && bpIndex k s.reg2.ctx.pc == j then some (desiredTaken P s) else none

/-- The target of a taken branch or jump at this index that leaves EX. -/
def installed : Option (BitVec w) :=
  if resolved P s i j = some true then some (s.reg2.immSum (operands P s)) else none

end Defs

/-- The entry at an index. -/
def Btb.entry (b : Btb w k) (j : BitVec k) : Option (BitVec w) :=
  if b.valid j then some (b.targets j) else none

theorem Btb.hit_iff {b : Btb w k} {pc : BitVec w} {t : BitVec w} :
    b.entry (bpIndex k pc) = some t ↔ b.hit pc = true ∧ b.target pc = t := by
  simp [Btb.entry, Btb.hit, Btb.target]

section Runs

variable (P : Params) (s₀ : State w k) (ins : ℕ → Inputs) (j : BitVec k)

theorem entry_step (n : ℕ) : (run P s₀ ins (n + 1)).btb.entry j =
    (installed P (run P s₀ ins n) (ins n) j).or ((run P s₀ ins n).btb.entry j) := by
  set s := run P s₀ ins n with hs
  change Btb.entry (s.btb.step (bpUpdateValid P s (ins n) && desiredTaken P s) s.reg2.ctx.pc
    (s.reg2.immSum (operands P s))) j = _
  cases hup : bpUpdateValid P s (ins n) && desiredTaken P s with
  | false =>
    have hno : installed P s (ins n) j = none := by
      rw [Bool.and_eq_false_iff] at hup
      rcases hup with h | h
      · simp [installed, resolved, h]
      · simp [installed, resolved, h]
    rw [hno, Option.none_or]
    rfl
  | true =>
    obtain ⟨hvalid, htaken⟩ := Bool.and_eq_true_iff.mp hup
    by_cases hj : j = bpIndex k s.reg2.ctx.pc
    · simp [Btb.entry, Btb.step, installed, resolved, hvalid, htaken, ← hj]
    · have hne : (bpIndex k s.reg2.ctx.pc == j) = false := beq_false_of_ne (Ne.symm hj)
      simp [Btb.entry, Btb.step, installed, resolved, hvalid, hj, hne]

/-- Whatever address is looked up, the target buffer hits with the target of the last taken branch or
jump at its index, and where there has been none it does not hit. -/
theorem btb_holds_last_taken (pc : BitVec w) (n : ℕ) (t : BitVec w) :
    (run P s₀ ins n).btb.hit pc = true ∧ (run P s₀ ins n).btb.target pc = t ↔
      ∃ m < n, installed P (run P s₀ ins m) (ins m) (bpIndex k pc) = some t ∧
        ∀ l, m < l → l < n → installed P (run P s₀ ins l) (ins l) (bpIndex k pc) = none := by
  rw [← Btb.hit_iff]
  exact Cell.eq_some_iff (c := fun m ↦ (run P s₀ ins m).btb.entry (bpIndex k pc)) rfl
    (entry_step P s₀ ins (bpIndex k pc)) n t

/-- The direction counter at an index. -/
theorem counter_step (n : ℕ) : ((run P s₀ ins (n + 1)).bht j).toNat =
    (resolved P (run P s₀ ins n) (ins n) j).elim ((run P s₀ ins n).bht j).toNat
      fun taken ↦ Saturating.bump taken ((run P s₀ ins n).bht j).toNat := by
  set s := run P s₀ ins n with hs
  have hbump : ∀ (taken : Bool) (c : BitVec 2),
      (Bht.bump taken c).toNat = Saturating.bump taken c.toNat := by decide
  change (s.bht.step (bpUpdateValid P s (ins n)) s.reg2.ctx.pc (desiredTaken P s) j).toNat = _
  cases hup : bpUpdateValid P s (ins n) with
  | false => simp [Bht.step, resolved, hup]
  | true =>
    by_cases hj : j = bpIndex k s.reg2.ctx.pc
    · simp [Bht.step, resolved, hup, ← hj, hbump]
    · have hne : (bpIndex k s.reg2.ctx.pc == j) = false := beq_false_of_ne (Ne.symm hj)
      simp [Bht.step, resolved, hup, hj, hne]

/-- A branch at this index leaves EX with the outcome its counter does not expect. -/
def Mispredicted (m : ℕ) : Prop :=
  resolved P (run P s₀ ins m) (ins m) j = some !((run P s₀ ins m).bht j).getLsbD 1

instance : DecidablePred (Mispredicted P s₀ ins j) := fun m ↦
  inferInstanceAs (Decidable (resolved P (run P s₀ ins m) (ins m) j = some _))

/-- Of the branches at one index the counter is wrong about at most two for each that is taken, and
at most two for each that is not, but for two at the start. -/
theorem bht_misses (n : ℕ) :
    Nat.count (Mispredicted P s₀ ins j) n ≤
        2 * Nat.count (fun m ↦ resolved P (run P s₀ ins m) (ins m) j = some true) n ∧
      Nat.count (Mispredicted P s₀ ins j) n ≤
        2 * Nat.count (fun m ↦ resolved P (run P s₀ ins m) (ins m) j = some false) n + 2 := by
  have hexp : ∀ c : BitVec 2, c.getLsbD 1 = Saturating.expects c.toNat := by decide
  have hcount := Saturating.count_misses (c := fun m ↦ ((run P s₀ ins m).bht j).toNat) rfl
    (counter_step P s₀ ins j) n
  have hle : Nat.count (Mispredicted P s₀ ins j) n ≤ Nat.count (Saturating.Misses
      (fun m ↦ ((run P s₀ ins m).bht j).toNat) fun m ↦ resolved P (run P s₀ ins m) (ins m) j) n := by
    apply Nat.count_mono_left
    intro m _ hm
    rw [Mispredicted, hexp] at hm
    exact hm
  omega

end Runs

end RvPipeline
