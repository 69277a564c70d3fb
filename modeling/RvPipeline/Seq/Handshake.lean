import RvPipeline.Lib.Clocked
import RvPipeline.Seq.Division

/-!
# One request to an iterative unit

The three units share their handshake: from idle, a start level that is held until `done` is
answered by one pulse of `done`, after which the unit is idle again.
-/

namespace RvPipeline

/-! ## Any unit that counts -/

/-- The request presented in cycle `0` is answered in cycle `n`, once. -/
structure Answered (start busy done : ℕ → Bool) (n : ℕ) : Prop where
  pending : ∀ k < n, done k = false
  answered : done n = true
  idle : busy (n + 1) = false ∧ done (n + 1) = false
  quiet : ∀ m, n < m → (∀ k, n < k → k < m → start k = false) → done m = false

theorem Answered.pos {start busy done : ℕ → Bool} {n : ℕ} (h : Answered start busy done n)
    (hd : done 0 = false) : 0 < n := by
  rcases Nat.eq_zero_or_pos n with rfl | hpos
  · rw [h.answered] at hd
    cases hd
  · exact hpos

/-- A start level that stays until the answer. -/
def HeldUntilDone (start done : ℕ → Bool) : Prop :=
  ∀ k, (∀ j ≤ k, done j = false) → start k = true

section Handshake

variable {c : ℕ} {last : BitVec c} {start busy done : ℕ → Bool} {count : ℕ → BitVec c}
  (hstep : ∀ k, UnitStep (start k) (busy k) (done k) (busy (k + 1)) (done (k + 1)) (count k)
    (count (k + 1)) last)
  (hheld : HeldUntilDone start done)

include hheld in
omit hstep in
theorem start_first (hd : done 0 = false) : start 0 = true :=
  hheld 0 fun j hj ↦ by
    rw [Nat.le_zero.1 hj]
    exact hd

include hstep

include hheld in
theorem busy_of_pending {n : ℕ} (h : ∀ k ≤ n, done k = false) (hn : 0 < n) : busy n = true := by
  obtain ⟨k, rfl⟩ := Nat.exists_eq_succ_of_ne_zero hn.ne'
  have hk : done k = false := h k (Nat.le_succ k)
  have hstart := hheld k fun j hj ↦ h j (hj.trans (Nat.le_succ k))
  rcases (hstep k).work hstart hk with hbusy | hdone
  · exact hbusy
  · rw [h (k + 1) le_rfl] at hdone
    cases hdone

include hheld in
/-- What the first cycle brings about and a busy cycle keeps holds until the answer. -/
theorem pending_invariant {P : ℕ → Prop} (hfirst : P 1)
    (hbusy : ∀ k, busy k = true → done k = false → P k → P (k + 1)) {n : ℕ} (hpos : 0 < n)
    (hn : ∀ k < n, done k = false) : P n := by
  induction n, hpos using Nat.le_induction with
  | base => exact hfirst
  | succ n hpos ih =>
    have hb := busy_of_pending hstep hheld (fun k hk ↦ hn k (Nat.lt_succ_of_le hk)) hpos
    exact hbusy n hb (hn n (Nat.lt_succ_self n)) (ih fun k hk ↦ hn k (Nat.lt_succ_of_lt hk))

include hheld in
/-- A unit that has not answered yet has only counted. -/
theorem count_of_pending (h : ∀ k, done k = false) (i : ℕ) :
    count (1 + i) = count 1 + BitVec.ofNat c i ∧ count (1 + i) ≠ last := by
  have hcounts : ∀ k, 0 < k → count k ≠ last ∧ count (k + 1) = count k + 1 := by
    intro k hk
    have hbusy := busy_of_pending hstep hheld (fun j _ ↦ h j) hk
    rcases (hstep k).counts hbusy with hdone | ⟨-, hne, hsucc⟩
    · rw [h (k + 1)] at hdone
      cases hdone
    · exact ⟨hne, hsucc⟩
  refine ⟨?_, (hcounts (1 + i) (by omega)).1⟩
  induction i with
  | zero => simp
  | succ i ih =>
    rw [← Nat.add_assoc, (hcounts (1 + i) (by omega)).2, ih, BitVec.add_assoc, BitVec.ofNat_add]
    rfl

include hheld in
theorem exists_done : ∃ n, done n = true := by
  by_contra hnone
  have hpending : ∀ k, done k = false := by simpa using hnone
  -- counting up from `count 1` comes past `last`
  obtain ⟨hcount, hne⟩ := count_of_pending hstep hheld hpending (last - count 1).toNat
  apply hne
  rw [hcount, BitVec.ofNat_toNat, BitVec.setWidth_eq, BitVec.add_comm, BitVec.sub_add_cancel]

theorem quiet_of_idle {n : ℕ} (hb : busy (n + 1) = false) (hd : done (n + 1) = false) (i : ℕ)
    (hstart : ∀ k, n < k → k < n + 1 + i → start k = false) :
    busy (n + 1 + i) = false ∧ done (n + 1 + i) = false := by
  induction i with
  | zero => exact ⟨hb, hd⟩
  | succ i ih =>
    have hprev := ih fun k hk hlt ↦ hstart k hk (by omega)
    have hlow := hstart (n + 1 + i) (by omega) (by omega)
    exact (hstep (n + 1 + i)).rest (.inl hlow) hprev.1

include hheld in
theorem exists_answered (hd : done 0 = false) : ∃ n, Answered start busy done n := by
  obtain ⟨n, hdone, hfirst⟩ : ∃ n, done n = true ∧ ∀ k < n, done k = false := by
    have hex := exists_done hstep hheld
    exact ⟨Nat.find hex, Nat.find_spec hex, fun k hk ↦ by simpa using Nat.find_min hex hk⟩
  have hpos : 0 < n := by
    rcases Nat.eq_zero_or_pos n with rfl | h
    · rw [hd] at hdone
      cases hdone
    · exact h
  have hbusy : busy n = false := by
    obtain ⟨k, rfl⟩ := Nat.exists_eq_succ_of_ne_zero hpos.ne'
    cases hb : busy (k + 1) with
    | false => rfl
    | true =>
      have hnot := (hstep k).one hb
      rw [hdone] at hnot
      cases hnot
  obtain ⟨hb', hd'⟩ := (hstep n).rest (.inr hdone) hbusy
  refine ⟨n, hfirst, hdone, ⟨hb', hd'⟩, ?_⟩
  intro m hm hlow
  obtain ⟨i, rfl⟩ := Nat.exists_eq_add_of_le hm
  exact (quiet_of_idle hstep hb' hd' i hlow).2

end Handshake

/-! ## `Divider.v` -/

namespace Divider

variable {w : ℕ}

/-- The ports of `Divider.v` in one cycle. -/
structure In (w : ℕ) where
  start : Bool
  isSigned : Bool
  dividend : BitVec w
  divisor : BitVec w

/-- The divider out of reset, from idle. -/
def clocked (w : ℕ) : Clocked (Divider w) (In w) where
  Init d := d.busy = false ∧ d.done = false
  step d i := d.step i.start i.isSigned i.dividend i.divisor

theorem step_of_busy {d : Divider w} (h : d.busy = true) (start isSigned isSigned' : Bool)
    (x y x' y' : BitVec w) : d.step start isSigned x y = d.step true isSigned' x' y' := by
  unfold Divider.step
  simp [h]

section Request

variable {d : Divider w} {ins : ℕ → In w}

theorem clocked_unitStep (d : Divider w) (ins : ℕ → In w) (k : ℕ) :
    UnitStep (ins k).start ((clocked w).run d ins k).busy ((clocked w).run d ins k).done
      ((clocked w).run d ins (k + 1)).busy ((clocked w).run d ins (k + 1)).done
      ((clocked w).run d ins k).count ((clocked w).run d ins (k + 1)).count
      (BitVec.ofNat _ (w - 1)) :=
  unitStep _ _ _ _ _

/-- While the answer is pending the unit works on the operands of the first cycle. -/
theorem tracks_of_pending (h₀ : (clocked w).Init d)
    (hheld : HeldUntilDone (fun k ↦ (ins k).start) fun k ↦ ((clocked w).run d ins k).done) {n : ℕ}
    (hn : ∀ k < n, ((clocked w).run d ins k).done = false) :
    Tracks (ins 0).isSigned (ins 0).dividend (ins 0).divisor ((clocked w).run d ins n) := by
  rcases Nat.eq_zero_or_pos n with rfl | hpos
  · exact tracks_of_idle h₀.1 h₀.2
  refine pending_invariant (clocked_unitStep d ins) hheld (P := fun n ↦ Tracks (ins 0).isSigned
    (ins 0).dividend (ins 0).divisor ((clocked w).run d ins n)) ?_ ?_ hpos hn
  · have hstart : (ins 0).start = true := start_first hheld h₀.2
    have hrun : (clocked w).run d ins 1 = d.step (ins 0).start (ins 0).isSigned (ins 0).dividend
      (ins 0).divisor := rfl
    rw [hrun, hstart]
    exact (tracks_of_idle h₀.1 h₀.2).step fun _ _ ↦ ⟨rfl, rfl⟩
  · intro k hbusy _ hk
    have hrun : (clocked w).run d ins (k + 1) = ((clocked w).run d ins k).step (ins k).start
      (ins k).isSigned (ins k).dividend (ins k).divisor := rfl
    rw [hrun, step_of_busy hbusy _ _ (ins 0).isSigned _ _ (ins 0).dividend (ins 0).divisor]
    exact hk.step fun _ _ ↦ ⟨rfl, rfl⟩

/-- Spec of one request. -/
theorem exists_answered_divide (h₀ : (clocked w).Init d)
    (hheld : HeldUntilDone (fun k ↦ (ins k).start) fun k ↦ ((clocked w).run d ins k).done) :
    ∃ n, Answered (fun k ↦ (ins k).start) (fun k ↦ ((clocked w).run d ins k).busy)
        (fun k ↦ ((clocked w).run d ins k).done) n ∧
      (((clocked w).run d ins n).quotient, ((clocked w).run d ins n).remainder) =
        divide (ins 0).isSigned (ins 0).dividend (ins 0).divisor := by
  obtain ⟨n, hn⟩ := exists_answered (clocked_unitStep d ins) hheld h₀.2
  exact ⟨n, hn, (tracks_of_pending h₀ hheld hn.pending).done hn.answered⟩

end Request

end Divider

end RvPipeline
