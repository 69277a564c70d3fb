import Mathlib.Order.Basic
import Mathlib.Tactic.Linarith

/-!
# Growing traces

Two sequences in a preorder have the same limit if each is overtaken by the other; for logs
ordered by prefix this says that both machines write the same finite or infinite log, at
whatever speed.  The rank rule shows that something happens again and again.
-/

universe u

section Rank

variable {p : ℕ → Prop}

theorem exists_of_rank {α : Type*} [LT α] [WellFoundedLT α] (r : ℕ → α) (n : ℕ)
    (h : ∀ m, n ≤ m → ¬p m → r (m + 1) < r m) : ∃ m, n ≤ m ∧ p m := by
  induction hr : r n using WellFoundedLT.induction generalizing n with
  | ind c ih =>
    by_cases hp : p n
    · exact ⟨n, le_rfl, hp⟩
    · have hlt : r (n + 1) < c := hr ▸ h n le_rfl hp
      obtain ⟨m, hm, hpm⟩ := ih _ hlt (n + 1) (fun m hm ↦ h m (by omega)) rfl
      exact ⟨m, by omega, hpm⟩

/-- What is kept as long as `p` fails is still there when `p` holds first. -/
theorem exists_first {q : ℕ → Prop} (hp : ∀ n, ∃ m, n ≤ m ∧ p m)
    (hkeep : ∀ n, q n → ¬p n → q (n + 1)) {n : ℕ} (hq : q n) : ∃ m, n ≤ m ∧ p m ∧ q m := by
  obtain ⟨m, hm, hpm⟩ := hp n
  induction hd : m - n generalizing n with
  | zero =>
    obtain rfl : m = n := by omega
    exact ⟨m, le_rfl, hpm, hq⟩
  | succ d ih =>
    by_cases hpn : p n
    · exact ⟨n, le_rfl, hpn, hq⟩
    · obtain ⟨m', hm', h⟩ := ih (hkeep n hq hpn) (by omega) (by omega)
      exact ⟨m', by omega, h⟩

/-- A flag that is down first and up later rises in between. -/
theorem exists_rise {f : ℕ → Bool} {m n : ℕ} (hle : m ≤ n) (hm : f m = false) (hn : f n = true) :
    ∃ r, m ≤ r ∧ r < n ∧ (∀ j, m ≤ j → j ≤ r → f j = false) ∧ f (r + 1) = true := by
  have hex : ∃ j, m ≤ j ∧ f j = true := ⟨n, hle, hn⟩
  obtain ⟨hfind, hup⟩ := Nat.find_spec hex
  have hne : Nat.find hex ≠ m := by
    intro heq
    rw [heq] at hup
    exact absurd (hm.symm.trans hup) Bool.false_ne_true
  have hfn : Nat.find hex ≤ n := Nat.find_min' hex ⟨hle, hn⟩
  obtain ⟨r, hr⟩ : ∃ r, Nat.find hex = r + 1 := ⟨Nat.find hex - 1, by omega⟩
  refine ⟨r, by omega, by omega, fun j hj hjr ↦ ?_, hr ▸ hup⟩
  have := Nat.find_min hex (m := j) (by omega)
  simpa [hj] using this

/-- A pulse that sets a flag and never comes while the flag is up comes exactly once, if one of the
two is up at the end. -/
theorem existsUnique_of_flag {f g : ℕ → Bool} {m n : ℕ} (hle : m ≤ n) (hm : f m = false)
    (hstep : ∀ j, m ≤ j → j < n → f (j + 1) = (f j || g j))
    (hexcl : ∀ j, m ≤ j → j ≤ n → f j = true → g j = false) (hn : (f n || g n) = true) :
    ∃! j, m ≤ j ∧ j ≤ n ∧ g j = true := by
  -- once the flag is up it stays up
  have hup : ∀ j l, m ≤ j → j ≤ l → l ≤ n → f j = true → f l = true := by
    intro j l hj hjl hln hf
    induction l, hjl using Nat.le_induction with
    | base => exact hf
    | succ l hjl ih => rw [hstep l (by omega) (by omega), ih (by omega), Bool.true_or]
  have hset : ∀ j l, m ≤ j → j < l → l ≤ n → g j = true → f l = true := by
    intro j l hj hjl hln hg
    refine hup (j + 1) l (by omega) hjl hln ?_
    rw [hstep j hj (by omega), hg, Bool.or_true]
  obtain ⟨j, hj, hjn, hg⟩ : ∃ j, m ≤ j ∧ j ≤ n ∧ g j = true := by
    by_cases hf : f n = true
    · obtain ⟨r, hr, hrn, hdown, hrise⟩ := exists_rise hle hm hf
      refine ⟨r, hr, by omega, ?_⟩
      rwa [hstep r hr hrn, hdown r hr le_rfl, Bool.false_or] at hrise
    · exact ⟨n, hle, le_rfl, by simpa [hf] using hn⟩
  refine ⟨j, ⟨hj, hjn, hg⟩, ?_⟩
  rintro l ⟨hl, hln, hgl⟩
  by_contra hne
  rcases lt_or_gt_of_ne hne with hlt | hlt
  · have := hexcl j hj hjn (hset l j hl hlt hjn hgl)
    exact absurd (this.symm.trans hg) Bool.false_ne_true
  · have := hexcl l hl hln (hset j l hj hlt hln hg)
    exact absurd (this.symm.trans hgl) Bool.false_ne_true

/-- What is kept until `p` reaches `p` if its rank never grows and falls at every tick. -/
theorem exists_of_ticks {q t : ℕ → Prop} (r : ℕ → ℕ)
    (hfair : ∀ n, q n → ∃ m, n ≤ m ∧ t m)
    (hstep : ∀ n, q n → p (n + 1) ∨ q (n + 1) ∧ r (n + 1) ≤ r n ∧ (t n → r (n + 1) < r n))
    {n : ℕ} (hq : q n) : ∃ m, n < m ∧ p m ∧ ∀ k, n ≤ k → k < m → q k := by
  obtain ⟨l, hnl, hl⟩ := hfair n hq
  -- the rank is as before until the next tick
  induction hr : r n using Nat.strong_induction_on generalizing n l with
  | _ c ih =>
    induction hd : l - n generalizing n c with
    | zero =>
      obtain rfl : l = n := by omega
      rcases hstep l hq with hp | ⟨hq', -, hlt⟩
      · exact ⟨l + 1, by omega, hp, fun k hk hk' ↦ (by omega : k = l) ▸ hq⟩
      · obtain ⟨l', hl', ht⟩ := hfair (l + 1) hq'
        obtain ⟨m, hm, hp, hkeep⟩ := ih _ (hr ▸ hlt hl) hq' l' hl' ht rfl
        refine ⟨m, by omega, hp, fun k hk hk' ↦ ?_⟩
        rcases hk.eq_or_lt with rfl | hk
        · exact hq
        · exact hkeep k hk hk'
    | succ d ihd =>
      rcases hstep n hq with hp | ⟨hq', hle, -⟩
      · exact ⟨n + 1, by omega, hp, fun k hk hk' ↦ (by omega : k = n) ▸ hq⟩
      · obtain ⟨m, hm, hp, hkeep⟩ := ihd (r (n + 1)) (fun c' hc' ↦ ih c' (by omega)) hq'
          (by omega) rfl (by omega)
        refine ⟨m, by omega, hp, fun k hk hk' ↦ ?_⟩
        rcases hk.eq_or_lt with rfl | hk
        · exact hq
        · exact hkeep k hk hk'

end Rank

section SameLimit

variable {α : Type u} [Preorder α] {f g h : ℕ → α}

def SameLimit (f g : ℕ → α) : Prop := (∀ n, ∃ m, f n ≤ g m) ∧ ∀ n, ∃ m, g n ≤ f m

theorem SameLimit.symm (hfg : SameLimit f g) : SameLimit g f := ⟨hfg.2, hfg.1⟩

theorem SameLimit.trans (hfg : SameLimit f g) (hgh : SameLimit g h) : SameLimit f h := by
  constructor
  · intro n
    obtain ⟨m, hm⟩ := hfg.1 n
    obtain ⟨l, hl⟩ := hgh.1 m
    exact ⟨l, hm.trans hl⟩
  · intro n
    obtain ⟨m, hm⟩ := hgh.2 n
    obtain ⟨l, hl⟩ := hfg.2 m
    exact ⟨l, hm.trans hl⟩

end SameLimit
