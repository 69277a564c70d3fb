import Mathlib.Logic.Function.Basic

/-!
# Overlays

Lines that hold blocks of a memory, some of them newer than the memory itself.  What the two
together represent is a memory again, and every move a write-back cache makes either leaves it
alone or stores one word in it.
-/

variable {ι β κ V : Type*}

section Words

variable [DecidableEq β] [DecidableEq κ]

/-- One word of one block changed. -/
def writeWord (m : β → κ → V) (b : β) (i : κ) (v : V) : β → κ → V :=
  Function.update m b (Function.update (m b) i v)

@[simp] theorem writeWord_self (m : β → κ → V) (b : β) (i : κ) (v : V) :
    writeWord m b i v b = Function.update (m b) i v := by
  simp [writeWord]

theorem writeWord_of_ne (m : β → κ → V) {b b' : β} (h : b' ≠ b) (i : κ) (v : V) :
    writeWord m b i v b' = m b' := by
  simp [writeWord, h]

end Words

/-- Lines over a memory; `line l` is the block that line `l` holds. -/
structure Overlay (ι β κ V : Type*) where
  line : ι → Option β
  dirty : ι → Bool
  data : ι → κ → V
  mem : β → κ → V

namespace Overlay

/-- The overlay shows the memory `gold`. -/
structure Represents (o : Overlay ι β κ V) (gold : β → κ → V) : Prop where
  unique : ∀ l l' b, o.line l = some b → o.line l' = some b → l = l'
  held : ∀ l b, o.line l = some b → o.data l = gold b
  clean : ∀ l b, o.line l = some b → o.dirty l = false → o.mem b = gold b
  rest : ∀ b, (∀ l, o.line l ≠ some b) → o.mem b = gold b

section Moves

variable [DecidableEq ι] (o : Overlay ι β κ V)

/-- A store to line `l`. -/
def store [DecidableEq κ] (l : ι) (i : κ) (v : V) : Overlay ι β κ V :=
  { o with data := writeWord o.data l i v, dirty := Function.update o.dirty l true }

/-- A word of line `l` that is not shown. -/
def fill [DecidableEq κ] (l : ι) (i : κ) (v : V) : Overlay ι β κ V :=
  { o with data := writeWord o.data l i v }

/-- Line `l` agrees with the memory again. -/
def wash (l : ι) : Overlay ι β κ V := { o with dirty := Function.update o.dirty l false }

/-- Line `l` gives up its block. -/
def drop (l : ι) : Overlay ι β κ V := { o with line := Function.update o.line l none }

/-- Line `l` takes block `b`. -/
def install (l : ι) (b : β) (d : Bool) : Overlay ι β κ V :=
  { o with line := Function.update o.line l (some b), dirty := Function.update o.dirty l d }

end Moves

namespace Represents

variable {o : Overlay ι β κ V} {gold : β → κ → V} {l : ι} {b : β} (h : o.Represents gold)

include h

theorem store [DecidableEq ι] [DecidableEq β] [DecidableEq κ] (hl : o.line l = some b)
    (i : κ) (v : V) :
    (o.store l i v).Represents (writeWord gold b i v) where
  unique := h.unique
  held l' b' hl' := by
    rcases eq_or_ne l' l with rfl | hne
    · obtain rfl : b' = b := Option.some.inj (hl'.symm.trans hl)
      simp [Overlay.store, h.held l' b' hl]
    · have hb : b' ≠ b := fun hb ↦ hne (h.unique l' l b (hb ▸ hl') hl)
      simp only [Overlay.store, writeWord_of_ne _ hne, writeWord_of_ne _ hb]
      exact h.held l' b' hl'
  clean l' b' hl' hd := by
    rcases eq_or_ne l' l with rfl | hne
    · simp [Overlay.store] at hd
    · have hb : b' ≠ b := fun hb ↦ hne (h.unique l' l b (hb ▸ hl') hl)
      rw [writeWord_of_ne _ hb]
      exact h.clean l' b' hl' (by simpa [Overlay.store, hne] using hd)
  rest b' hb' := by
    have hb : b' ≠ b := by
      rintro rfl
      exact hb' l hl
    rw [writeWord_of_ne _ hb]
    exact h.rest b' hb'

theorem fill [DecidableEq ι] [DecidableEq κ] (hl : o.line l = none) (i : κ) (v : V) :
    (o.fill l i v).Represents gold where
  unique := h.unique
  held l' b' hl' := by
    have hne : l' ≠ l := by
      rintro rfl
      exact absurd (hl.symm.trans hl') (by simp)
    simp only [Overlay.fill, writeWord_of_ne _ hne]
    exact h.held l' b' hl'
  clean := h.clean
  rest := h.rest

/-- Below a dirty line the memory may be anything. -/
theorem withMem {mem : β → κ → V} (hl : o.line l = some b) (hd : o.dirty l = true)
    (hmem : ∀ b', b' ≠ b → mem b' = o.mem b') : { o with mem := mem }.Represents gold where
  unique := h.unique
  held := h.held
  clean l' b' hl' hd' := by
    have hb : b' ≠ b := by
      rintro rfl
      obtain rfl := h.unique l' l b' hl' hl
      exact absurd (hd'.symm.trans hd) Bool.false_ne_true
    exact (hmem b' hb).trans (h.clean l' b' hl' hd')
  rest b' hb' := (hmem b' fun hb ↦ hb' l (hb ▸ hl)).trans (h.rest b' hb')

theorem wash [DecidableEq ι] (hl : o.line l = some b) (hmem : o.mem b = o.data l) :
    (o.wash l).Represents gold where
  unique := h.unique
  held := h.held
  clean l' b' hl' hd' := by
    rcases eq_or_ne l' l with rfl | hne
    · obtain rfl : b' = b := Option.some.inj (hl'.symm.trans hl)
      exact hmem.trans (h.held l' b' hl)
    · exact h.clean l' b' hl' (by simpa [Overlay.wash, hne] using hd')
  rest := h.rest

theorem drop [DecidableEq ι] (hclean : o.line l ≠ none → o.dirty l = false) :
    (o.drop l).Represents gold where
  unique l₁ l₂ b' h₁ h₂ := by
    have hl₁ : l₁ ≠ l := by rintro rfl; simp [Overlay.drop] at h₁
    have hl₂ : l₂ ≠ l := by rintro rfl; simp [Overlay.drop] at h₂
    exact h.unique l₁ l₂ b' (by simpa [Overlay.drop, hl₁] using h₁)
      (by simpa [Overlay.drop, hl₂] using h₂)
  held l' b' hl' := by
    have hne : l' ≠ l := by rintro rfl; simp [Overlay.drop] at hl'
    exact h.held l' b' (by simpa [Overlay.drop, hne] using hl')
  clean l' b' hl' hd := by
    have hne : l' ≠ l := by rintro rfl; simp [Overlay.drop] at hl'
    exact h.clean l' b' (by simpa [Overlay.drop, hne] using hl') hd
  rest b' hb' := by
    by_cases hl : o.line l = some b'
    · exact h.clean l b' hl (hclean (by simp [hl]))
    · refine h.rest b' fun l' ↦ ?_
      rcases eq_or_ne l' l with rfl | hne
      · exact hl
      · simpa [Overlay.drop, hne] using hb' l'

/-- A block no line holds comes in; what is stored in it on the way may differ from what the
memory has. -/
theorem install [DecidableEq ι] (gold' : β → κ → V) (hl : o.line l = none)
    (hb : ∀ l', o.line l' ≠ some b) {d : Bool} (hdata : o.data l = gold' b)
    (hrest : ∀ b', b' ≠ b → gold' b' = gold b')
    (hd : d = false → gold' b = gold b) : (o.install l b d).Represents gold' where
  unique l₁ l₂ b' h₁ h₂ := by
    by_cases hl₁ : l₁ = l <;> by_cases hl₂ : l₂ = l
    · exact hl₁.trans hl₂.symm
    · subst hl₁
      obtain rfl : b = b' := by simpa [Overlay.install] using h₁
      exact absurd (by simpa [Overlay.install, hl₂] using h₂) (hb l₂)
    · subst hl₂
      obtain rfl : b = b' := by simpa [Overlay.install] using h₂
      exact absurd (by simpa [Overlay.install, hl₁] using h₁) (hb l₁)
    · exact h.unique l₁ l₂ b' (by simpa [Overlay.install, hl₁] using h₁)
        (by simpa [Overlay.install, hl₂] using h₂)
  held l' b' hl' := by
    rcases eq_or_ne l' l with rfl | hne
    · obtain rfl : b = b' := by simpa [Overlay.install] using hl'
      exact hdata
    · have hl'' : o.line l' = some b' := by simpa [Overlay.install, hne] using hl'
      exact (h.held l' b' hl'').trans (hrest b' fun he ↦ hb l' (he ▸ hl'')).symm
  clean l' b' hl' hd' := by
    rcases eq_or_ne l' l with rfl | hne
    · obtain rfl : b = b' := by simpa [Overlay.install] using hl'
      rw [hd (by simpa [Overlay.install] using hd')]
      exact h.rest b hb
    · have hl'' : o.line l' = some b' := by simpa [Overlay.install, hne] using hl'
      rw [hrest b' fun he ↦ hb l' (he ▸ hl'')]
      exact h.clean l' b' hl'' (by simpa [Overlay.install, hne] using hd')
  rest b' hb' := by
    have hne : b' ≠ b := fun he ↦ hb' l (by simp [Overlay.install, he])
    rw [hrest b' hne]
    refine h.rest b' fun l' ↦ ?_
    rcases eq_or_ne l' l with rfl | hne'
    · simp [hl]
    · simpa [Overlay.install, hne'] using hb' l'

theorem mem_eq (hclean : ∀ l b, o.line l = some b → o.dirty l = false) : o.mem = gold := by
  funext b
  by_cases hb : ∃ l, o.line l = some b
  · obtain ⟨l, hl⟩ := hb
    exact h.clean l b hl (hclean l b hl)
  · exact h.rest b fun l hl ↦ hb ⟨l, hl⟩

end Represents

end Overlay
