import RvPipeline.Iss.Arith

/-!
# Words executed one after another

Words that only write integer registers, given to the simulator in turn.
-/

namespace RvPipeline

theorem upper_eq (word : BitVec 32) :
    (word.extractLsb' 12 20 ++ 0#12 : BitVec 32) = word &&& 0xFFFFF000#32 := by
  apply BitVec.eq_of_getLsbD_eq
  intro i hi
  rw [BitVec.getLsbD_append, BitVec.getLsbD_and]
  interval_cases i <;> simp

namespace Iss

variable {C : IssConfig} {σ : Iss} {word : BitVec 32}

theorem step_itype (hop : opcodeOf word = opcodeI) :
    σ.step C word =
      some { σ.wr C (rdOf word) (C.itype word (σ.regs (rs1Of word))) with pc := σ.pc + 4 } := by
  have hne : word ≠ 0 := by
    rintro rfl
    cases hop
  rw [step, if_neg hne]
  simp only [hop]
  rfl

theorem step_lui (hop : opcodeOf word = opcodeLui) :
    σ.step C word =
      some { σ.wr C (rdOf word) (s32 (word &&& 0xFFFFF000#32).toNat) with pc := σ.pc + 4 } := by
  have hne : word ≠ 0 := by
    rintro rfl
    cases hop
  rw [step, if_neg hne]
  simp only [hop]
  rfl

theorem step_rtype (hop : opcodeOf word = opcodeR) {res : ℕ}
    (hres : C.rtype (funct7Of word) (funct3Of word) (σ.regs (rs1Of word)) (σ.regs (rs2Of word)) =
      some res) :
    σ.step C word = some { σ.wr C (rdOf word) res with pc := σ.pc + 4 } := by
  have hne : word ≠ 0 := by
    rintro rfl
    cases hop
  rw [step, if_neg hne]
  simp only [hop, if_true, hres]
  rfl

/-- The words in turn. -/
def exec (C : IssConfig) (ws : List (BitVec 32)) (σ : Iss) : Option Iss :=
  ws.foldlM (fun σ word ↦ σ.step C word) σ

/-- From every state the words are executed to their end; they change the integer registers by `F`
and leave all else but the trace. -/
def Runs (C : IssConfig) (ws : List (BitVec 32)) (F : (BitVec 5 → ℕ) → BitVec 5 → ℕ) : Prop :=
  ∀ σ, ∃ trace, exec C ws σ =
    some { σ with regs := F σ.regs, pc := σ.pc + 4 * ws.length, trace := trace }

theorem exec_append (ws ws' : List (BitVec 32)) :
    exec C (ws ++ ws') σ = (exec C ws σ).bind (exec C ws') :=
  List.foldlM_append

theorem Runs.append {ws ws' : List (BitVec 32)} {F G : (BitVec 5 → ℕ) → BitVec 5 → ℕ}
    (h : Runs C ws F) (h' : Runs C ws' G) : Runs C (ws ++ ws') fun f ↦ G (F f) := by
  intro σ
  obtain ⟨t, ht⟩ := h σ
  obtain ⟨t', ht'⟩ := h' { σ with regs := F σ.regs, pc := σ.pc + 4 * ws.length, trace := t }
  refine ⟨t', ?_⟩
  rw [exec_append, ht, Option.bind_some, ht', List.length_append]
  simp only [Option.some.injEq, mk.injEq, and_true, true_and]
  ring

/-- One word that writes a register. -/
theorem runs_wr {rd : BitVec 5} (hrd : rd ≠ 0) {val : (BitVec 5 → ℕ) → ℤ}
    (h : ∀ σ : Iss, σ.step C word = some { σ.wr C rd (val σ.regs) with pc := σ.pc + 4 }) :
    Runs C [word] fun f ↦ Function.update f rd (C.uxlen (val f)) := by
  intro σ
  refine ⟨(σ.wr C rd (val σ.regs)).trace, ?_⟩
  rw [exec, List.foldlM_cons, h]
  simp only [wr, if_pos hrd]
  rfl

end Iss

end RvPipeline
