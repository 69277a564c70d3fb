import RvPipeline.Iss.Legal

/-!
# Words that raise

The reserved encodings that `ISS.step` meets with a Python exception instead of a trap.
-/

namespace RvPipeline

namespace Iss

variable {C : IssConfig} {σ σ' : Iss} {word : BitVec 32}

attribute [local instance] Py.decideMem in
/-- Whether the word raises, told before the step. -/
def raises (C : IssConfig) (σ : Iss) (word : BitVec 32) : Bool :=
  let op := opcodeOf word
  let f3 := funct3Of word
  let f7 := funct7Of word
  let A := σ.regs (rs1Of word)
  if op = opcodeR then
    decide (f7 ∉ [funct7Base, funct7Alt, funct7Muldiv]) && decide (f3 ∈ [0b000#3, 0b101#3])
  else if op = opcodeOp32 then
    f7 != funct7Muldiv && (f3 != 0b001#3 &&
      (decide (f7 ∉ [funct7Base, funct7Alt]) || decide (f3 ∉ [0b000#3, 0b101#3])))
  else if op = opcodeOpImm32 then decide (f3 ∉ [0b000#3, 0b001#3, 0b101#3])
  else if op = opcodeLoad then
    (σ.translate C (C.uxlen (A + IssConfig.immI word)) .load).isOk && f3 == 0b111#3
  else if op = opcodeStore then
    (σ.translate C (C.uxlen (A + IssConfig.immS word)) .store).isOk && decide (0b100#3 ≤ f3)
  else if op = opcodeSystem then
    f3 == csrF3None && (f7 != funct7SfenceVma && (csrImm12Of word == csrImm12Ecall &&
      decide (σ.privMode ∉ [privM, privS, privU])))
  else if op = opcodeFp then decide (word.extractLsb' 27 5 ∉ opFpFuncts)
  else false

theorem rtype_eq_none_iff {f7 : BitVec 7} {f3 : BitVec 3} (A B : ℕ) :
    C.rtype f7 f3 A B = none ↔
      f7 ∉ [funct7Base, funct7Alt, funct7Muldiv] ∧ f3 ∈ [0b000#3, 0b101#3] := by
  rcases bv3_cases f3 with rfl | rfl | rfl | rfl | rfl | rfl | rfl | rfl <;>
    simp +decide only [IssConfig.rtype] <;> split_ifs <;> simp_all +decide

theorem op32_eq_none_iff {f7 : BitVec 7} {f3 : BitVec 3} (A B : ℕ) :
    IssConfig.op32 f7 f3 A B = none ↔
      f7 ≠ funct7Muldiv ∧ f3 ≠ 0b001#3 ∧
        (f7 ∉ [funct7Base, funct7Alt] ∨ f3 ∉ [0b000#3, 0b101#3]) := by
  rcases bv3_cases f3 with rfl | rfl | rfl | rfl | rfl | rfl | rfl | rfl <;>
    simp +decide only [IssConfig.op32] <;> split_ifs <;> simp_all +decide

theorem opImm32_eq_none_iff (A : ℕ) :
    IssConfig.opImm32 word A = none ↔ funct3Of word ∉ [0b000#3, 0b001#3, 0b101#3] := by
  simp only [IssConfig.opImm32]
  split_ifs <;> simp_all

theorem loadResult_eq_none_iff {f3 : BitVec 3} (addr : ℕ) :
    σ.loadResult C f3 addr = none ↔ f3 = 0b111#3 := by
  constructor
  · intro h
    by_contra hne
    exact loadResult_ne_none addr hne h
  · rintro rfl
    rfl

theorem storeBytes_eq_none_iff {f3 : BitVec 3} : storeBytes f3 = none ↔ 0b100#3 ≤ f3 := by
  revert f3
  decide

theorem opFp_eq_none_iff : σ.opFp C word = none ↔ word.extractLsb' 27 5 ∉ opFpFuncts := by
  constructor
  · exact fun h hmem ↦ opFp_ne_none_of_mem hmem h
  · intro h
    simp only [opFpFuncts, List.mem_cons, List.not_mem_nil, or_false, not_or] at h
    simp [opFp, h]

theorem system_eq_none_iff (A : ℕ) : σ.system C word A = none ↔
    funct3Of word = csrF3None ∧ funct7Of word ≠ funct7SfenceVma ∧
      csrImm12Of word = csrImm12Ecall ∧ σ.privMode ∉ [privM, privS, privU] := by
  simp only [system, List.mem_cons, List.not_mem_nil, or_false, not_or]
  split_ifs <;> simp_all

theorem map_eq_none {α β : Type} {o : Option α} (f : α → β) (g : β → Iss) :
    Option.map g (o >>= fun a ↦ pure (f a)) = none ↔ o = none := by
  cases o with
  | none => exact iff_of_true rfl rfl
  | some a => exact iff_of_false (Option.some_ne_none _) (Option.some_ne_none _)

theorem fpStep_eq_none_iff {B : IssConfig} :
    σ.fpStep B word = none ↔
      opcodeOf word = opcodeFp ∧ word.extractLsb' 27 5 ∉ opFpFuncts := by
  by_cases hfp : opcodeOf word = opcodeFp
  · rw [fpStep, hfp]
    change (σ.opFp B word).map _ = none ↔ _
    rw [Option.map_eq_none_iff, opFp_eq_none_iff]
    exact (and_iff_right rfl).symm
  · refine iff_of_false ?_ fun h ↦ hfp h.1
    simp only [fpStep, if_neg hfp]
    split_ifs
    · split <;> exact Option.some_ne_none _
    · split <;> exact Option.some_ne_none _
    · exact not_false

/-- A translated access raises exactly if it is translated and its body raises. -/
theorem access_eq_none_iff {vaddr : ℕ} {access : Access} {f : ℕ → Option Iss} {p : Prop}
    (hf : ∀ addr, f addr = none ↔ p) :
    (match σ.translate C vaddr access with
      | .error τ => some τ
      | .ok addr => f addr) = none ↔ (σ.translate C vaddr access).isOk = true ∧ p := by
  cases σ.translate C vaddr access with
  | error τ => exact iff_of_false (Option.some_ne_none _) fun h ↦ Bool.false_ne_true h.1
  | ok addr => exact (hf addr).trans (and_iff_right rfl).symm

/-- `ISS.step` raises exactly on these words. -/
theorem step_eq_none_iff {xlen memSize : ℕ} :
    σ.step (.full xlen memSize) word = none ↔ σ.raises (.full xlen memSize) word = true := by
  by_cases h0 : word = 0
  · subst h0
    exact iff_of_false (Option.some_ne_none _) Bool.false_ne_true
  by_cases hmem : opcodeOf word ∈ knownOpcodes
  · have hnever : opcodeOf word ∈ [opcodeCustom, opcodeAmo, opcodeI, opcodeBranch, opcodeJal,
        opcodeJalr, opcodeLui, opcodeAuipc, opcodeLoadFp, opcodeStoreFp, opcodeMadd, opcodeMsub,
        opcodeNmsub, opcodeNmadd, opcodeMiscMem] →
          ¬σ.raises (.full xlen memSize) word = true := by
      intro hop
      simp only [List.mem_cons, List.not_mem_nil, or_false] at hop
      rw [raises]
      rcases hop with hop | hop | hop | hop | hop | hop | hop | hop | hop | hop | hop | hop | hop |
        hop | hop <;> rw [hop] <;> exact Bool.false_ne_true
    simp only [knownOpcodes, List.mem_cons, List.not_mem_nil, or_false] at hmem
    rw [step, if_neg h0]
    rcases hmem with hop | hop | hop | hop | hop | hop | hop | hop | hop | hop | hop | hop | hop |
      hop | hop | hop | hop | hop | hop | hop | hop | hop
    · refine iff_of_false ?_ (hnever (by rw [hop]; decide))
      rw [hop]
      exact Option.some_ne_none _
    · -- loads
      have hraises : σ.raises (.full xlen memSize) word = ((σ.translate (.full xlen memSize)
          (uXlen (σ.regs (rs1Of word) + IssConfig.immI word) xlen) .load).isOk &&
            funct3Of word == 0b111#3) := by
        rw [raises, hop]
        rfl
      rw [hraises, Bool.and_eq_true, beq_iff_eq, hop]
      exact access_eq_none_iff fun addr ↦
        Option.map_eq_none_iff.trans (loadResult_eq_none_iff addr)
    · -- stores
      have hraises : σ.raises (.full xlen memSize) word = ((σ.translate (.full xlen memSize)
          (uXlen (σ.regs (rs1Of word) + IssConfig.immS word) xlen) .store).isOk &&
            decide (0b100#3 ≤ funct3Of word)) := by
        rw [raises, hop]
        rfl
      rw [hraises, Bool.and_eq_true, decide_eq_true_eq, hop]
      exact access_eq_none_iff fun addr ↦ Option.map_eq_none_iff.trans storeBytes_eq_none_iff
    · refine iff_of_false ?_ (hnever (by rw [hop]; decide))
      rw [hop]
      exact Option.some_ne_none _
    · refine iff_of_false ?_ (hnever (by rw [hop]; decide))
      rw [hop]
      exact Option.some_ne_none _
    · -- R-type
      have hraises : σ.raises (.full xlen memSize) word =
          (decide (funct7Of word ∉ [funct7Base, funct7Alt, funct7Muldiv]) &&
            decide (funct3Of word ∈ [0b000#3, 0b101#3])) := by
        rw [raises, hop]
        rfl
      rw [hraises, Bool.and_eq_true, decide_eq_true_eq, decide_eq_true_eq, hop]
      exact (map_eq_none _ _).trans (rtype_eq_none_iff _ _)
    · -- OP-32
      have hraises : σ.raises (.full xlen memSize) word =
          (funct7Of word != funct7Muldiv && (funct3Of word != 0b001#3 &&
            (decide (funct7Of word ∉ [funct7Base, funct7Alt]) ||
              decide (funct3Of word ∉ [0b000#3, 0b101#3])))) := by
        rw [raises, hop]
        rfl
      rw [hraises, Bool.and_eq_true, Bool.and_eq_true, Bool.or_eq_true, bne_iff_ne, bne_iff_ne,
        decide_eq_true_eq, decide_eq_true_eq, hop]
      exact (map_eq_none _ _).trans (op32_eq_none_iff _ _)
    · -- OP-IMM-32
      have hraises : σ.raises (.full xlen memSize) word =
          decide (funct3Of word ∉ [0b000#3, 0b001#3, 0b101#3]) := by
        rw [raises, hop]
        rfl
      rw [hraises, decide_eq_true_eq, hop]
      exact (map_eq_none _ _).trans (opImm32_eq_none_iff _)
    iterate 5
      · -- branches, jumps and the upper immediates
        refine iff_of_false ?_ (hnever (by rw [hop]; decide))
        rw [hop]
        exact Option.some_ne_none _
    · -- SYSTEM
      have hraises : σ.raises (.full xlen memSize) word =
          (funct3Of word == csrF3None && (funct7Of word != funct7SfenceVma &&
            (csrImm12Of word == csrImm12Ecall && decide (σ.privMode ∉ [privM, privS, privU])))) := by
        rw [raises, hop]
        rfl
      rw [hraises, Bool.and_eq_true, Bool.and_eq_true, Bool.and_eq_true, beq_iff_eq, bne_iff_ne,
        beq_iff_eq, decide_eq_true_eq, hop]
      exact system_eq_none_iff _
    · -- OP-FP
      have hraises : σ.raises (.full xlen memSize) word =
          decide (word.extractLsb' 27 5 ∉ opFpFuncts) := by
        rw [raises, hop]
        rfl
      rw [hraises, decide_eq_true_eq, hop]
      exact fpStep_eq_none_iff.trans (and_iff_right hop)
    iterate 6
      · -- the float opcodes besides
        refine iff_of_false ?_ (hnever (by rw [hop]; decide))
        rw [hop]
        exact fun h ↦ absurd (hop.symm.trans
          (fpStep_eq_none_iff.mp h).1) (by decide)
    · -- fence
      refine iff_of_false ?_ (hnever (by rw [hop]; decide))
      rw [hop]
      change (if _ then some _ else some _) ≠ none
      split_ifs <;> exact Option.some_ne_none _
  · rw [step_trap (.inl ⟨h0, .inl hmem⟩)]
    refine iff_of_false (Option.some_ne_none _) ?_
    simp only [knownOpcodes, List.mem_cons, List.not_mem_nil, or_false, not_or] at hmem
    simp [raises, hmem]

end Iss

end RvPipeline
