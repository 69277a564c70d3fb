import RvPipeline.Iss.Legal

/-!
# What a step can do

Every step of the simulator moves on to the next word, jumps, traps or returns; which of them a word
does can be told before the step.
-/

namespace RvPipeline

namespace Iss

variable {C : IssConfig} {σ τ σ' : Iss} {word : BitVec 32}

/-! ## Page faults -/

theorem loadMem_congr (h : τ.mem = σ.mem) (addr n : ℕ) : τ.loadMem C addr n = σ.loadMem C addr n := by
  induction n with
  | zero => rfl
  | succ n ih => rw [loadMem, loadMem, ih, loadMemByte, loadMemByte, h]

/-- The address in `tval` of a page fault. -/
def faultAddress (C : IssConfig) (vaddr : ℕ) : ℕ := if C.xlen = 32 then u32 vaddr else vaddr

theorem ite_mapError {α ε : Type} {f : ε → ε} {p : Prop} [Decidable p] {x x' y y' : Except ε α}
    (h : x = y.mapError f) (h' : x' = y'.mapError f) :
    (if p then x else x') = (if p then y else y').mapError f := by
  split_ifs
  · exact h
  · exact h'

/-- A translation sees the memory, the mode and `satp`; a fault traps. -/
theorem translate_congr (hmem : τ.mem = σ.mem) (hpriv : τ.privMode = σ.privMode)
    (hsatp : τ.csr csrAddrSatp = σ.csr csrAddrSatp) (vaddr : ℕ) (access : Access) :
    τ.translate C vaddr access =
      (σ.translate C vaddr access).mapError fun _ ↦
        τ.trap access.faultCause (faultAddress C vaddr) := by
  have hread : τ.readPte C = σ.readPte C := by
    funext addr size
    exact loadMem_congr hmem _ size
  have hperm : τ.ptePermOk = σ.ptePermOk := by
    funext pte access
    simp only [ptePermOk, hpriv]
  have hsv32 (h : C.xlen = 32) (satp : ℕ) : τ.translateSv32 C vaddr access satp =
      (σ.translateSv32 C vaddr access satp).mapError fun _ ↦
        τ.trap access.faultCause (faultAddress C vaddr) := by
    rw [faultAddress, if_pos h]
    unfold translateSv32
    rw [hread, hperm]
    repeat' first
      | rfl
      | apply ite_mapError
  have hsv39 (h : C.xlen ≠ 32) (satp : ℕ) : τ.translateSv39 C vaddr access satp =
      (σ.translateSv39 C vaddr access satp).mapError fun _ ↦
        τ.trap access.faultCause (faultAddress C vaddr) := by
    rw [faultAddress, if_neg h]
    unfold translateSv39
    rw [hread, hperm]
    repeat' first
      | rfl
      | apply ite_mapError
  rw [translate, translate, hpriv, hsatp]
  refine ite_mapError rfl ?_
  by_cases hC : C.xlen = 32
  · rw [if_pos hC, if_pos hC]
    exact ite_mapError rfl (hsv32 hC _)
  · rw [if_neg hC, if_neg hC]
    exact ite_mapError rfl (hsv39 hC _)

theorem translate_error {vaddr : ℕ} {access : Access} (h : σ.translate C vaddr access = .error σ') :
    σ' = σ.trap access.faultCause (faultAddress C vaddr) := by
  have hself := translate_congr (C := C) (σ := σ) rfl rfl rfl vaddr access
  rw [h] at hself
  exact Except.error.inj hself

/-! ## The kinds of steps -/

/-- What a step that moves on changes besides the program counter. -/
inductive Effect (C : IssConfig) (σ : Iss) : Iss → Prop where
  | same : Effect C σ σ
  | wr (rd : BitVec 5) (val : ℤ) : Effect C σ (σ.wr C rd val)
  | store (addr val n : ℕ) : Effect C σ (σ.storeMem C addr val n)
  | csr (addr : BitVec 12) (val : ℕ) (rd : BitVec 5) (old : ℕ) :
      Effect C σ ((σ.csrWrite addr val).wr C rd old)
  | freg (rd : BitVec 5) (bits : BitVec 32) :
      Effect C σ { σ with fregs := Function.update σ.fregs rd bits }
  | wrFloat (rd : BitVec 5) (r : Fp.Result) : Effect C σ (σ.wrFloat rd r)
  | wrInt (rd : BitVec 5) (r : Fp.Result) : Effect C σ (σ.wrInt C rd r)

/-- A step that does not move on. -/
inductive Leaves (C : IssConfig) (σ : Iss) : Iss → Prop where
  | jump (rd : BitVec 5) (val target : ℤ) :
      Leaves C σ { σ.wr C rd val with pc := C.uxlen target }
  | trap (cause tval : ℕ) : Leaves C σ (σ.trap cause tval)
  | mret : Leaves C σ σ.mret
  | sret : Leaves C σ σ.sret

/-- Whether the word ends with `self.pc = next_pc`. -/
def movesOn (C : IssConfig) (σ : Iss) (word : BitVec 32) : Bool :=
  let op := opcodeOf word
  let f3 := funct3Of word
  let A := σ.regs (rs1Of word)
  let B := σ.regs (rs2Of word)
  if word = 0 then true
  else if op = opcodeLoad ∨ op = opcodeLoadFp then
    (σ.translate C (C.uxlen (A + IssConfig.immI word)) .load).isOk
  else if op = opcodeStore ∨ op = opcodeStoreFp then
    (σ.translate C (C.uxlen (A + IssConfig.immS word)) .store).isOk
  else if op = opcodeBranch then !C.branchTaken f3 A B
  else if op = opcodeSystem then
    if f3 = csrF3None then funct7Of word == funct7SfenceVma && σ.privMode != privU
    else !decide (σ.privMode < (csrImm12Of word).extractLsb' 8 2)
  else if op = opcodeMiscMem then f3 == 0b000#3
  else
    decide (op ∈ [opcodeR, opcodeOp32, opcodeCustom, opcodeI, opcodeOpImm32, opcodeLui, opcodeAuipc,
      opcodeFp]) || isFmaOpcode op

/-- The step that is told by `movesOn`. -/
def Moves (C : IssConfig) (σ : Iss) (b : Bool) (σ' : Iss) : Prop :=
  if b then ∃ τ, Effect C σ τ ∧ σ' = { τ with pc := σ.pc + 4 } else Leaves C σ σ'

theorem Effect.moves (h : Effect C σ τ) : Moves C σ true { τ with pc := σ.pc + 4 } := ⟨τ, h, rfl⟩

theorem Leaves.moves (h : Leaves C σ σ') : Moves C σ false σ' := h

/-- The branches of `step` that compute a result and write it. -/
theorem moves_map {α : Type} {o : Option α} {f : α → Iss} (hf : ∀ a, Effect C σ (f a))
    (h : (o.map fun a ↦ { f a with pc := σ.pc + 4 }) = some σ') : Moves C σ true σ' := by
  obtain ⟨a, -, rfl⟩ := Option.map_eq_some_iff.mp h
  exact (hf a).moves

/-- The branches of `step` behind a translation. -/
theorem moves_translate {vaddr : ℕ} {access : Access} {f : ℕ → Option Iss}
    (hf : ∀ addr, f addr = some σ' → Moves C σ true σ')
    (h : (match σ.translate C vaddr access with
      | .error τ => some τ
      | .ok addr => f addr) = some σ') :
    Moves C σ (σ.translate C vaddr access).isOk σ' := by
  cases ht : σ.translate C vaddr access with
  | error τ =>
    rw [ht] at h
    obtain rfl := Option.some.inj h
    rw [translate_error ht]
    exact (Leaves.trap _ _).moves
  | ok addr =>
    rw [ht] at h
    exact hf addr h

theorem effect_ite {p : Prop} [Decidable p] {x y : Option Iss}
    (hx : ∀ τ, x = some τ → Effect C σ τ) (hy : ∀ τ, y = some τ → Effect C σ τ) :
    ∀ τ, (if p then x else y) = some τ → Effect C σ τ := by
  split_ifs
  · exact hx
  · exact hy

theorem effect_some (h : Effect C σ σ') : ∀ τ, some σ' = some τ → Effect C σ τ := by
  rintro τ ⟨⟩
  exact h

theorem effect_opFp : ∀ τ, σ.opFp C word = some τ → Effect C σ τ := by
  unfold opFp
  repeat' first
    | exact effect_some (.wrFloat _ _)
    | exact effect_some (.wrInt _ _)
    | exact effect_some (.wr _ _)
    | exact effect_some (.freg _ _)
    | apply effect_ite
  · -- the square root
    intro τ h
    obtain ⟨r, -, rfl⟩ := Option.map_eq_some_iff.mp h
    exact .wrFloat _ _
  · intro τ h
    cases h

theorem moves_system (h0 : word ≠ 0) (hop : opcodeOf word = opcodeSystem) {A : ℕ}
    (h : σ.system C word A = some σ') : Moves C σ (σ.movesOn C word) σ' := by
  have hmoves : σ.movesOn C word =
      if funct3Of word = csrF3None then funct7Of word == funct7SfenceVma && σ.privMode != privU
      else !decide (σ.privMode < (csrImm12Of word).extractLsb' 8 2) := by
    rw [movesOn, if_neg h0, hop]
    rfl
  rw [hmoves]
  simp only [system] at h
  by_cases hf3 : funct3Of word = csrF3None
  · rw [if_pos hf3] at h ⊢
    by_cases hf7 : funct7Of word = funct7SfenceVma
    · rw [if_pos hf7] at h
      rw [hf7, beq_self_eq_true, Bool.true_and]
      obtain rfl := Option.some.inj h
      by_cases hU : σ.privMode = privU
      · rw [if_pos hU, hU]
        exact (Leaves.trap _ _).moves
      · rw [if_neg hU, bne_iff_ne.mpr hU]
        exact Effect.same.moves
    · rw [if_neg hf7] at h
      rw [beq_false_of_ne hf7, Bool.false_and]
      split_ifs at h <;> obtain rfl := Option.some.inj h
      all_goals
        first
        | exact (Leaves.trap _ _).moves
        | exact Leaves.mret.moves
        | exact Leaves.sret.moves
  · rw [if_neg hf3] at h ⊢
    by_cases hpriv : σ.privMode < (csrImm12Of word).extractLsb' 8 2
    · rw [if_pos hpriv] at h
      obtain rfl := Option.some.inj h
      rw [decide_eq_true hpriv]
      exact (Leaves.trap _ _).moves
    · rw [if_neg hpriv] at h
      obtain rfl := Option.some.inj h
      rw [decide_eq_false hpriv]
      exact (Effect.csr _ _ _ _).moves

/-- The sizes as the float part gets them. -/
abbrev sizes (xlen memSize : ℕ) : IssConfig :=
  { memSize := memSize, xlen := xlen, fpStep := fun _ _ ↦ none }

theorem storeMem_sizes {xlen memSize : ℕ} (addr val n : ℕ) :
    σ.storeMem (sizes xlen memSize) addr val n = σ.storeMem (.full xlen memSize) addr val n := by
  induction n with
  | zero => rfl
  | succ n ih =>
    rw [storeMem, storeMem, ih]
    rfl

theorem Effect.full {xlen memSize : ℕ} (h : Effect (sizes xlen memSize) σ τ) :
    Effect (.full xlen memSize) σ τ := by
  cases h with
  | same => exact .same
  | wr rd val => exact .wr rd val
  | store addr val n =>
    rw [storeMem_sizes]
    exact .store addr val n
  | csr addr val rd old => exact .csr addr val rd old
  | freg rd bits => exact .freg rd bits
  | wrFloat rd r => exact .wrFloat rd r
  | wrInt rd r => exact .wrInt rd r

theorem moves_loadFp {xlen memSize : ℕ} (h0 : word ≠ 0) (hop : opcodeOf word = opcodeLoadFp)
    (h : σ.fpStep (sizes xlen memSize) word = some σ') :
    Moves (.full xlen memSize) σ (σ.movesOn (.full xlen memSize) word) σ' := by
  have hmoves : σ.movesOn (.full xlen memSize) word = (σ.translate (.full xlen memSize)
      (uXlen (σ.regs (rs1Of word) + IssConfig.immI word) xlen) .load).isOk := by
    rw [movesOn, if_neg h0, hop]
    rfl
  rw [hmoves]
  rw [fpStep, hop] at h
  exact moves_translate (fun addr haddr ↦ by
    cases haddr
    exact (Effect.freg _ _).moves) h

theorem moves_storeFp {xlen memSize : ℕ} (h0 : word ≠ 0) (hop : opcodeOf word = opcodeStoreFp)
    (h : σ.fpStep (sizes xlen memSize) word = some σ') :
    Moves (.full xlen memSize) σ (σ.movesOn (.full xlen memSize) word) σ' := by
  have hmoves : σ.movesOn (.full xlen memSize) word = (σ.translate (.full xlen memSize)
      (uXlen (σ.regs (rs1Of word) + IssConfig.immS word) xlen) .store).isOk := by
    rw [movesOn, if_neg h0, hop]
    rfl
  rw [hmoves]
  rw [fpStep, hop] at h
  exact moves_translate (fun addr haddr ↦ by
    cases haddr
    rw [storeMem_sizes]
    exact (Effect.store _ _ _).moves) h

/-- Each step of the simulator is one that `movesOn` tells. -/
theorem step_moves {xlen memSize : ℕ} (h : σ.step (.full xlen memSize) word = some σ') :
    Moves (.full xlen memSize) σ (σ.movesOn (.full xlen memSize) word) σ' := by
  by_cases h0 : word = 0
  · subst h0
    cases h
    exact Effect.same.moves
  by_cases hmem : opcodeOf word ∈ knownOpcodes
  · have hplain : opcodeOf word ∈ [opcodeR, opcodeOp32, opcodeCustom, opcodeI, opcodeOpImm32,
        opcodeLui, opcodeAuipc, opcodeFp, opcodeMadd, opcodeMsub, opcodeNmsub, opcodeNmadd] →
          σ.movesOn (.full xlen memSize) word = true := by
      intro hop
      simp only [List.mem_cons, List.not_mem_nil, or_false] at hop
      rw [movesOn, if_neg h0]
      rcases hop with hop | hop | hop | hop | hop | hop | hop | hop | hop | hop | hop | hop <;>
        rw [hop] <;> rfl
    have hleave : opcodeOf word ∈ [opcodeJal, opcodeJalr, opcodeAmo] →
        σ.movesOn (.full xlen memSize) word = false := by
      intro hop
      simp only [List.mem_cons, List.not_mem_nil, or_false] at hop
      rw [movesOn, if_neg h0]
      rcases hop with hop | hop | hop <;> rw [hop] <;> rfl
    simp only [knownOpcodes, List.mem_cons, List.not_mem_nil, or_false] at hmem
    rw [step, if_neg h0] at h
    rcases hmem with hop | hop | hop | hop | hop | hop | hop | hop | hop | hop | hop | hop | hop |
      hop | hop | hop | hop | hop | hop | hop | hop | hop
    · -- ctz
      rw [hplain (by rw [hop]; decide)]
      rw [hop] at h
      cases h
      exact (Effect.wr _ _).moves
    · -- loads
      have hmoves : σ.movesOn (.full xlen memSize) word = (σ.translate (.full xlen memSize)
          (uXlen (σ.regs (rs1Of word) + IssConfig.immI word) xlen) .load).isOk := by
        rw [movesOn, if_neg h0, hop]
        rfl
      rw [hmoves]
      rw [hop] at h
      exact moves_translate (fun addr haddr ↦ moves_map (fun _ ↦ .wr _ _) haddr) h
    · -- stores
      have hmoves : σ.movesOn (.full xlen memSize) word = (σ.translate (.full xlen memSize)
          (uXlen (σ.regs (rs1Of word) + IssConfig.immS word) xlen) .store).isOk := by
        rw [movesOn, if_neg h0, hop]
        rfl
      rw [hmoves]
      rw [hop] at h
      exact moves_translate (fun addr haddr ↦ moves_map (fun _ ↦ .store _ _ _) haddr) h
    · -- the A extension traps
      rw [hleave (by rw [hop]; decide)]
      rw [hop] at h
      cases h
      exact (Leaves.trap _ _).moves
    · -- I-type
      rw [hplain (by rw [hop]; decide)]
      rw [hop] at h
      cases h
      exact (Effect.wr _ _).moves
    · -- R-type
      rw [hplain (by rw [hop]; decide)]
      rw [hop] at h
      exact moves_map (fun _ ↦ .wr _ _) h
    · -- OP-32
      rw [hplain (by rw [hop]; decide)]
      rw [hop] at h
      exact moves_map (fun _ ↦ .wr _ _) h
    · -- OP-IMM-32
      rw [hplain (by rw [hop]; decide)]
      rw [hop] at h
      exact moves_map (fun _ ↦ .wr _ _) h
    · -- branches
      have hmoves : σ.movesOn (.full xlen memSize) word =
          !(IssConfig.full xlen memSize).branchTaken (funct3Of word) (σ.regs (rs1Of word))
            (σ.regs (rs2Of word)) := by
        rw [movesOn, if_neg h0, hop]
        rfl
      rw [hmoves]
      rw [hop] at h
      cases h
      cases hb : (IssConfig.full xlen memSize).branchTaken (funct3Of word) (σ.regs (rs1Of word))
        (σ.regs (rs2Of word)) with
      | true => exact (Leaves.jump 0 0 (σ.pc + IssConfig.branchOffset word)).moves
      | false => exact Effect.same.moves
    · -- jal
      rw [hleave (by rw [hop]; decide)]
      rw [hop] at h
      cases h
      exact (Leaves.jump _ _ (σ.pc + IssConfig.jalOffset word)).moves
    · -- jalr
      rw [hleave (by rw [hop]; decide)]
      rw [hop] at h
      cases h
      exact (Leaves.jump (rdOf word) (σ.pc + 4 : ℕ) _).moves
    · -- lui
      rw [hplain (by rw [hop]; decide)]
      rw [hop] at h
      cases h
      exact (Effect.wr _ _).moves
    · -- auipc
      rw [hplain (by rw [hop]; decide)]
      rw [hop] at h
      cases h
      exact (Effect.wr _ _).moves
    · rw [hop] at h
      exact moves_system h0 hop h
    · -- OP-FP
      rw [hplain (by rw [hop]; decide)]
      rw [hop] at h
      have hfp : σ.fpStep (sizes xlen memSize) word = some σ' := h
      rw [fpStep, hop] at hfp
      obtain ⟨τ, hτ, rfl⟩ := Option.map_eq_some_iff.mp hfp
      exact (effect_opFp τ hτ).full.moves
    · rw [hop] at h
      exact moves_loadFp h0 hop h
    · rw [hop] at h
      exact moves_storeFp h0 hop h
    iterate 4
      · -- the fused forms
        rw [hplain (by rw [hop]; decide)]
        rw [hop] at h
        have hfp : σ.fpStep (sizes xlen memSize) word = some σ' := h
        rw [fpStep, hop] at hfp
        cases hfp
        exact (Effect.wrFloat _ _).moves
    · -- fence
      have hmoves : σ.movesOn (.full xlen memSize) word = (funct3Of word == 0b000#3) := by
        rw [movesOn, if_neg h0, hop]
        rfl
      rw [hmoves]
      rw [hop] at h
      by_cases hf3 : funct3Of word = 0b000#3
      · rw [hf3] at h ⊢
        cases h
        exact Effect.same.moves
      · rw [beq_false_of_ne hf3]
        have hlast : ¬(opcodeMiscMem = opcodeMiscMem ∧ funct3Of word = 0b000#3) := fun h ↦ hf3 h.2
        have htrap : σ.trap mcauseIllegalInstruction 0 = σ' :=
          Option.some.inj ((if_neg hlast).symm.trans h)
        rw [← htrap]
        exact (Leaves.trap _ _).moves
  · have hmoves : σ.movesOn (.full xlen memSize) word = false := by
      simp only [knownOpcodes, List.mem_cons, List.not_mem_nil, or_false, not_or] at hmem
      rw [movesOn, if_neg h0]
      simp [hmem, isFmaOpcode]
    rw [step_trap (.inl ⟨h0, .inl hmem⟩)] at h
    rw [hmoves, ← Option.some.inj h]
    exact (Leaves.trap _ _).moves

end Iss

end RvPipeline
