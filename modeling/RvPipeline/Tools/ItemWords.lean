import RvPipeline.Tools.Constants
import RvPipeline.Tools.Decoded

/-!
# The words of the items

Every item that `gen_program` can draw is read by the assembler, and this is the word it becomes; a
branch and a jump become one if their label is near enough.
-/

namespace RvPipeline.Tools

open Py Disasm

variable {U : Unicode} {xlen : ℕ}

/-! ## The forms of the mnemonics -/

theorem jal_forms : ("jal".toList, Form.jal) ∈ forms := by
  unfold forms
  simp only [List.mem_append, List.mem_cons, true_or, or_true]

theorem fence_forms : ("fence".toList, Form.fence) ∈ forms := by
  unfold forms
  simp only [List.mem_append, List.mem_cons, true_or, or_true]

theorem flw_forms : ("flw".toList, Form.flw) ∈ forms := by
  unfold forms
  simp only [List.mem_append, List.mem_cons, true_or, or_true]

theorem fsw_forms : ("fsw".toList, Form.fsw) ∈ forms := by
  unfold forms
  simp only [List.mem_append, List.mem_cons, true_or, or_true]

theorem fsqrt_forms : ("fsqrt.s".toList, Form.fsqrt) ∈ forms := by
  unfold forms
  simp only [List.mem_append, List.mem_cons, true_or, or_true]

theorem fmvWX_forms : ("fmv.w.x".toList, Form.fmvWX) ∈ forms := by
  unfold forms
  simp only [List.mem_append, List.mem_cons, true_or, or_true]

theorem mret_forms : ("mret".toList, Form.system 0x302#12) ∈ forms := by
  have htable : ("mret".toList, Form.system 0x302#12) ∈
      systemImm12.map fun e ↦ (e.1, Form.system e.2) := by
    simp only [systemImm12, List.map_cons, List.mem_cons, true_or, or_true]
  unfold forms
  simp only [List.mem_append, htable, true_or, or_true]

namespace RandomGen

theorem forms_of_pool {τ : Type} {pool : List Str} {table : List (Str × τ)} (mk : Str → τ → Form)
    (hpool : pool ⊆ table.map Prod.fst)
    (hforms : table.map (fun e ↦ (e.1, mk e.1 e.2)) ⊆ forms) {mn : Str} (h : mn ∈ pool) :
    ∃ t, (mn, t) ∈ table ∧ (mn, mk mn t) ∈ forms := by
  obtain ⟨e, he, rfl⟩ := List.mem_map.mp (hpool h)
  exact ⟨e.2, he, hforms (List.mem_map_of_mem he)⟩

variable {P : GenParams} {mn : Str}

theorem rType_forms (h : mn ∈ rType) :
    ∃ t, (mn, t) ∈ rTypeTable ∧ (mn, Form.rType t.1 t.2) ∈ forms := by
  refine forms_of_pool (fun (_ : Str) (t : BitVec 7 × BitVec 3) ↦ Form.rType t.1 t.2) ?_ ?_ h
  · simp only [rType, names, rTypeTable, List.map_cons, List.map_nil, List.Subset.refl]
  · intro e he
    unfold forms
    simp only [List.mem_append, he, true_or, or_true]

theorem rTypeW_forms (h : mn ∈ rTypeW) :
    ∃ t, (mn, t) ∈ rTypeWTable ∧ (mn, Form.rTypeW t.1 t.2) ∈ forms := by
  refine forms_of_pool (fun (_ : Str) (t : BitVec 7 × BitVec 3) ↦ Form.rTypeW t.1 t.2) ?_ ?_ h
  · simp only [rTypeW, names, rTypeWTable, List.map_cons, List.map_nil, List.Subset.refl]
  · intro e he
    unfold forms
    simp only [List.mem_append, he, true_or, or_true]

theorem iTypeW_forms (h : mn ∈ iTypeW) :
    ∃ t, (mn, t) ∈ iTypeWTable ∧ (mn, Form.iTypeW t (shiftKind mn)) ∈ forms := by
  refine forms_of_pool (fun mn (f3 : BitVec 3) ↦ Form.iTypeW f3 (shiftKind mn)) ?_ ?_ h
  · simp only [iTypeW, names, iTypeWTable, List.map_cons, List.map_nil, List.Subset.refl]
  · intro e he
    unfold forms
    simp only [List.mem_append, he, true_or, or_true]

theorem branches_forms (h : mn ∈ branches) :
    ∃ t, (mn, t) ∈ branchTable ∧ (mn, Form.branch t) ∈ forms := by
  refine forms_of_pool (fun (_ : Str) (f3 : BitVec 3) ↦ Form.branch f3) ?_ ?_ h
  · simp only [branches, names, branchTable, List.map_cons, List.map_nil, List.Subset.refl]
  · intro e he
    unfold forms
    simp only [List.mem_append, he, true_or, or_true]

theorem csrRegOp_forms (h : mn ∈ csrRegOp) :
    ∃ t, (mn, t) ∈ csrRegTable ∧ (mn, Form.csrReg t) ∈ forms := by
  refine forms_of_pool (fun (_ : Str) (f3 : BitVec 3) ↦ Form.csrReg f3) ?_ ?_ h
  · simp only [csrRegOp, names, csrRegTable, List.map_cons, List.map_nil, List.Subset.refl]
  · intro e he
    unfold forms
    simp only [List.mem_append, he, true_or, or_true]

theorem csrImmOp_forms (h : mn ∈ csrImmOp) :
    ∃ t, (mn, t) ∈ csrImmTable ∧ (mn, Form.csrImm t) ∈ forms := by
  refine forms_of_pool (fun (_ : Str) (f3 : BitVec 3) ↦ Form.csrImm f3) ?_ ?_ h
  · simp only [csrImmOp, names, csrImmTable, List.map_cons, List.map_nil, List.Subset.refl]
  · intro e he
    unfold forms
    simp only [List.mem_append, he, true_or, or_true]

theorem fpArith_forms (h : mn ∈ fpArith) :
    ∃ t, (mn, t) ∈ fpArithTable ∧ (mn, Form.fpArith t) ∈ forms := by
  refine forms_of_pool (fun (_ : Str) (t : BitVec 5) ↦ Form.fpArith t) ?_ ?_ h
  · simp only [fpArith, names, fpArithTable, List.map_cons, List.map_nil, List.Subset.refl]
  · intro e he
    unfold forms
    simp only [List.mem_append, he, true_or, or_true]

theorem fpSgnj_forms (h : mn ∈ fpSgnj) :
    ∃ t, (mn, t) ∈ fpSgnjTable ∧ (mn, Form.fpSgnj t) ∈ forms := by
  refine forms_of_pool (fun (_ : Str) (f3 : BitVec 3) ↦ Form.fpSgnj f3) ?_ ?_ h
  · simp only [fpSgnj, names, fpSgnjTable, List.map_cons, List.map_nil, List.Subset.refl]
  · intro e he
    unfold forms
    simp only [List.mem_append, he, true_or, or_true]

theorem fpMinmax_forms (h : mn ∈ fpMinmax) :
    ∃ t, (mn, t) ∈ fpMinmaxTable ∧ (mn, Form.fpMinmax t) ∈ forms := by
  refine forms_of_pool (fun (_ : Str) (f3 : BitVec 3) ↦ Form.fpMinmax f3) ?_ ?_ h
  · simp only [fpMinmax, names, fpMinmaxTable, List.map_cons, List.map_nil, List.Subset.refl]
  · intro e he
    unfold forms
    simp only [List.mem_append, he, true_or, or_true]

theorem fpCmp_forms (h : mn ∈ fpCmp) : ∃ t, (mn, t) ∈ fpCmpTable ∧ (mn, Form.fpCmp t) ∈ forms := by
  refine forms_of_pool (fun (_ : Str) (f3 : BitVec 3) ↦ Form.fpCmp f3) ?_ ?_ h
  · simp [fpCmp, names, fpCmpTable]
  · intro e he
    unfold forms
    simp only [List.mem_append, he, true_or, or_true]

theorem fmaddFamily_forms (h : mn ∈ fmaddFamily) : ∃ t, (mn, t) ∈ maddOpcodes ∧
    (mn, Form.madd t) ∈ forms := by
  refine forms_of_pool (fun (_ : Str) (o : BitVec 7) ↦ Form.madd o) ?_ ?_ h
  · simp only [fmaddFamily, names, maddOpcodes, List.map_cons, List.map_nil, List.Subset.refl]
  · intro e he
    unfold forms
    simp only [List.mem_append, he, or_true]

theorem iType_forms (h : mn ∈ iType ++ shiftI) : ∃ f3, (mn, f3) ∈ iTypeTable ∧
    (mn, Form.iType f3 (shiftKind mn)) ∈ forms := by
  refine forms_of_pool (fun mn (f3 : BitVec 3) ↦ Form.iType f3 (shiftKind mn)) ?_ ?_ h
  · simp [iType, shiftI, names, iTypeTable]
  · intro e he
    unfold forms
    simp only [List.mem_append, he, true_or, or_true]

theorem load_forms (h : mn ∈ P.loadMnemonics) : ∃ f3, (mn, f3) ∈ loadTable ∧
    (mn, Form.load f3) ∈ forms := by
  refine forms_of_pool (fun (_ : Str) (f3 : BitVec 3) ↦ Form.load f3) ?_ ?_ h
  · rw [GenParams.loadMnemonics]
    split <;> simp [names, loadTable]
  · intro e he
    unfold forms
    simp only [List.mem_append, he, true_or, or_true]

theorem store_forms (h : mn ∈ P.storeMnemonics) : ∃ f3, (mn, f3) ∈ storeTable ∧
    (mn, Form.store f3) ∈ forms := by
  refine forms_of_pool (fun (_ : Str) (f3 : BitVec 3) ↦ Form.store f3) ?_ ?_ h
  · rw [GenParams.storeMnemonics]
    split <;> simp [names, storeTable]
  · intro e he
    unfold forms
    simp only [List.mem_append, he, true_or, or_true]

theorem fpCvtToInt_forms (h : mn ∈ fpCvtToInt) : ∃ u, (mn, Form.fcvtWS u) ∈ forms := by
  simp only [fpCvtToInt, names, List.map_cons, List.map_nil, List.mem_cons, List.not_mem_nil,
    or_false] at h
  unfold forms
  rcases h with rfl | rfl
  · exact ⟨false, by simp only [List.mem_append, List.mem_cons, true_or, or_true]⟩
  · exact ⟨true, by simp only [List.mem_append, List.mem_cons, true_or, or_true]⟩

theorem fpCvtFromInt_forms (h : mn ∈ fpCvtFromInt) : ∃ u, (mn, Form.fcvtSW u) ∈ forms := by
  simp only [fpCvtFromInt, names, List.map_cons, List.map_nil, List.mem_cons, List.not_mem_nil,
    or_false] at h
  unfold forms
  rcases h with rfl | rfl
  · exact ⟨false, by simp only [List.mem_append, List.mem_cons, true_or, or_true]⟩
  · exact ⟨true, by simp only [List.mem_append, List.mem_cons, true_or, or_true]⟩

end RandomGen

/-! ## Statements with registers -/

theorem encodes_rType {mn : Str} {f7 : BitVec 7} {f3 : BitVec 3} (h : (mn, .rType f7 f3) ∈ forms)
    (rd rs1 rs2 : BitVec 5) :
    Encodes U xlen (.stmt mn 0 [xReg rd, xReg rs1, xReg rs2]) (rWord opR f7 f3 rd rs1 rs2) := by
  refine encodes_stmt (known_of_forms h) (by simp [isToken_xReg]) fun labels addr ↦ ?_
  simp only [encode, arg_zero, arg_succ, ok_bind, reg_xReg]
  rfl

theorem encodes_rTypeW {mn : Str} {f7 : BitVec 7} {f3 : BitVec 3} (h : (mn, .rTypeW f7 f3) ∈ forms)
    (rd rs1 rs2 : BitVec 5) :
    Encodes U xlen (.stmt mn 0 [xReg rd, xReg rs1, xReg rs2]) (rWord op32 f7 f3 rd rs1 rs2) := by
  refine encodes_stmt (known_of_forms h) (by simp [isToken_xReg]) fun labels addr ↦ ?_
  simp only [encode, arg_zero, arg_succ, ok_bind, reg_xReg]
  rfl

/-! ## Statements with an immediate -/

theorem toInt_ofInt_of_range {n : ℕ} {v : ℤ} (hlo : -2 ^ (n - 1) ≤ v) (hhi : v ≤ 2 ^ (n - 1) - 1)
    (hn : 0 < n) : (BitVec.ofInt n v).toInt = v := by
  obtain ⟨k, rfl⟩ : ∃ k, n = k + 1 := ⟨n - 1, by omega⟩
  rw [Nat.add_sub_cancel] at hlo hhi
  have hpow : ((2 ^ (k + 1) : ℕ) : ℤ) = 2 * 2 ^ k := by
    push_cast
    exact pow_succ' 2 k
  rw [BitVec.toInt_ofInt]
  apply Int.bmod_eq_of_le <;> rw [hpow] <;> omega

theorem imm_signed {n : ℕ} {v : ℤ} (hlo : -2 ^ (n - 1) ≤ v) (hhi : v ≤ 2 ^ (n - 1) - 1) :
    imm U (decInt v) n true = .ok (BitVec.ofInt n v) := by
  simp only [imm, pyInt, int0_decInt, ok_bind, immOf]
  exact if_pos ⟨hlo, hhi⟩

theorem imm_unsigned {n : ℕ} {v : ℤ} (hlo : 0 ≤ v) (hhi : v ≤ 2 ^ n - 1) :
    imm U (decInt v) n false = .ok (BitVec.ofInt n v) := by
  simp only [imm, pyInt, int0_decInt, ok_bind, immOf]
  exact if_pos ⟨hlo, hhi⟩

theorem encodes_iType {mn : Str} {f3 : BitVec 3} (h : (mn, .iType f3 none) ∈ forms)
    (rd rs1 : BitVec 5) {v : ℤ} (hlo : -2048 ≤ v) (hhi : v ≤ 2047) :
    Encodes U xlen (.stmt mn 0 [xReg rd, xReg rs1, decInt v])
      (iWord opI (BitVec.ofInt 12 v) f3 rd rs1) := by
  refine encodes_stmt (known_of_forms h) (by simp [isToken_xReg, isToken_decInt]) fun labels addr ↦ ?_
  simp only [encode, Tools.iType, arg_zero, arg_succ, ok_bind, reg_xReg,
    imm_signed (U := U) (n := 12) hlo hhi]
  rfl

theorem encodes_iTypeW {mn : Str} {f3 : BitVec 3} (h : (mn, .iTypeW f3 none) ∈ forms)
    (rd rs1 : BitVec 5) {v : ℤ} (hlo : -2048 ≤ v) (hhi : v ≤ 2047) :
    Encodes U xlen (.stmt mn 0 [xReg rd, xReg rs1, decInt v])
      (iWord opImm32 (BitVec.ofInt 12 v) f3 rd rs1) := by
  refine encodes_stmt (known_of_forms h) (by simp [isToken_xReg, isToken_decInt]) fun labels addr ↦ ?_
  simp only [encode, Tools.iTypeW, arg_zero, arg_succ, ok_bind, reg_xReg,
    imm_signed (U := U) (n := 12) hlo hhi]
  rfl

theorem shiftImm_decInt (alt : Bool) {v : ℤ} (hlo : 0 ≤ v) (hhi : v ≤ if 64 ≤ xlen then 63 else 31) :
    shiftImm U xlen alt (decInt v) = .ok (shiftField xlen alt v) := by
  by_cases h : 64 ≤ xlen
  · rw [if_pos h] at hhi
    simp only [shiftImm, shiftField, if_pos h, imm_unsigned (U := U) (n := 6) hlo hhi, ok_bind]
    rfl
  · rw [if_neg h] at hhi
    simp only [shiftImm, shiftField, if_neg h, imm_unsigned (U := U) (n := 5) hlo hhi, ok_bind]
    rfl

theorem encodes_shift {mn : Str} {f3 : BitVec 3} {alt : Bool}
    (h : (mn, .iType f3 (some alt)) ∈ forms) (rd rs1 : BitVec 5) {v : ℤ} (hlo : 0 ≤ v)
    (hhi : v ≤ if 64 ≤ xlen then 63 else 31) :
    Encodes U xlen (.stmt mn 0 [xReg rd, xReg rs1, decInt v])
      (iWord opI (shiftField xlen alt v) f3 rd rs1) := by
  refine encodes_stmt (known_of_forms h) (by simp [isToken_xReg, isToken_decInt]) fun labels addr ↦ ?_
  simp only [encode, Tools.iType, arg_zero, arg_succ, ok_bind, reg_xReg,
    shiftImm_decInt (U := U) alt hlo hhi]
  rfl

theorem encodes_shiftW {mn : Str} {f3 : BitVec 3} {alt : Bool}
    (h : (mn, .iTypeW f3 (some alt)) ∈ forms) (rd rs1 : BitVec 5) {v : ℤ} (hlo : 0 ≤ v)
    (hhi : v ≤ 31) :
    Encodes U xlen (.stmt mn 0 [xReg rd, xReg rs1, decInt v])
      (iWord opImm32 (shiftField 32 alt v) f3 rd rs1) := by
  have himm : shiftImm U 32 alt (decInt v) = .ok (shiftField 32 alt v) :=
    shiftImm_decInt alt hlo (by simpa using hhi)
  refine encodes_stmt (known_of_forms h) (by simp [isToken_xReg, isToken_decInt]) fun labels addr ↦ ?_
  simp only [encode, Tools.iTypeW, arg_zero, arg_succ, ok_bind, reg_xReg, himm]
  rfl

/-! ## Memory operands -/

theorem regMem_offBase {first : Str → Except AsmError (BitVec 5)} {t : Str} {r : BitVec 5}
    (hr : first t = .ok r) {off : ℤ} (hlo : -2048 ≤ off) (hhi : off ≤ 2047) (rs1 : BitVec 5) :
    regMem U first [t, RandomGen.offBase off rs1] = .ok (r, rs1, BitVec.ofInt 12 off) := by
  have hv : (BitVec.ofInt 12 off).toInt = off := toInt_ofInt_of_range hlo hhi (by decide)
  have h := regMem_memOp (U := U) hr (BitVec.ofInt 12 off) rs1
  rwa [hv] at h

theorem encodes_load {mn : Str} {f3 : BitVec 3} (h : (mn, .load f3) ∈ forms) (pad : ℕ)
    (rd rs1 : BitVec 5) {off : ℤ} (hlo : -2048 ≤ off) (hhi : off ≤ 2047) :
    Encodes U xlen (.stmt mn pad [xReg rd, RandomGen.offBase off rs1])
      (iWord opLoad (BitVec.ofInt 12 off) f3 rd rs1) := by
  refine encodes_stmt (known_of_forms h) (by simp [isToken_xReg, RandomGen.offBase, isToken_memOp])
    fun labels addr ↦ ?_
  simp only [encode, regMem_offBase (U := U) (reg_xReg rd) hlo hhi rs1, ok_bind]
  rfl

theorem encodes_store {mn : Str} {f3 : BitVec 3} (h : (mn, .store f3) ∈ forms) (pad : ℕ)
    (rs2 rs1 : BitVec 5) {off : ℤ} (hlo : -2048 ≤ off) (hhi : off ≤ 2047) :
    Encodes U xlen (.stmt mn pad [xReg rs2, RandomGen.offBase off rs1])
      (sWord opStore (BitVec.ofInt 12 off) f3 rs1 rs2) := by
  refine encodes_stmt (known_of_forms h) (by simp [isToken_xReg, RandomGen.offBase, isToken_memOp])
    fun labels addr ↦ ?_
  simp only [encode, regMem_offBase (U := U) (reg_xReg rs2) hlo hhi rs1, ok_bind]
  rfl

theorem encodes_flw (rd rs1 : BitVec 5) {off : ℤ} (hlo : -2048 ≤ off) (hhi : off ≤ 2047) :
    Encodes U xlen (RandomGen.stmt "flw" [fReg rd, RandomGen.offBase off rs1])
      (iWord opLoadFp (BitVec.ofInt 12 off) 0b010#3 rd rs1) := by
  refine encodes_stmt (known_of_forms flw_forms)
    (by simp [isToken_fReg, RandomGen.offBase, isToken_memOp]) fun labels addr ↦ ?_
  simp only [encode, regMem_offBase (U := U) (freg_fReg rd) hlo hhi rs1, ok_bind]
  rfl

theorem encodes_fsw (rs2 rs1 : BitVec 5) {off : ℤ} (hlo : -2048 ≤ off) (hhi : off ≤ 2047) :
    Encodes U xlen (RandomGen.stmt "fsw" [fReg rs2, RandomGen.offBase off rs1])
      (sWord opStoreFp (BitVec.ofInt 12 off) 0b010#3 rs1 rs2) := by
  refine encodes_stmt (known_of_forms fsw_forms)
    (by simp [isToken_fReg, RandomGen.offBase, isToken_memOp]) fun labels addr ↦ ?_
  simp only [encode, regMem_offBase (U := U) (freg_fReg rs2) hlo hhi rs1, ok_bind]
  rfl

/-! ## CSR operands -/

theorem csrAddr_lookup : ∀ e ∈ csrAddr, IsToken e.1 ∧ csrAddr.lookup e.1 = some e.2 := by
  decide +kernel

theorem csrLookup_csrNames {csr : Str} (h : csr ∈ RandomGen.csrNames) : IsToken csr ∧
    ∃ a : BitVec 12, a ∈ [0x300, 0x305, 0x340, 0x341, 0x342] ∧
      csrLookup U csr = .ok (a.toNat : ℤ) := by
  have hnamed : ∃ a : BitVec 12, a ∈ [0x300, 0x305, 0x340, 0x341, 0x342] ∧
      (csr, (a.toNat : ℤ)) ∈ csrAddr := by
    simp only [RandomGen.csrNames, RandomGen.names, List.map_cons, List.map_nil, List.mem_cons,
      List.not_mem_nil, or_false] at h
    rcases h with rfl | rfl | rfl | rfl | rfl
    · exact ⟨0x300, by decide, by simp [csrAddr]⟩
    · exact ⟨0x305, by decide, by simp [csrAddr]⟩
    · exact ⟨0x340, by decide, by simp [csrAddr]⟩
    · exact ⟨0x341, by decide, by simp [csrAddr]⟩
    · exact ⟨0x342, by decide, by simp [csrAddr]⟩
  obtain ⟨a, ha, hmem⟩ := hnamed
  obtain ⟨htok, hlook⟩ := csrAddr_lookup _ hmem
  exact ⟨htok, a, ha, by simp only [csrLookup, hlook]⟩

theorem csrLookup_fcsrAddr {csr : Str} (h : csr ∈ RandomGen.fcsrAddr) : IsToken csr ∧
    ∃ a : BitVec 12, a ∈ [1, 2, 3] ∧ csrLookup U csr = .ok (a.toNat : ℤ) := by
  have hall : ∀ csr ∈ RandomGen.fcsrAddr, IsToken csr ∧ csrAddr.lookup csr = none := by
    decide +kernel
  have hhex : ∃ a : BitVec 12, a ∈ [1, 2, 3] ∧ csr = '0' :: 'x' :: hex 1 a.toNat := by
    simp only [RandomGen.fcsrAddr, RandomGen.names, List.map_cons, List.map_nil, List.mem_cons,
      List.not_mem_nil, or_false] at h
    rcases h with rfl | rfl | rfl
    · exact ⟨1, by decide, by decide⟩
    · exact ⟨2, by decide, by decide⟩
    · exact ⟨3, by decide, by decide⟩
  obtain ⟨a, ha, hcsr⟩ := hhex
  obtain ⟨htok, hnone⟩ := hall csr h
  refine ⟨htok, a, ha, ?_⟩
  subst hcsr
  simp only [csrLookup, hnone, pyInt, int0_hex]

theorem encodes_csrReg {mn csr : Str} {f3 : BitVec 3} (h : (mn, .csrReg f3) ∈ forms)
    (htok : IsToken csr) {a : BitVec 12} (hcsr : csrLookup U csr = .ok (a.toNat : ℤ))
    (rd rs1 : BitVec 5) :
    Encodes U xlen (.stmt mn 0 [xReg rd, csr, xReg rs1]) (iWord opSystem a f3 rd rs1) := by
  refine encodes_stmt (known_of_forms h) (by simp [isToken_xReg, htok]) fun labels addr ↦ ?_
  simp only [encode, arg_zero, arg_succ, ok_bind, reg_xReg, hcsr]
  rw [BitVec.ofInt_natCast, BitVec.ofNat_toNat, BitVec.setWidth_eq]
  rfl

theorem encodes_csrImm {mn csr : Str} {f3 : BitVec 3} (h : (mn, .csrImm f3) ∈ forms)
    (htok : IsToken csr) {a : BitVec 12} (hcsr : csrLookup U csr = .ok (a.toNat : ℤ))
    (rd : BitVec 5) {uimm : ℤ} (hlo : 0 ≤ uimm) (hhi : uimm ≤ 31) :
    Encodes U xlen (.stmt mn 0 [xReg rd, csr, decInt uimm])
      (iWord opSystem a f3 rd (BitVec.ofInt 5 uimm)) := by
  refine encodes_stmt (known_of_forms h) (by simp [isToken_xReg, isToken_decInt, htok])
    fun labels addr ↦ ?_
  simp only [encode, arg_zero, arg_succ, ok_bind, reg_xReg, hcsr,
    imm_unsigned (U := U) (n := 5) hlo hhi]
  rw [BitVec.ofInt_natCast, BitVec.ofNat_toNat, BitVec.setWidth_eq]
  rfl

/-! ## Float statements -/

theorem parseRm_rmPool : ∀ rm ∈ RandomGen.rmPool, IsToken rm ∧
    ∃ r ∈ Tools.rmNames.map Prod.snd, parseRm U [rm] 0 = .ok r := by
  have hall : ∀ rm ∈ RandomGen.rmPool, ∃ r ∈ Tools.rmNames.map Prod.snd, rm = rmName r := by
    decide
  intro rm hmem
  obtain ⟨r, hr, rfl⟩ := hall rm hmem
  exact ⟨isToken_rmName r, r, hr, parseRm_rmName hr⟩

section Float

variable {mn rm : Str} {t : BitVec 5} {f3 r : BitVec 3} {o : BitVec 7} (rd rs1 rs2 rs3 : BitVec 5)

theorem encodes_fpArith (h : (mn, .fpArith t) ∈ forms) (htok : IsToken rm)
    (hrm : parseRm U [rm] 0 = .ok r) :
    Encodes U xlen (.stmt mn 0 [fReg rd, fReg rs1, fReg rs2, rm])
      (fpWord opFp t r rd rs1 rs2) := by
  refine encodes_stmt (known_of_forms h) (by simp [isToken_fReg, htok]) fun labels addr ↦ ?_
  simp only [encode, arg_zero, arg_succ, ok_bind, freg_fReg, parseRm_succ, hrm]
  rfl

theorem encodes_fsqrt (htok : IsToken rm) (hrm : parseRm U [rm] 0 = .ok r) :
    Encodes U xlen (RandomGen.stmt "fsqrt.s" [fReg rd, fReg rs1, rm])
      (fpWord opFp funct5Fsqrt r rd rs1 0) := by
  refine encodes_stmt (known_of_forms fsqrt_forms)
    (by simp [isToken_fReg, htok]) fun labels addr ↦ ?_
  simp only [encode, arg_zero, arg_succ, ok_bind, freg_fReg, parseRm_succ, hrm]
  rfl

theorem encodes_fpSgnj (h : (mn, .fpSgnj f3) ∈ forms) :
    Encodes U xlen (.stmt mn 0 [fReg rd, fReg rs1, fReg rs2])
      (fpWord opFp funct5Fsgnj f3 rd rs1 rs2) := by
  refine encodes_stmt (known_of_forms h) (by simp [isToken_fReg]) fun labels addr ↦ ?_
  simp only [encode, arg_zero, arg_succ, ok_bind, freg_fReg]
  rfl

theorem encodes_fpMinmax (h : (mn, .fpMinmax f3) ∈ forms) :
    Encodes U xlen (.stmt mn 0 [fReg rd, fReg rs1, fReg rs2])
      (fpWord opFp funct5Fminmax f3 rd rs1 rs2) := by
  refine encodes_stmt (known_of_forms h) (by simp [isToken_fReg]) fun labels addr ↦ ?_
  simp only [encode, arg_zero, arg_succ, ok_bind, freg_fReg]
  rfl

theorem encodes_fpCmp (h : (mn, .fpCmp f3) ∈ forms) :
    Encodes U xlen (.stmt mn 0 [xReg rd, fReg rs1, fReg rs2])
      (fpWord opFp funct5Fcmp f3 rd rs1 rs2) := by
  refine encodes_stmt (known_of_forms h) (by simp [isToken_xReg, isToken_fReg])
    fun labels addr ↦ ?_
  simp only [encode, arg_zero, arg_succ, ok_bind, reg_xReg, freg_fReg]
  rfl

theorem encodes_fcvtWS {u : Bool} (h : (mn, .fcvtWS u) ∈ forms) (htok : IsToken rm)
    (hrm : parseRm U [rm] 0 = .ok r) :
    Encodes U xlen (.stmt mn 0 [xReg rd, fReg rs1, rm])
      (fpWord opFp funct5FcvtWS r rd rs1 (if u then 1 else 0)) := by
  refine encodes_stmt (known_of_forms h) (by simp [isToken_xReg, isToken_fReg, htok])
    fun labels addr ↦ ?_
  simp only [encode, arg_zero, arg_succ, ok_bind, reg_xReg, freg_fReg, parseRm_succ, hrm]
  rfl

theorem encodes_fcvtSW {u : Bool} (h : (mn, .fcvtSW u) ∈ forms) (htok : IsToken rm)
    (hrm : parseRm U [rm] 0 = .ok r) :
    Encodes U xlen (.stmt mn 0 [fReg rd, xReg rs1, rm])
      (fpWord opFp funct5FcvtSW r rd rs1 (if u then 1 else 0)) := by
  refine encodes_stmt (known_of_forms h) (by simp [isToken_xReg, isToken_fReg, htok])
    fun labels addr ↦ ?_
  simp only [encode, arg_zero, arg_succ, ok_bind, reg_xReg, freg_fReg, parseRm_succ, hrm]
  rfl

theorem encodes_madd (h : (mn, .madd o) ∈ forms) (htok : IsToken rm)
    (hrm : parseRm U [rm] 0 = .ok r) :
    Encodes U xlen (.stmt mn 0 [fReg rd, fReg rs1, fReg rs2, fReg rs3, rm])
      (fpWord o rs3 r rd rs1 rs2) := by
  refine encodes_stmt (known_of_forms h) (by simp [isToken_fReg, htok]) fun labels addr ↦ ?_
  simp only [encode, arg_zero, arg_succ, ok_bind, freg_fReg, parseRm_succ, hrm]
  rfl

theorem encodes_fmvWX : Encodes U xlen (RandomGen.stmt "fmv.w.x" [fReg rd, xReg rs1])
    (fpWord opFp funct5FmvWX 0 rd rs1 0) := by
  refine encodes_stmt (known_of_forms fmvWX_forms)
    (by simp [isToken_xReg, isToken_fReg]) fun labels addr ↦ ?_
  simp only [encode, arg_zero, arg_succ, ok_bind, reg_xReg, freg_fReg]
  rfl

end Float

/-! ## Statements without operands -/

theorem encodes_fence : Encodes U xlen (RandomGen.stmt "fence" []) fence :=
  encodes_stmt (known_of_forms fence_forms) (by simp) fun _ _ ↦ rfl

theorem encodes_mret : Encodes U xlen (RandomGen.stmt "mret" []) (systemNoarg 0x302#12) :=
  encodes_stmt (known_of_forms mret_forms) (by simp) fun _ _ ↦ rfl

/-! ## Branches and jumps -/

section Targets

variable {labels : List (Str × ℕ)} {name : Str} {addr d : ℕ}

theorem isToken_targetLabel (t : ℕ) : IsToken (RandomGen.targetLabel t) :=
  IsToken.append (s := ['_', '_', 'L']) (List.all_eq_true.mp rfl) (isToken_dec t)

theorem resolve_ahead (hname : IsToken name) (hlook : labels.lookup name = some (addr + 4 * d)) :
    resolve U labels addr name = .ok ((4 * d : ℕ) : ℤ) := by
  simp only [resolve, strip_of_graphic hname.graphic, hlook]
  congr 1
  push_cast
  ring

theorem immOf_ahead {n : ℕ} :
    immOf ((4 * d : ℕ) : ℤ) n true =
      if ((4 * d : ℕ) : ℤ) ≤ 2 ^ (n - 1) - 1 then .ok (BitVec.ofNat n (4 * d))
      else .error (.immediateOutOfRange ((4 * d : ℕ) : ℤ) (-2 ^ (n - 1)) (2 ^ (n - 1) - 1)) := by
  have hlo : -2 ^ (n - 1) ≤ ((4 * d : ℕ) : ℤ) := by
    have hpow : (0 : ℤ) < 2 ^ (n - 1) := by positivity
    omega
  simp only [immOf, if_true, hlo, true_and, BitVec.ofInt_natCast]

theorem even_ofNat (n : ℕ) : (BitVec.ofNat n (4 * d)).getLsbD 0 = false := by
  rw [BitVec.getLsbD_ofNat, Nat.testBit_zero]
  simp
  omega

/-- A branch to a label further on is encoded if the distance fits its field. -/
theorem encodeLine_branch {mn : Str} {f3 : BitVec 3} (h : (mn, .branch f3) ∈ forms)
    (rs1 rs2 : BitVec 5) (hname : IsToken name)
    (hlook : labels.lookup name = some (addr + 4 * d)) :
    encodeLine U xlen labels addr (.stmt mn 0 [xReg rs1, xReg rs2, name]) =
      if ((4 * d : ℕ) : ℤ) ≤ 4095 then .ok (branchWord (BitVec.ofNat 13 (4 * d)) f3 rs1 rs2)
      else .error (.immediateOutOfRange ((4 * d : ℕ) : ℤ) (-4096) 4095) := by
  rw [encodeLine, statement_text (known_of_forms h) (by simp [isToken_xReg, hname])]
  simp only [encode, Tools.branch, arg_zero, arg_succ, ok_bind, reg_xReg,
    resolve_ahead hname hlook, immOf_ahead]
  have hpow : (2 : ℤ) ^ (13 - 1) - 1 = 4095 := by norm_num
  rw [hpow]
  by_cases hrange : ((4 * d : ℕ) : ℤ) ≤ 4095
  · rw [if_pos hrange, if_pos hrange, ok_bind, even_ofNat]
    rfl
  · rw [if_neg hrange, if_neg hrange]
    rfl

theorem encodeLine_jal (rd : BitVec 5) (hname : IsToken name)
    (hlook : labels.lookup name = some (addr + 4 * d)) :
    encodeLine U xlen labels addr (RandomGen.stmt "jal" [xReg rd, name]) =
      if ((4 * d : ℕ) : ℤ) ≤ 1048575 then .ok (jalWord (BitVec.ofNat 21 (4 * d)) rd)
      else .error (.immediateOutOfRange ((4 * d : ℕ) : ℤ) (-1048576) 1048575) := by
  rw [encodeLine, RandomGen.stmt, statement_text (known_of_forms jal_forms)
    (by simp [isToken_xReg, hname])]
  simp only [encode, Tools.jal, arg_zero, arg_succ, ok_bind, reg_xReg, resolve_ahead hname hlook,
    immOf_ahead]
  have hpow : (2 : ℤ) ^ (21 - 1) - 1 = 1048575 := by norm_num
  rw [hpow]
  by_cases hrange : ((4 * d : ℕ) : ℤ) ≤ 1048575
  · rw [if_pos hrange, if_pos hrange, ok_bind, even_ofNat]
    rfl
  · rw [if_neg hrange, if_neg hrange]
    rfl

end Targets

/-! ## Items -/

namespace RandomGen

/-- The CSRs that the body accesses. -/
def GenParams.bodyCsrs (P : GenParams) : List (BitVec 12) :=
  if P.mmu then [1, 2, 3] else [1, 2, 3, 0x300, 0x305, 0x340, 0x341, 0x342]

/-- The word an item becomes; the label of a branch or a jump is `d` words further on. -/
inductive Item.Word (P : GenParams) (d : ℕ) : Item → BitVec 32 → Prop
  | r {mn f7 f3 rd rs1 rs2} (h : (mn, .rType f7 f3) ∈ forms) :
      Word P d (.r mn rd rs1 rs2) (rWord opR f7 f3 rd rs1 rs2)
  | rw {mn f7 f3 rd rs1 rs2} (h : (mn, .rTypeW f7 f3) ∈ forms) :
      Word P d (.rw mn rd rs1 rs2) (rWord op32 f7 f3 rd rs1 rs2)
  | i {mn f3 rd rs1 imm} (h : (mn, .iType f3 none) ∈ forms) :
      Word P d (.i mn rd rs1 imm) (iWord opI (BitVec.ofInt 12 imm) f3 rd rs1)
  | iw {mn f3 rd rs1 imm} (h : (mn, .iTypeW f3 none) ∈ forms) :
      Word P d (.iw mn rd rs1 imm) (iWord opImm32 (BitVec.ofInt 12 imm) f3 rd rs1)
  | shiftW {mn f3 alt rd rs1 imm} (h : (mn, .iTypeW f3 (some alt)) ∈ forms) :
      Word P d (.iw mn rd rs1 imm) (iWord opImm32 (shiftField 32 alt imm) f3 rd rs1)
  | shift {mn f3 alt rd rs1 shamt} (h : (mn, .iType f3 (some alt)) ∈ forms) :
      Word P d (.shift mn rd rs1 shamt) (iWord opI (shiftField P.xlen alt shamt) f3 rd rs1)
  | load {mn f3 rd off} (h : (mn, .load f3) ∈ forms) :
      Word P d (.load mn rd off) (iWord opLoad (BitVec.ofInt 12 off) f3 rd baseReg)
  | store {mn f3 rs2 off} (h : (mn, .store f3) ∈ forms) :
      Word P d (.store mn rs2 off) (sWord opStore (BitVec.ofInt 12 off) f3 baseReg rs2)
  | branch {mn f3 rs1 rs2 t} (h : (mn, .branch f3) ∈ forms) :
      Word P d (.branch mn rs1 rs2 t) (branchWord (BitVec.ofNat 13 (4 * d)) f3 rs1 rs2)
  | csrReg {mn csr f3 a rd rs1} (h : (mn, .csrReg f3) ∈ forms) (ha : a ∈ P.bodyCsrs) :
      Word P d (.csrReg mn csr rd rs1) (iWord opSystem a f3 rd rs1)
  | csrImm {mn csr f3 a rd uimm} (h : (mn, .csrImm f3) ∈ forms) (ha : a ∈ P.bodyCsrs) :
      Word P d (.csrImm mn csr rd uimm) (iWord opSystem a f3 rd (BitVec.ofInt 5 uimm))
  | jal {rd t} : Word P d (.jal rd t) (jalWord (BitVec.ofNat 21 (4 * d)) rd)
  | fpArith {mn t r rd rs1 rs2 rm} (h : (mn, .fpArith t) ∈ forms)
      (hr : r ∈ Tools.rmNames.map Prod.snd) :
      Word P d (.fpArith mn rd rs1 rs2 rm) (fpWord opFp t r rd rs1 rs2)
  | fpSqrt {r rd rs1 rm} (hr : r ∈ Tools.rmNames.map Prod.snd) :
      Word P d (.fpSqrt rd rs1 rm) (fpWord opFp funct5Fsqrt r rd rs1 0)
  | fpSgnj {mn f3 rd rs1 rs2} (h : (mn, .fpSgnj f3) ∈ forms) :
      Word P d (.fpSgnj mn rd rs1 rs2) (fpWord opFp funct5Fsgnj f3 rd rs1 rs2)
  | fpMinmax {mn f3 rd rs1 rs2} (h : (mn, .fpMinmax f3) ∈ forms) :
      Word P d (.fpMinmax mn rd rs1 rs2) (fpWord opFp funct5Fminmax f3 rd rs1 rs2)
  | fpCmp {mn f3 rd rs1 rs2} (h : (mn, .fpCmp f3) ∈ forms) :
      Word P d (.fpCmp mn rd rs1 rs2) (fpWord opFp funct5Fcmp f3 rd rs1 rs2)
  | fpCvtToInt {mn} {u : Bool} {r rd rs1 rm} (h : (mn, .fcvtWS u) ∈ forms)
      (hr : r ∈ Tools.rmNames.map Prod.snd) :
      Word P d (.fpCvtToInt mn rd rs1 rm)
        (fpWord opFp funct5FcvtWS r rd rs1 (if u then 1 else 0))
  | fpCvtFromInt {mn} {u : Bool} {r rd rs1 rm} (h : (mn, .fcvtSW u) ∈ forms)
      (hr : r ∈ Tools.rmNames.map Prod.snd) :
      Word P d (.fpCvtFromInt mn rd rs1 rm)
        (fpWord opFp funct5FcvtSW r rd rs1 (if u then 1 else 0))
  | fpMadd {mn o r rd rs1 rs2 rs3 rm} (h : (mn, .madd o) ∈ forms)
      (hr : r ∈ Tools.rmNames.map Prod.snd) :
      Word P d (.fpMadd mn rd rs1 rs2 rs3 rm) (fpWord o rs3 r rd rs1 rs2)
  | fload {rd off} :
      Word P d (.fload rd off) (iWord opLoadFp (BitVec.ofInt 12 off) 0b010#3 rd baseReg)
  | fstore {rs2 off} :
      Word P d (.fstore rs2 off) (sWord opStoreFp (BitVec.ofInt 12 off) 0b010#3 baseReg rs2)

/-! ### The words -/

variable {P : GenParams}

/-- Which of the drawn mnemonics are shifts. -/
theorem shiftKind_drawn : (∀ mn ∈ iType, shiftKind mn = none) ∧
    (∀ mn ∈ shiftI, ∃ alt, shiftKind mn = some alt) ∧ shiftKind "addiw".toList = none ∧
      ∀ mn ∈ iTypeW, mn ≠ "addiw".toList → ∃ alt, shiftKind mn = some alt := by
  decide +kernel

theorem offsetDrawn_range {width off : ℤ} (h : P.OffsetDrawn width off) : -2048 ≤ off ∧ off ≤ 2047 := by
  simp only [GenParams.OffsetDrawn] at h
  split_ifs at h <;> omega

theorem csrLookup_drawn {csr : Str} (h : P.mmu = false ∧ csr ∈ P.csrPool ∨ csr ∈ fcsrAddr) :
    IsToken csr ∧ ∃ a ∈ P.bodyCsrs, csrLookup U csr = .ok (a.toNat : ℤ) := by
  rcases h with ⟨hmmu, h⟩ | h
  · have hname : csr ∈ csrNames := by
      rw [GenParams.csrPool] at h
      split_ifs at h
      · exact h
      · exact (List.mem_filter.mp h).1
    obtain ⟨htok, a, ha, hlook⟩ := csrLookup_csrNames (U := U) hname
    refine ⟨htok, a, ?_, hlook⟩
    rw [GenParams.bodyCsrs, hmmu]
    exact List.mem_append_right [1, 2, 3] ha
  · obtain ⟨htok, a, ha, hlook⟩ := csrLookup_fcsrAddr (U := U) h
    refine ⟨htok, a, ?_, hlook⟩
    rw [GenParams.bodyCsrs]
    split
    · exact ha
    · exact List.mem_append_left [0x300, 0x305, 0x340, 0x341, 0x342] ha

theorem Item.encodes {item : Item} {c n : ℕ} (h : item.Drawn P c n) (htarget : item.target = none)
    (d : ℕ) : ∃ w, Item.Word P d item w ∧ Encodes U P.xlen item.line w := by
  cases item with
  | branch => cases htarget
  | jal => cases htarget
  | r mn rd rs1 rs2 =>
    obtain ⟨t, -, hmem⟩ := rType_forms h.1
    exact ⟨_, .r hmem, encodes_rType hmem rd rs1 rs2⟩
  | rw mn rd rs1 rs2 =>
    obtain ⟨t, -, hmem⟩ := rTypeW_forms h.2.1
    exact ⟨_, .rw hmem, encodes_rTypeW hmem rd rs1 rs2⟩
  | i mn rd rs1 imm =>
    obtain ⟨hmn, -, -, hlo, hhi⟩ := h
    have hshift := shiftKind_drawn.1
    obtain ⟨f3, -, hmem⟩ := iType_forms (List.mem_append_left shiftI hmn)
    rw [hshift mn hmn] at hmem
    exact ⟨_, .i hmem, encodes_iType hmem rd rs1 hlo hhi⟩
  | iw mn rd rs1 imm =>
    obtain ⟨-, hmn, -, -, himm⟩ := h
    obtain ⟨-, -, haddiw, hshift⟩ := shiftKind_drawn
    obtain ⟨f3, -, hmem⟩ := iTypeW_forms hmn
    by_cases hname : mn = "addiw".toList
    · rw [if_pos hname] at himm
      subst hname
      rw [haddiw] at hmem
      exact ⟨_, .iw hmem, encodes_iTypeW hmem rd rs1 himm.1 himm.2⟩
    · rw [if_neg hname] at himm
      obtain ⟨alt, halt⟩ := hshift mn hmn hname
      rw [halt] at hmem
      exact ⟨_, .shiftW hmem, encodes_shiftW hmem rd rs1 himm.1 himm.2⟩
  | shift mn rd rs1 shamt =>
    obtain ⟨hmn, -, -, hlo, hhi⟩ := h
    have hshift := shiftKind_drawn.2.1
    obtain ⟨f3, -, hmem⟩ := iType_forms (List.mem_append_right iType hmn)
    obtain ⟨alt, halt⟩ := hshift mn hmn
    rw [halt] at hmem
    exact ⟨_, .shift hmem, encodes_shift hmem rd rs1 hlo hhi⟩
  | load mn rd off =>
    obtain ⟨hmn, -, width, -, hoff⟩ := h
    obtain ⟨hlo, hhi⟩ := offsetDrawn_range hoff
    obtain ⟨f3, -, hmem⟩ := load_forms hmn
    exact ⟨_, .load hmem, encodes_load hmem 0 rd baseReg hlo hhi⟩
  | store mn rs2 off =>
    obtain ⟨hmn, -, width, -, hoff⟩ := h
    obtain ⟨hlo, hhi⟩ := offsetDrawn_range hoff
    obtain ⟨f3, -, hmem⟩ := store_forms hmn
    exact ⟨_, .store hmem, encodes_store hmem 0 rs2 baseReg hlo hhi⟩
  | csrReg mn csr rd rs1 =>
    obtain ⟨hcsr, hmn, -, -⟩ := h
    obtain ⟨htok, a, ha, hlook⟩ := csrLookup_drawn (U := U) hcsr
    obtain ⟨f3, -, hmem⟩ := csrRegOp_forms hmn
    exact ⟨_, .csrReg hmem ha, encodes_csrReg hmem htok hlook rd rs1⟩
  | csrImm mn csr rd uimm =>
    obtain ⟨hcsr, hmn, -, hlo, hhi⟩ := h
    obtain ⟨htok, a, ha, hlook⟩ := csrLookup_drawn (U := U) hcsr
    obtain ⟨f3, -, hmem⟩ := csrImmOp_forms hmn
    exact ⟨_, .csrImm hmem ha, encodes_csrImm hmem htok hlook rd hlo hhi⟩
  | fpArith mn rd rs1 rs2 rm =>
    obtain ⟨t, -, hmem⟩ := fpArith_forms h.1
    obtain ⟨htok, r, hr, hrm⟩ := parseRm_rmPool (U := U) rm h.2
    exact ⟨_, .fpArith hmem hr, encodes_fpArith rd rs1 rs2 hmem htok hrm⟩
  | fpSqrt rd rs1 rm =>
    obtain ⟨htok, r, hr, hrm⟩ := parseRm_rmPool (U := U) rm h
    exact ⟨_, .fpSqrt hr, encodes_fsqrt rd rs1 htok hrm⟩
  | fpSgnj mn rd rs1 rs2 =>
    obtain ⟨f3, -, hmem⟩ := fpSgnj_forms h
    exact ⟨_, .fpSgnj hmem, encodes_fpSgnj rd rs1 rs2 hmem⟩
  | fpMinmax mn rd rs1 rs2 =>
    obtain ⟨f3, -, hmem⟩ := fpMinmax_forms h
    exact ⟨_, .fpMinmax hmem, encodes_fpMinmax rd rs1 rs2 hmem⟩
  | fpCmp mn rd rs1 rs2 =>
    obtain ⟨f3, -, hmem⟩ := fpCmp_forms h.1
    exact ⟨_, .fpCmp hmem, encodes_fpCmp rd rs1 rs2 hmem⟩
  | fpCvtToInt mn rd rs1 rm =>
    obtain ⟨u, hmem⟩ := fpCvtToInt_forms h.1
    obtain ⟨htok, r, hr, hrm⟩ := parseRm_rmPool (U := U) rm h.2.2
    exact ⟨_, .fpCvtToInt hmem hr, encodes_fcvtWS rd rs1 hmem htok hrm⟩
  | fpCvtFromInt mn rd rs1 rm =>
    obtain ⟨u, hmem⟩ := fpCvtFromInt_forms h.1
    obtain ⟨htok, r, hr, hrm⟩ := parseRm_rmPool (U := U) rm h.2.2
    exact ⟨_, .fpCvtFromInt hmem hr, encodes_fcvtSW rd rs1 hmem htok hrm⟩
  | fpMadd mn rd rs1 rs2 rs3 rm =>
    obtain ⟨o, -, hmem⟩ := fmaddFamily_forms h.1
    obtain ⟨htok, r, hr, hrm⟩ := parseRm_rmPool (U := U) rm h.2
    exact ⟨_, .fpMadd hmem hr, encodes_madd rd rs1 rs2 rs3 hmem htok hrm⟩
  | fload rd off =>
    obtain ⟨hlo, hhi⟩ := offsetDrawn_range h
    exact ⟨_, .fload, encodes_flw rd baseReg hlo hhi⟩
  | fstore rs2 off =>
    obtain ⟨hlo, hhi⟩ := offsetDrawn_range h
    exact ⟨_, .fstore, encodes_fsw rs2 baseReg hlo hhi⟩

end RandomGen

end RvPipeline.Tools
