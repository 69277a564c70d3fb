import RvPipeline.Fp.Subnormal
import RvPipeline.Iss.Arith
import RvPipeline.Iss.Moves
import RvPipeline.Iss.Straight
import RvPipeline.Lib.PyText

/-!
# The ranges of the simulator's state

Python integers have no width: what keeps the registers and the program counter in range are the
masks of the code.  Every write of a register is masked; the program counter is, except when a step
moves on to the next word.
-/

namespace RvPipeline

/-! ## The integers of the float results -/

namespace IssFloat

def packZeroInt (sign : Bool) : ℕ := sign.toNat <<< 31
def packInfInt (sign : Bool) : ℕ := (sign.toNat <<< 31) ||| (0xFF <<< 23)

/-- An operand with another sign. -/
def withSignInt (sign : Bool) (bits : ℕ) : ℕ := (sign.toNat <<< 31) ||| (bits &&& 0x7FFFFFFF)

/-- `_f32_pack_rounded` in integers. -/
def packRoundedInt (sign : Bool) (e : ℤ) (sigFloor : ℕ) (cls : Cls) (rm : BitVec 3) : ℕ :=
  let roundUp := f32RoundUpDecision cls sigFloor sign rm
  let carry := roundUp && sigFloor + 1 == 2 ^ 24
  let sig := if roundUp then (if carry then (sigFloor + 1) >>> 1 else sigFloor + 1) else sigFloor
  let e := if carry then e + 1 else e
  if e > 127 then
    if rm = rmRtz ∨ (rm = rmRdn ∧ sign = false) ∨ (rm = rmRup ∧ sign = true) then
      (sign.toNat <<< 31) ||| (0xFE <<< 23) ||| 0x7FFFFF
    else (sign.toNat <<< 31) ||| (0xFF <<< 23)
  else if e < -126 then packZeroInt sign
  else (sign.toNat <<< 31) ||| ((e + 127).toNat <<< 23) ||| (sig &&& 0x7FFFFF)

theorem toNat_packZero (sign : Bool) : (f32PackZero sign).toNat = packZeroInt sign := by
  cases sign <;> rfl

theorem toNat_packInf (sign : Bool) : (f32PackInf sign).toNat = packInfInt sign := by
  cases sign <;> rfl

theorem toNat_withSign (sign : Bool) (x : BitVec 32) :
    (signBit sign ||| (x &&& 0x7FFFFFFF)).toNat = withSignInt sign x.toNat := by
  rw [BitVec.toNat_or, BitVec.toNat_and, withSignInt]
  cases sign <;> rfl

/-- The 32 bits of the model lose nothing of what the code packs. -/
theorem toNat_packRounded (sign : Bool) (e : ℤ) (sigFloor : ℕ) (cls : Cls) (rm : BitVec 3) :
    (f32PackRounded sign e sigFloor cls rm).result.toNat =
      packRoundedInt sign e sigFloor cls rm := by
  simp only [f32PackRounded, packRoundedInt]
  generalize (if (f32RoundUpDecision cls sigFloor sign rm && sigFloor + 1 == 2 ^ 24) = true then e + 1
    else e) = e'
  generalize (if f32RoundUpDecision cls sigFloor sign rm = true then
    if (f32RoundUpDecision cls sigFloor sign rm && sigFloor + 1 == 2 ^ 24) = true then
      (sigFloor + 1) >>> 1 else sigFloor + 1 else sigFloor) = sig
  split_ifs with hhigh hmax hlow
  · cases sign <;> rfl
  · cases sign <;> rfl
  · exact toNat_packZero sign
  · have hexp : (BitVec.ofInt 32 (e' + 127) <<< 23).toNat = (e' + 127).toNat <<< 23 := by
      rw [BitVec.toNat_shiftLeft, BitVec.toNat_ofInt, Nat.shiftLeft_eq, Nat.shiftLeft_eq]
      have hbig : (e' + 127) % (2 ^ 32 : ℕ) = e' + 127 := Int.emod_eq_of_lt (by omega) (by omega)
      rw [hbig]
      exact Nat.mod_eq_of_lt (by omega)
    have hsig : (BitVec.ofNat 32 sig &&& 0x7FFFFF).toNat = sig &&& 0x7FFFFF := by
      have hmask : (0x7FFFFF : BitVec 32).toNat = 2 ^ 23 - 1 := rfl
      rw [BitVec.toNat_and, BitVec.toNat_ofNat, hmask, Nat.and_two_pow_sub_one_eq_mod,
        Nat.mod_mod_of_dvd _ (pow_dvd_pow 2 (by decide))]
      exact (Nat.and_two_pow_sub_one_eq_mod sig 23).symm
    have hsign : (signBit sign).toNat = sign.toNat <<< 31 := by cases sign <;> rfl
    rw [BitVec.toNat_or, BitVec.toNat_or, hexp, hsig, hsign]

/-- Whatever the code packs is a word of 32 bits. -/
theorem packed_lt (sign : Bool) (x : BitVec 32) (e : ℤ) (sigFloor : ℕ) (cls : Cls)
    (rm : BitVec 3) :
    packZeroInt sign < 2 ^ 32 ∧ packInfInt sign < 2 ^ 32 ∧ withSignInt sign x.toNat < 2 ^ 32 ∧
      packRoundedInt sign e sigFloor cls rm < 2 ^ 32 := by
  rw [← toNat_packZero, ← toNat_packInf, ← toNat_withSign, ← toNat_packRounded]
  exact ⟨BitVec.isLt _, BitVec.isLt _, BitVec.isLt _, BitVec.isLt _⟩

end IssFloat

namespace Iss

open Fp (Subnormal)

variable {C : IssConfig} {σ τ σ' : Iss} {word : BitVec 32} {xlen memSize : ℕ}

/-! ## Ranges -/

structure InRange (xlen : ℕ) (σ : Iss) : Prop where
  regs_zero : σ.regs 0 = 0
  regs_lt : ∀ r, σ.regs r < 2 ^ xlen
  fregs_lt : ∀ r, (σ.fregs r).toNat < 2 ^ 32
  pc_lt : σ.pc < 2 ^ xlen

/-- What a trap or a return can put into the program counter. -/
def CsrInRange (xlen : ℕ) (σ : Iss) : Prop := ∀ addr, σ.csr addr < 2 ^ xlen

/-- The integer registers alone. -/
def RegsInRange (xlen : ℕ) (σ : Iss) : Prop := σ.regs 0 = 0 ∧ ∀ r, σ.regs r < 2 ^ xlen

theorem uXlen_lt (v : ℤ) (xlen : ℕ) : uXlen v xlen < 2 ^ xlen := by
  rw [uXlen_eq]
  exact BitVec.isLt _

theorem u32_lt_two_pow (hxlen : 32 ≤ xlen) (v : ℤ) : u32 v < 2 ^ xlen :=
  (uXlen_lt v 32).trans_le (Nat.pow_le_pow_right (by decide) hxlen)

theorem RegsInRange.wr (h : σ.RegsInRange C.xlen) (rd : BitVec 5) (val : ℤ) :
    (σ.wr C rd val).RegsInRange C.xlen := by
  unfold Iss.wr
  split_ifs with hrd
  · refine ⟨?_, fun r ↦ ?_⟩
    · change Function.update σ.regs rd (C.uxlen val) 0 = 0
      rw [Function.update_of_ne (Ne.symm hrd)]
      exact h.1
    · change Function.update σ.regs rd (C.uxlen val) r < 2 ^ C.xlen
      by_cases hr : r = rd
      · rw [hr, Function.update_self]
        exact uXlen_lt val C.xlen
      · rw [Function.update_of_ne hr]
        exact h.2 r
  · exact h

theorem CsrInRange.setCsr (h : σ.CsrInRange xlen) (addr : BitVec 12) {v : ℕ} (hv : v < 2 ^ xlen) :
    (σ.setCsr addr v).CsrInRange xlen := by
  intro a
  change Function.update σ.csr addr v a < 2 ^ xlen
  by_cases ha : a = addr
  · rw [ha, Function.update_self]
    exact hv
  · rw [Function.update_of_ne ha]
    exact h a

/-- The writes of `csr_write`: one register cut to 32 bits, or a float register. -/
theorem csrWrite_cases (addr : BitVec 12) (v : ℕ) :
    (∃ a u, σ.csrWrite addr v = σ.setCsr a (u32 u)) ∨
      ∃ frm fflags, σ.csrWrite addr v = { σ with frm := frm, fflags := fflags } := by
  have hite : ∀ {q : Prop} [Decidable q] {x y : Iss} {P : Iss → Prop}, P x → P y →
      P (if q then x else y) := by
    intro q _ x y P hx hy
    split_ifs
    · exact hx
    · exact hy
  unfold csrWrite
  repeat' first
    | exact .inl ⟨_, _, rfl⟩
    | exact .inr ⟨_, _, rfl⟩
    | refine hite (P := fun τ ↦ (∃ a u, τ = σ.setCsr a (u32 u)) ∨
        ∃ frm fflags, τ = { σ with frm := frm, fflags := fflags }) ?_ ?_

theorem CsrInRange.csrWrite (h : σ.CsrInRange xlen) (hxlen : 32 ≤ xlen) (addr : BitVec 12) (v : ℕ) :
    (σ.csrWrite addr v).CsrInRange xlen := by
  obtain ⟨a, u, hw⟩ | ⟨frm, fflags, hw⟩ := csrWrite_cases (σ := σ) addr v
  · rw [hw]
    exact h.setCsr a (u32_lt_two_pow hxlen u)
  · rw [hw]
    exact h

theorem csrWrite_regs (addr : BitVec 12) (v : ℕ) : (σ.csrWrite addr v).regs = σ.regs := by
  obtain ⟨a, u, hw⟩ | ⟨frm, fflags, hw⟩ := csrWrite_cases (σ := σ) addr v
  · rw [hw]
    rfl
  · rw [hw]

theorem wr_csr (rd : BitVec 5) (val : ℤ) : (σ.wr C rd val).csr = σ.csr := by
  unfold wr
  split_ifs <;> rfl

theorem storeMem_frame (addr val n : ℕ) :
    (σ.storeMem C addr val n).regs = σ.regs ∧ (σ.storeMem C addr val n).csr = σ.csr := by
  induction n with
  | zero => exact ⟨rfl, rfl⟩
  | succ n ih =>
    rw [storeMem, storeMemByte]
    split_ifs
    · exact ih
    · exact ih

/-! ## Steps -/

theorem Effect.regsInRange (h : Effect C σ τ) (hσ : σ.RegsInRange C.xlen) : τ.RegsInRange C.xlen := by
  cases h with
  | same => exact hσ
  | wr rd val => exact hσ.wr rd val
  | store addr val n =>
    rw [RegsInRange, (storeMem_frame addr val n).1]
    exact hσ
  | csr addr val rd old =>
    have hwrite : (σ.csrWrite addr val).RegsInRange C.xlen := by
      rw [RegsInRange, csrWrite_regs]
      exact hσ
    exact hwrite.wr rd old
  | freg rd bits => exact hσ
  | wrFloat rd r => exact hσ
  | wrInt rd r => exact hσ.wr rd r.result.toNat

theorem Effect.csrInRange (h : Effect C σ τ) (hxlen : 32 ≤ xlen) (hσ : σ.CsrInRange xlen) :
    τ.CsrInRange xlen := by
  cases h with
  | same => exact hσ
  | wr rd val =>
    rw [CsrInRange, wr_csr]
    exact hσ
  | store addr val n =>
    rw [CsrInRange, (storeMem_frame addr val n).2]
    exact hσ
  | csr addr val rd old =>
    rw [CsrInRange, wr_csr]
    exact hσ.csrWrite hxlen addr val
  | freg rd bits => exact hσ
  | wrFloat rd r => exact hσ
  | wrInt rd r =>
    change ∀ a, (σ.wr C rd r.result.toNat).csr a < 2 ^ xlen
    rw [wr_csr]
    exact hσ

theorem trap_regs (cause tval : ℕ) : (σ.trap cause tval).regs = σ.regs := by
  rw [trap]
  split_ifs <;> rfl

/-- A trap saves the program counter and jumps through a CSR. -/
theorem CsrInRange.trap (h : σ.CsrInRange xlen) (hxlen : 32 ≤ xlen) (hpc : σ.pc < 2 ^ xlen)
    (cause tval : ℕ) :
    (σ.trap cause tval).CsrInRange xlen ∧ (σ.trap cause tval).pc < 2 ^ xlen := by
  rw [Iss.trap]
  split_ifs
  · exact ⟨(((h.setCsr _ hpc).setCsr _ (u32_lt_two_pow hxlen _)).setCsr _
      (u32_lt_two_pow hxlen _)).setCsr _ (u32_lt_two_pow hxlen _), h csrAddrStvec⟩
  · exact ⟨(((h.setCsr _ hpc).setCsr _ (u32_lt_two_pow hxlen _)).setCsr _
      (u32_lt_two_pow hxlen _)).setCsr _ (u32_lt_two_pow hxlen _), h csrAddrMtvec⟩

theorem Leaves.inRange (h : Leaves C σ σ') (hxlen : 32 ≤ C.xlen) (hregs : σ.RegsInRange C.xlen)
    (hcsr : σ.CsrInRange C.xlen) (hpc : σ.pc < 2 ^ C.xlen) :
    σ'.RegsInRange C.xlen ∧ σ'.CsrInRange C.xlen ∧ σ'.pc < 2 ^ C.xlen := by
  cases h with
  | jump rd val target =>
    refine ⟨hregs.wr rd val, ?_, uXlen_lt target C.xlen⟩
    change ∀ a, (σ.wr C rd val).csr a < 2 ^ C.xlen
    rw [wr_csr]
    exact hcsr
  | trap cause tval =>
    refine ⟨?_, hcsr.trap hxlen hpc cause tval⟩
    rw [RegsInRange, trap_regs]
    exact hregs
  | mret => exact ⟨hregs, hcsr.setCsr _ (u32_lt_two_pow hxlen _), hcsr csrAddrMepc⟩
  | sret => exact ⟨hregs, hcsr.setCsr _ (u32_lt_two_pow hxlen _), hcsr csrAddrSepc⟩

/-- A step keeps the ranges, but for the program counter of a step that moves on. -/
theorem step_inRange (hxlen : 32 ≤ xlen) (h : σ.step (.full xlen memSize) word = some σ')
    (hregs : σ.RegsInRange xlen) (hcsr : σ.CsrInRange xlen) (hpc : σ.pc < 2 ^ xlen) :
    σ'.RegsInRange xlen ∧ σ'.CsrInRange xlen ∧
      (σ'.pc < 2 ^ xlen ↔ (σ.movesOn (.full xlen memSize) word = true → σ.pc + 4 < 2 ^ xlen)) := by
  have hmoves := step_moves h
  cases hon : σ.movesOn (.full xlen memSize) word with
  | true =>
    rw [hon] at hmoves
    obtain ⟨τ, heffect, rfl⟩ := hmoves
    exact ⟨heffect.regsInRange hregs, heffect.csrInRange hxlen hcsr, (imp_iff_right rfl).symm⟩
  | false =>
    rw [hon] at hmoves
    obtain ⟨hregs', hcsr', hpc'⟩ := Leaves.inRange hmoves hxlen hregs hcsr hpc
    exact ⟨hregs', hcsr', iff_of_true hpc' fun h ↦ absurd h Bool.false_ne_true⟩

/-! ## Float results -/

attribute [local instance] Py.decideMem in
/-- `fadd`, `fsub`, `fmul`, `fdiv`, `fsqrt`, `fcvt.s` and the fused forms. -/
def isArithmetic (word : BitVec 32) : Bool :=
  opcodeOf word == opcodeFp && decide (word.extractLsb' 27 5 ∈ [funct5Fadd, funct5Fsub, funct5Fmul,
    funct5Fdiv, funct5Fsqrt, funct5FcvtSW]) || isFmaOpcode (opcodeOf word)

def isFsqrt (word : BitVec 32) : Bool :=
  opcodeOf word == opcodeFp && word.extractLsb' 27 5 == funct5Fsqrt

theorem isArithmetic_of_isFsqrt (h : isFsqrt word = true) : isArithmetic word = true := by
  rw [isFsqrt, Bool.and_eq_true, beq_iff_eq, beq_iff_eq] at h
  rw [isArithmetic, h.1, h.2]
  rfl

theorem wrFloat_fregs (rd : BitVec 5) (r : Fp.Result) : (σ.wrFloat rd r).fregs rd = r.result :=
  Function.update_self ..

/-- The result of an operation is subnormal only where a square root hands back its operand. -/
theorem subnormal_opFp {B : IssConfig} (hop : opcodeOf word = opcodeFp)
    (h : word.extractLsb' 27 5 ∈ [funct5Fadd, funct5Fsub, funct5Fmul, funct5Fdiv, funct5Fsqrt,
      funct5FcvtSW]) (hstep : σ.opFp B word = some τ) :
    Subnormal (τ.fregs (rdOf word)) ↔
      isFsqrt word = true ∧ Subnormal (σ.fregs (rs1Of word)) := by
  have hroot : isFsqrt word = (word.extractLsb' 27 5 == funct5Fsqrt) := by
    rw [isFsqrt, hop]
    rfl
  rw [hroot]
  simp only [List.mem_cons, List.not_mem_nil, or_false] at h
  rw [opFp] at hstep
  rcases h with h5 | h5 | h5 | h5 | h5 | h5 <;> rw [h5] at hstep ⊢
  case inr.inr.inr.inr.inl =>
    obtain ⟨r, hr, rfl⟩ := Option.map_eq_some_iff.mp
      (show (IssFloat.fSqrt _ _).map (σ.wrFloat (rdOf word)) = some τ from hstep)
    rw [wrFloat_fregs, Fp.subnormal_fSqrt hr]
    exact (and_iff_right rfl).symm
  all_goals
    obtain rfl := Option.some.inj hstep
    rw [wrFloat_fregs]
    refine iff_of_false ?_ fun hf ↦ Bool.false_ne_true hf.1
  · exact Fp.not_subnormal_fAdd _ _ _ _
  · exact Fp.not_subnormal_fAdd _ _ _ _
  · exact Fp.not_subnormal_fMul _ _ _
  · exact Fp.not_subnormal_fDiv _ _ _
  · exact Fp.not_subnormal_fCvtFromInt _ _ _

theorem subnormal_step (h : isArithmetic word = true)
    (hstep : σ.step (.full xlen memSize) word = some σ') :
    Subnormal (σ'.fregs (rdOf word)) ↔ isFsqrt word = true ∧ Subnormal (σ.fregs (rs1Of word)) := by
  have h0 : word ≠ 0 := by
    rintro rfl
    exact absurd h (by decide)
  rw [isArithmetic, Bool.or_eq_true, Bool.and_eq_true, beq_iff_eq, decide_eq_true_eq] at h
  rcases h with ⟨hop, h5⟩ | hfma
  · rw [step, if_neg h0, hop] at hstep
    have hfp : σ.fpStep (sizes xlen memSize) word = some σ' := hstep
    rw [fpStep, hop] at hfp
    obtain ⟨τ, hτ, rfl⟩ := Option.map_eq_some_iff.mp hfp
    have hres := subnormal_opFp hop h5 hτ
    exact hres
  · rw [isFmaOpcode, Bool.or_eq_true, Bool.or_eq_true, Bool.or_eq_true, beq_iff_eq, beq_iff_eq,
      beq_iff_eq, beq_iff_eq] at hfma
    have hfp : σ.fpStep (sizes xlen memSize) word = some σ' := by
      rw [step, if_neg h0] at hstep
      rcases hfma with ((hop | hop) | hop) | hop <;> rw [hop] at hstep <;> exact hstep
    have hne : isFsqrt word = false := by
      rw [isFsqrt]
      rcases hfma with ((hop | hop) | hop) | hop <;> rw [hop] <;> rfl
    rw [hne]
    refine iff_of_false ?_ fun hf ↦ Bool.false_ne_true hf.1
    rw [fpStep] at hfp
    rcases hfma with ((hop | hop) | hop) | hop <;> rw [hop] at hfp <;>
      obtain rfl := Option.some.inj hfp <;> rw [wrFloat_fregs] <;>
      exact Fp.not_subnormal_fMadd _ _ _ _ _ _

/-! ## Runs -/

/-- Neither of the two steps that leave the ranges. -/
def KeepsRange (C : IssConfig) (σ : Iss) (word : BitVec 32) : Prop :=
  (σ.movesOn C word = true → σ.pc + 4 < 2 ^ C.xlen) ∧
    (isFsqrt word = true → ¬Subnormal (σ.fregs (rs1Of word)))

theorem init_csrInRange : (Iss.init memSize).CsrInRange xlen := fun _ ↦ Nat.two_pow_pos xlen

theorem init_regsInRange : (Iss.init memSize).RegsInRange xlen ↔ memSize < 2 ^ xlen := by
  constructor
  · exact fun h ↦ h.2 2
  · intro h
    refine ⟨rfl, fun r ↦ ?_⟩
    change (if r = 2 then memSize else 0) < 2 ^ xlen
    split_ifs
    · exact h
    · exact Nat.two_pow_pos xlen

theorem inRange_iff :
    σ.InRange xlen ↔ σ.RegsInRange xlen ∧ σ.pc < 2 ^ xlen :=
  ⟨fun h ↦ ⟨⟨h.regs_zero, h.regs_lt⟩, h.pc_lt⟩, fun h ↦ ⟨h.1.1, h.1.2, fun r ↦ (σ.fregs r).isLt, h.2⟩⟩

/-- A fresh simulator stays in range, and no float operation makes a subnormal number, exactly if
the memory size fits a register, no step moves on past the last address, and no square root is taken
of a subnormal number. -/
theorem stays_in_range_iff (hxlen : xlen = 32 ∨ xlen = 64) (ws : ℕ → BitVec 32) (σ : ℕ → Iss) (N : ℕ)
    (hzero : σ 0 = Iss.init memSize)
    (hstep : ∀ n < N, (σ n).step (.full xlen memSize) (ws n) = some (σ (n + 1))) :
    ((∀ n ≤ N, (σ n).InRange xlen) ∧
        ∀ n < N, isArithmetic (ws n) = true → ¬Subnormal ((σ (n + 1)).fregs (rdOf (ws n)))) ↔
      memSize < 2 ^ xlen ∧ ∀ n < N, (σ n).KeepsRange (.full xlen memSize) (ws n) := by
  have hxlen' : 32 ≤ xlen := by omega
  have hcsr : (∀ n ≤ N, (σ n).RegsInRange xlen ∧ (σ n).pc < 2 ^ xlen) →
      ∀ n ≤ N, (σ n).CsrInRange xlen := by
    intro hin n hn
    induction n with
    | zero =>
      rw [hzero]
      exact init_csrInRange
    | succ n ih =>
      obtain ⟨hregs, hpc⟩ := hin n (Nat.le_of_succ_le hn)
      exact (step_inRange hxlen' (hstep n hn) hregs (ih (Nat.le_of_succ_le hn)) hpc).2.1
  constructor
  · rintro ⟨hin, hsub⟩
    have hin' : ∀ n ≤ N, (σ n).RegsInRange xlen ∧ (σ n).pc < 2 ^ xlen :=
      fun n hn ↦ inRange_iff.mp (hin n hn)
    refine ⟨?_, fun n hn ↦ ⟨?_, fun hroot hop ↦ ?_⟩⟩
    · have hregs := (hin' 0 (Nat.zero_le N)).1
      rw [hzero] at hregs
      exact init_regsInRange.mp hregs
    · obtain ⟨hregs, hpc⟩ := hin' n hn.le
      exact (step_inRange hxlen' (hstep n hn) hregs (hcsr hin' n hn.le) hpc).2.2.mp
        (hin' (n + 1) hn).2
    · have harith := isArithmetic_of_isFsqrt hroot
      exact hsub n hn harith ((subnormal_step harith (hstep n hn)).mpr ⟨hroot, hop⟩)
  · rintro ⟨hsize, hkeep⟩
    have hall : ∀ n ≤ N, (σ n).RegsInRange xlen ∧ (σ n).pc < 2 ^ xlen ∧ (σ n).CsrInRange xlen := by
      intro n hn
      induction n with
      | zero =>
        rw [hzero]
        exact ⟨init_regsInRange.mpr hsize, Nat.two_pow_pos xlen, init_csrInRange⟩
      | succ n ih =>
        obtain ⟨hregs, hpc, hcsr⟩ := ih (Nat.le_of_succ_le hn)
        obtain ⟨hregs', hcsr', hpc'⟩ := step_inRange hxlen' (hstep n hn) hregs hcsr hpc
        exact ⟨hregs', hpc'.mpr (hkeep n hn).1, hcsr'⟩
    refine ⟨fun n hn ↦ inRange_iff.mpr ⟨(hall n hn).1, (hall n hn).2.1⟩, fun n hn harith hsub ↦ ?_⟩
    obtain ⟨hroot, hop⟩ := (subnormal_step harith (hstep n hn)).mp hsub
    exact (hkeep n hn).2 hroot hop

/-- The states a fresh simulator goes through; a word that raises is passed over. -/
def statesOf (C : IssConfig) (ws : ℕ → BitVec 32) : ℕ → Iss
  | 0 => Iss.init C.memSize
  | n + 1 => ((statesOf C ws n).step C (ws n)).getD (statesOf C ws n)

/-- `addi x5, x0, 1` twice. -/
theorem stays_in_range_addi :
    (∀ n ≤ 2, (statesOf (.full 32 128) (fun _ ↦ 0x00100293#32) n).InRange 32) ∧
      ∀ n < 2, isArithmetic 0x00100293#32 = true →
        ¬Subnormal ((statesOf (.full 32 128) (fun _ ↦ 0x00100293#32) (n + 1)).fregs
          (rdOf 0x00100293#32)) := by
  refine (stays_in_range_iff (.inl rfl) (fun _ ↦ 0x00100293#32)
    (statesOf (.full 32 128) fun _ ↦ 0x00100293#32) 2 rfl fun n hn ↦ ?_).2
    ⟨by decide, fun n hn ↦ ?_⟩
  · obtain rfl | rfl : n = 0 ∨ n = 1 := by omega
    · rfl
    · rfl
  · unfold KeepsRange
    obtain rfl | rfl : n = 0 ∨ n = 1 := by omega
    · decide
    · decide

/-- A jump to the last word and a step on from there; the square root of the least number. -/
theorem not_stays_in_range :
    (exec (.full 32 128) [0xFFC00293#32, 0x00028067#32, 0x00000000#32] (Iss.init 128)).map (·.pc) =
        some (2 ^ 32) ∧
      (exec (.full 32 128) [0x00100293#32, 0xF00280D3#32, 0x58008153#32] (Iss.init 128)).map
        (fun σ ↦ decide (Subnormal (σ.fregs 2))) = some true := by
  decide

end Iss

end RvPipeline
