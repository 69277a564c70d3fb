import RvPipeline.Vm.Fill
import RvPipeline.Core.Order

/-!
# Translated data accesses

A load or store is translated in EX and drives the bus from `reg3` with the address it took along.
An AMO is not asked for by `dtlb_needed`, and a miss that a redirect hides lets a load or store go
on with its virtual address.  Apart from these, every access of a program under translation goes
to the page of a leaf that grants it.
-/

namespace RvPipeline

variable {w k : ℕ} {P : Params} {s : State w k} {i : Inputs}

/-! ## Accesses -/

/-- What the instruction in EX asks of memory: an AMO reads and, unless it is `lr`, writes. -/
def exWants (s : State w k) : List Want :=
  (if s.reg2.ctl.memRead || s.reg2.ctl.isAmo then [⟨false, false, privIsU s⟩] else []) ++
    (if s.reg2.ctl.memWrite || (s.reg2.ctl.isAmo && s.reg2.funct5 != amoF5Lr) then
      [⟨false, true, privIsU s⟩] else [])

/-- A leaf of the tables grants what the instruction in EX asks for, and `pa` is its address
there. -/
def TranslatesTo (P : Params) (s : State w k) (pa : BitVec w) : Prop :=
  ∃ leaf, mapping (tables s) (tableRoot s) (vpnOf (dtlbVaddr P s)) = some leaf ∧
    (∀ a ∈ exWants s, leaf.perm.grants a = true) ∧ pa = physAddr leaf.ppn (dtlbVaddr P s)

/-- The load/store unit asks for the bus, or the data cache is asked. -/
def dataRequest (s : State w k) : Bool :=
  lsuCyc s || (dcacheReq s).read || (dcacheReq s).write

/-- The instruction in MEM in cycle `n` left EX in cycle `m`. -/
def LeftExAt (P : Params) (s₀ : State w k) (ins : ℕ → Inputs) (m n : ℕ) : Prop :=
  m < n ∧ memHold P (run P s₀ ins m) = false ∧
    ∀ j, m < j → j < n → memHold P (run P s₀ ins j) = true

/-- The data access made in cycle `n` goes where a leaf sent it when its instruction left EX. -/
def AccessTranslated (P : Params) (s₀ : State w k) (ins : ℕ → Inputs) (n : ℕ) : Prop :=
  dataRequest (run P s₀ ins n) = true → ∃ m, LeftExAt P s₀ ins m n ∧
    (translateEnable (run P s₀ ins m) = true →
      TranslatesTo P (run P s₀ ins m) (lsuReq (run P s₀ ins n)).addr ∧
        TranslatesTo P (run P s₀ ins m) (dcacheReq (run P s₀ ins n)).addr)

/-! ## One move from EX to MEM -/

/-- No AMO leaves EX under translation, and a load or store in EX that misses the TLB is held or
traps: no redirect but its own exception hides the miss, and no abandoned walk ends in a fault
over it. -/
@[mk_iff]
structure MissHeld (P : Params) (s : State w k) (i : Inputs) : Prop where
  amo : translateEnable s = true → s.reg2.ctl.isAmo = false
  redirect : dtlbNeeded s = true → lsHit P s = false → branchTaken P s i = true →
    exceptionTaken P s = true
  abandoned : dtlbNeeded s = true → lsHit P s = false → ptwDoneD s = true → s.ptw.fault = true →
    s.ptwAbandoned = false

instance : Decidable (MissHeld P s i) := decidable_of_iff _ (missHeld_iff P s i).symm

theorem control_mem : ∀ c ∈ ({} :: controlValues : List Control),
    (c.memRead || c.memWrite) = true →
      c.isCsr = false ∧ c.aluOp = .loadStore ∧ c ≠ {} ∧ c ≠ { regWrite := true } ∧
        c ≠ { fRegWrite := true } := by
  decide

/-- The result of a load or store in EX is its physical address. -/
theorem exResult_of_mem (hdec : s.reg2.Decoded)
    (hmem : (s.reg2.ctl.memRead || s.reg2.ctl.memWrite) = true) : exResult P s = memPaddr P s := by
  obtain ⟨hcsr, hop, hne⟩ := control_mem _ hdec.ctl_mem hmem
  have hfloat : (s.reg2.isOpFp || s.reg2.isFma) = false := by
    by_contra hf
    rcases hdec.ctl_float (Bool.eq_true_of_not_eq_false hf) with h | h | h
    · exact hne.1 h
    · exact hne.2.1 h
    · exact hne.2.2 h
  have hdiv : s.reg2.isDivRem = false := by
    by_contra hd
    have := aluOp_of_isDivRem (by simpa using hd)
    rw [hop] at this
    cases this
  simp [exResult, hfloat, hcsr, hdiv, hmem]

theorem exWants_of_not_amo (h : s.reg2.ctl.isAmo = false) (hone : s.reg2.ctl.memRead = true →
    s.reg2.ctl.memWrite = false) : ∀ a ∈ exWants s, a = ⟨false, s.reg2.ctl.memWrite, privIsU s⟩ := by
  intro a ha
  unfold exWants at ha
  cases hr : s.reg2.ctl.memRead <;> cases hw : s.reg2.ctl.memWrite <;> simp_all

/-- A load or store that leaves EX under translation has hit, with its permission. -/
theorem hit_of_move (hheld : MissHeld P s i) (hneeded : dtlbNeeded s = true)
    (hlive : reg3Bubble P s i = false) : lsHit P s = true ∧ dtlbHitFault P s = false := by
  simp only [reg3Bubble, Bool.or_eq_false_iff] at hlive
  obtain ⟨⟨-, hmiss⟩, hexc⟩ := hlive
  have hfault : dtlbPageFault P s = false := by
    simp only [exceptionTaken, Reg2.exceptionTaken, Bool.or_eq_false_iff] at hexc
    exact hexc.2
  simp only [dtlbPageFault, Bool.or_eq_false_iff] at hfault
  refine ⟨?_, hfault.1⟩
  by_contra hno
  have hno : lsHit P s = false := by simpa using hno
  cases hbt : branchTaken P s i with
  | true => exact absurd (hexc.symm.trans (hheld.redirect hneeded hno hbt)) Bool.false_ne_true
  | false =>
    have hend : ptwDoneD s = true ∧ s.ptw.fault = true := by
      simpa [dtlbMiss, hneeded, hno, hbt] using hmiss
    have hab := hheld.abandoned hneeded hno hend.1 hend.2
    have := hfault.2
    simp [hend.1, hend.2, hab] at this

/-- Whatever moves to MEM under translation and accesses memory has been translated. -/
theorem TlbInv.translates (h : TlbInv P s) (hdec : s.reg2.Decoded) (hheld : MissHeld P s i)
    (hen : translateEnable s = true)
    (hacc : ((reg3Next P s i).memRead || (reg3Next P s i).memWrite || (reg3Next P s i).isAmo) =
      true) : TranslatesTo P s (reg3Next P s i).aluOut := by
  have hamo := hheld.amo hen
  have hmoves : reg3Bubble P s i = false ∧ (s.reg2.ctl.memRead || s.reg2.ctl.memWrite) = true := by
    cases hb : reg3Bubble P s i <;> simp_all [reg3Next]
  obtain ⟨hlive, hmem⟩ := hmoves
  have hneeded : dtlbNeeded s = true := by simp [dtlbNeeded, hen, hmem]
  obtain ⟨hhit, hfault⟩ := hit_of_move hheld hneeded hlive
  have haddr : (reg3Next P s i).aluOut =
      physAddr (s.tlb.entry (dtlbVaddr P s)).ppn (dtlbVaddr P s) := by
    have : (reg3Next P s i).aluOut = exResult P s := rfl
    rw [this, exResult_of_mem hdec hmem]
    simp [memPaddr, hen, hhit]
  refine ⟨_, h.holds.of_hit hhit, ?_, haddr⟩
  intro a ha
  obtain rfl := exWants_of_not_amo hamo (fun hr ↦ ((control_oneAccess _ hdec.ctl_mem).1 hr).1) a ha
  simp only [dtlbHitFault, hneeded, hhit, Bool.true_and, Bool.not_eq_false'] at hfault
  exact hfault

/-! ## Whole runs -/

theorem reg3_of_leftExAt {s₀ : State w k} {ins : ℕ → Inputs} {m n : ℕ}
    (h : LeftExAt P s₀ ins m n) :
    (run P s₀ ins n).reg3 = reg3Next P (run P s₀ ins m) (ins m) := by
  obtain ⟨hlt, hmove, hheld⟩ := h
  induction n with
  | zero => omega
  | succ n ih =>
    change ((run P s₀ ins n).reg3.step (memHold P (run P s₀ ins n)) _) = _
    rcases Nat.lt_succ_iff_lt_or_eq.1 hlt with hlt' | rfl
    · rw [Reg3.step, if_pos (hheld n hlt' (by omega))]
      exact ih hlt' fun j hj hjn ↦ hheld j hj (by omega)
    · rw [Reg3.step, if_neg (by simp [hmove])]

theorem memHold_reset (s₀ : State w k) : memHold P (reset P s₀) = false := by
  cases hmode : P.cacheMode <;>
    simp [memHold, memStall, memTrigger, amoStall, amoActive, hmode, reset, Reg3.reset]

theorem exists_leftExAt (s₀ : State w k) (ins : ℕ → Inputs) (n : ℕ) :
    ∃ m, LeftExAt P s₀ ins m (n + 1) := by
  induction n with
  | zero => exact ⟨0, Nat.zero_lt_one, memHold_reset s₀, fun j hj hj' ↦ by omega⟩
  | succ n ih =>
    cases hhold : memHold P (run P s₀ ins (n + 1)) with
    | false => exact ⟨n + 1, Nat.lt_succ_self _, hhold, fun j hj hj' ↦ by omega⟩
    | true =>
      obtain ⟨m, hlt, hmove, hheld⟩ := ih
      refine ⟨m, by omega, hmove, fun j hj hj' ↦ ?_⟩
      rcases Nat.lt_succ_iff_lt_or_eq.1 hj' with hj' | rfl
      · exact hheld j hj hj'
      · exact hhold

theorem LeftExAt.unique {s₀ : State w k} {ins : ℕ → Inputs} {m m' n : ℕ}
    (h : LeftExAt P s₀ ins m n) (h' : LeftExAt P s₀ ins m' n) : m = m' := by
  obtain ⟨hlt, hmove, hheld⟩ := h
  obtain ⟨hlt', hmove', hheld'⟩ := h'
  rcases Nat.lt_trichotomy m m' with hmm | heq | hmm
  · exact absurd (hmove'.symm.trans (hheld m' hmm hlt')) Bool.false_ne_true
  · exact heq
  · exact absurd (hmove.symm.trans (hheld' m hmm hlt)) Bool.false_ne_true

theorem dataRequest_reset (s₀ : State w k) : dataRequest (reset P s₀) = false := by
  simp [dataRequest, lsuCyc, effMemRead, effMemWrite, amoActive, dcacheReq, reset, Reg3.reset]

theorem accesses_of_dataRequest (h : dataRequest s = true) :
    (s.reg3.memRead || s.reg3.memWrite || s.reg3.isAmo) = true := by
  cases hr : s.reg3.memRead <;> cases hw : s.reg3.memWrite <;> cases ha : s.reg3.isAmo <;>
    simp_all [dataRequest, lsuCyc, effMemRead, effMemWrite, amoActive, dcacheReq]

/-- In a run that keeps `satp` and the tables in use wherever something is remembered of them, and
lets no wrong entry into the TLB, no access escapes translation if every miss is held until it is
resolved. -/
theorem accessTranslated_run (hw : w = 32 ∨ w = 64) (P : Params) (s₀ : State w k)
    (ins : ℕ → Inputs) (n : ℕ) (htables : TablesRespected P s₀ ins n)
    (hheld : ∀ m < n, MissHeld P (run P s₀ ins m) (ins m)) : AccessTranslated P s₀ ins n := by
  intro hreq
  obtain ⟨m, hleft⟩ : ∃ m, LeftExAt P s₀ ins m n := by
    cases n with
    | zero => exact absurd ((dataRequest_reset s₀).symm.trans hreq) Bool.false_ne_true
    | succ n => exact exists_leftExAt s₀ ins n
  refine ⟨m, hleft, fun hen ↦ ?_⟩
  have hreg3 := reg3_of_leftExAt hleft
  have hacc := accesses_of_dataRequest hreq
  rw [hreg3] at hacc
  have hinv := (tlbInv_run hw (htables.mono hleft.1.le)).1
  have hdec : (run P s₀ ins m).reg2.Decoded :=
    reg2_decoded ((core P w k).reachable_run ⟨s₀, rfl⟩ ins m)
  have htrans := hinv.translates hdec (hheld m hleft.1) hen hacc
  rw [← hreg3] at htrans
  exact ⟨htrans, htrans⟩

/-! ### An access to page 2, which is page 3 of the memory -/

/-- Turns Sv32 on and enters S-mode at `0x1028`, where `access` stands. -/
def pagedProgram (access : BitVec 32) : List (BitVec 32) :=
  [0x800000b7,  -- lui  x1, 0x80000
   0x18009073,  -- csrw satp, x1
   0x00001137,  -- lui  x2, 1
   0x80010113,  -- addi x2, x2, -2048
   0x30011073,  -- csrw mstatus, x2
   0x000011b7,  -- lui  x3, 1
   0x02818193,  -- addi x3, x3, 0x28
   0x34119073,  -- csrw mepc, x3
   0x00002337,  -- lui  x6, 2
   0x30200073,  -- mret
   access]

def pagedParams (access : BitVec 32) : Params :=
  { insts := fun a ↦ instsOfWords (pagedProgram access) (a % 0x1000)
    memSizeBytes := 0x4000
    dataInitFile := some [0x01, 0, 0, 0, 0x0B, 0, 0, 0, 0x0F, 0x0C, 0, 0] }

/-- `lr.w x5, (x6)` reads address `0x2000` of the memory, and not `0x3000`. -/
theorem accessTranslated_fails :
    ¬ ∀ (P : Params) (s₀ : State 32 0) (ins : ℕ → Inputs) (n : ℕ), P.cacheMode = .none →
      P.memLatencyD = 0 → TablesRespected P s₀ ins n → AccessTranslated P s₀ ins n := by
  intro hall
  have htrans := hall (pagedParams 0x100322AF) default (fun _ ↦ {}) 23 rfl rfl
    { kept := fun m hm ↦ TablesKept.of_quiet (by revert m; decide +kernel)
      inMemory := by decide +kernel
      reply := fun h ↦ by rcases h with h | h <;> exact absurd rfl h
      live := by decide +kernel }
  have hleft : LeftExAt (pagedParams 0x100322AF) (default : State 32 0) (fun _ ↦ {}) 22 23 :=
    ⟨by decide, by decide +kernel, fun j hj hj' ↦ by omega⟩
  obtain ⟨m, hm, htrans⟩ := htrans (by decide +kernel)
  obtain rfl := hm.unique hleft
  obtain ⟨⟨leaf, hleaf, -, haddr⟩, -⟩ := htrans (by decide +kernel)
  have hppn : leaf.ppn = 3#20 := by
    have hmap : (mapping (tables (run (pagedParams 0x100322AF) default (fun _ ↦ {}) 22 : State 32 0))
        (tableRoot (run (pagedParams 0x100322AF) default (fun _ ↦ {}) 22 : State 32 0))
        (vpnOf (dtlbVaddr (pagedParams 0x100322AF)
          (run (pagedParams 0x100322AF) default (fun _ ↦ {}) 22 : State 32 0)))).map Leaf.ppn =
        some 3#20 := by decide +kernel
    rw [hleaf] at hmap
    exact Option.some.inj hmap
  rw [hppn] at haddr
  exact absurd haddr (by decide +kernel)

/-- `lw x5, 0(x6)` waits for its walk and reads address `0x3000`. -/
theorem accessTranslated_load :
    dataRequest (run (pagedParams 0x00032283) default (fun _ ↦ {}) 31 : State 32 0) = true ∧
      AccessTranslated (pagedParams 0x00032283) (default : State 32 0) (fun _ ↦ {}) 31 :=
  ⟨by decide +kernel,
    accessTranslated_run (.inl rfl) (pagedParams 0x00032283) default (fun _ ↦ {}) 31
      { kept := fun m hm ↦ TablesKept.of_quiet (by revert m; decide +kernel)
        inMemory := by decide +kernel
        reply := fun h ↦ by rcases h with h | h <;> exact absurd rfl h
        live := by decide +kernel }
      (by decide +kernel)⟩

end RvPipeline
