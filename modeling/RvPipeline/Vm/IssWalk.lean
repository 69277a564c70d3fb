import RvPipeline.Vm.Walk
import RvPipeline.Iss.Arith

/-!
# The simulator's translation

`_translate_sv32` and `_translate_sv39` walk the tables in straight-line Python.  Both compute
`mapping` on the simulator's memory, so the walker, whatever the delays on its bus, ends where they
do.
-/

namespace RvPipeline

variable {w : ℕ}

/-! ## Entries as numbers -/

section Numbers

variable (n : ℕ) {level : ℕ}

theorem Pte.valid_ofNat (hw : 0 < w) : Pte.valid (BitVec.ofNat w n) = n.testBit pteVBit := by
  simp only [Pte.valid, BitVec.getLsbD_ofNat, pteVBit]
  simp [hw]

theorem Pte.isLeaf_ofNat (hw : 4 ≤ w) : Pte.isLeaf (BitVec.ofNat w n) = Iss.pteLeaf n := by
  simp only [Pte.isLeaf, Iss.pteLeaf, BitVec.getLsbD_ofNat, pteRBit, pteWBit, pteXBit]
  simp [show 1 < w by omega, show 2 < w by omega, show 3 < w by omega]

theorem Pte.toNat_ppn_ofNat (hw : 30 ≤ w) :
    (Pte.ppn (BitVec.ofNat w n)).toNat = (n >>> 10) &&& 0xFFFFF := by
  apply Nat.eq_of_testBit_eq
  intro i
  rw [show (0xFFFFF : ℕ) = 2 ^ 20 - 1 from rfl, Nat.and_two_pow_sub_one_eq_mod]
  simp only [Pte.ppn, BitVec.testBit_toNat, Nat.testBit_shiftRight, Nat.testBit_mod_two_pow,
    BitVec.getLsbD_extractLsb', BitVec.getLsbD_ofNat]
  grind

theorem Pte.aligned_ofNat (hlevel : Ptw.vpnBits w * level ≤ 20) (hw : 30 ≤ w) :
    Pte.aligned (BitVec.ofNat w n) level =
      decide (((n >>> 10) &&& 0xFFFFF) % 2 ^ (Ptw.vpnBits w * level) = 0) := by
  rw [← Pte.toNat_ppn_ofNat n hw, Bool.eq_iff_iff]
  simp only [Pte.aligned, beq_iff_eq, decide_eq_true_eq]
  rw [← BitVec.toNat_inj]
  simp only [Pte.ppn, BitVec.extractLsb'_toNat, BitVec.toNat_ofNat, BitVec.ofNat_eq_ofNat,
    Nat.zero_mod]
  rw [Nat.mod_mod_of_dvd _ (pow_dvd_pow 2 hlevel)]

theorem toNat_entryAddr (hw : w = 32 ∨ w = 64) (hlevel : level ≤ Ptw.topLevel w) (base : BitVec 20)
    (va : BitVec w) :
    (entryAddr w base (vpnOf va) level).toNat =
      (base.toNat <<< 12) |||
        ((va.toNat >>> (12 + Ptw.vpnBits w * level) % 2 ^ Ptw.vpnBits w) <<< Ptw.pteShift w) := by
  apply Nat.eq_of_testBit_eq
  intro i
  simp only [entryAddr, vpnOf, vpnWidth, BitVec.testBit_toNat, Nat.testBit_or,
    Nat.testBit_shiftLeft, Nat.testBit_shiftRight, Nat.testBit_mod_two_pow,
    BitVec.getLsbD_setWidth, BitVec.getLsbD_or, BitVec.getLsbD_append, BitVec.getLsbD_shiftLeft,
    BitVec.getLsbD_extractLsb', BitVec.getLsbD_zero]
  rcases hw with rfl | rfl
  · simp only [Ptw.topLevel, Ptw.vpnBits, Ptw.pteShift, if_true] at hlevel ⊢
    grind
  · simp +decide only [Ptw.topLevel, Ptw.vpnBits, Ptw.pteShift, if_false] at hlevel ⊢
    grind

theorem toNat_physAddr (hw : 32 ≤ w) (ppn : BitVec 20) (va : BitVec w) :
    (physAddr ppn va).toNat = ppn.toNat <<< 12 ||| (va.toNat &&& 0xFFF) := by
  apply Nat.eq_of_testBit_eq
  intro i
  rw [show (0xFFF : ℕ) = 2 ^ 12 - 1 from rfl, Nat.and_two_pow_sub_one_eq_mod]
  simp only [physAddr, BitVec.testBit_toNat, Nat.testBit_or, Nat.testBit_shiftLeft,
    Nat.testBit_mod_two_pow, BitVec.getLsbD_setWidth, BitVec.getLsbD_append,
    BitVec.getLsbD_extractLsb']
  grind

theorem toNat_leaf_ppn (hw : 30 ≤ w) (hlevel : Ptw.vpnBits w * level ≤ 20) (vpn : BitVec 27) :
    (Pte.leaf (BitVec.ofNat w n) vpn level).ppn.toNat =
      ((((n >>> 10) &&& 0xFFFFF) >>> (Ptw.vpnBits w * level)) <<< (Ptw.vpnBits w * level)) |||
        vpn.toNat % 2 ^ (Ptw.vpnBits w * level) := by
  rw [← Pte.toNat_ppn_ofNat n hw]
  apply Nat.eq_of_testBit_eq
  intro i
  simp only [Pte.leaf, BitVec.testBit_toNat, Nat.testBit_or, Nat.testBit_shiftLeft,
    Nat.testBit_shiftRight, Nat.testBit_mod_two_pow, BitVec.getLsbD_setWidth, BitVec.getLsbD_or,
    BitVec.getLsbD_shiftLeft, BitVec.getLsbD_ushiftRight]
  grind

theorem toNat_vpnOf (va : BitVec w) :
    (vpnOf va).toNat = (va.toNat >>> 12) % 2 ^ vpnWidth w := by
  apply Nat.eq_of_testBit_eq
  intro i
  have : vpnWidth w ≤ 27 := by
    unfold vpnWidth
    split_ifs <;> omega
  simp only [vpnOf, BitVec.testBit_toNat, Nat.testBit_shiftRight, Nat.testBit_mod_two_pow,
    BitVec.getLsbD_setWidth, BitVec.getLsbD_extractLsb']
  grind

end Numbers

/-! ## The simulator reads the same tables -/

namespace Iss

variable (C : IssConfig) (σ : Iss)

/-- The table entry at an address of the simulator's memory. -/
def pteAt (w : ℕ) (addr : BitVec w) : BitVec w := BitVec.ofNat w (σ.readPte C addr.toNat (w / 8))

def Access.want (access : Access) (privMode : BitVec 2) : Want :=
  { isFetch := access == .fetch, isStore := access == .store, privIsU := privMode == privU }

/-- The answer of a translation that ends at `found`. -/
def outcome (access : Access) (va : BitVec w) : Option Leaf → Except Iss ℕ
  | some leaf =>
    if leaf.perm.grants (access.want σ.privMode) then .ok (physAddr leaf.ppn va).toNat
    else .error (σ.trap access.faultCause va.toNat)
  | none => .error (σ.trap access.faultCause va.toNat)

variable {access : Access} {satp : BitVec w}

theorem grants_ofNat (hw : 5 ≤ w) (pte : ℕ) :
    (Pte.perm (BitVec.ofNat w pte)).grants (access.want σ.privMode) = σ.ptePermOk pte access := by
  have h1 : decide (1 < w) = true := by simpa using (by omega : 1 < w)
  have h2 : decide (2 < w) = true := by simpa using (by omega : 2 < w)
  have h3 : decide (3 < w) = true := by simpa using (by omega : 3 < w)
  have h4 : decide (4 < w) = true := by simpa using (by omega : 4 < w)
  cases access <;>
    simp +decide [Perm.grants, Pte.perm, Access.want, ptePermOk, pteRBit, pteWBit, pteXBit, pteUBit,
      BitVec.getLsbD_ofNat, h1, h2, h3, h4]

/-- The address a leaf at this level gives, in the simulator's arithmetic. -/
def leafAddr (w pte va level : ℕ) : ℕ :=
  let low := Ptw.vpnBits w * level
  (((pte >>> 10) &&& 0xFFFFF) >>> low <<< low ||| (va >>> 12) % 2 ^ vpnWidth w % 2 ^ low) <<< 12 |||
    (va &&& 0xFFF)

theorem toNat_physAddr_leaf (hw : 32 ≤ w) {level : ℕ} (hlevel : Ptw.vpnBits w * level ≤ 20)
    (pte : ℕ) (va : BitVec w) :
    (physAddr (Pte.leaf (BitVec.ofNat w pte) (vpnOf va) level).ppn va).toNat =
      uXlen (leafAddr w pte va.toNat level) w := by
  have h : (physAddr (Pte.leaf (BitVec.ofNat w pte) (vpnOf va) level).ppn va).toNat =
      leafAddr w pte va.toNat level := by
    rw [toNat_physAddr hw, toNat_leaf_ppn pte (by omega) hlevel, toNat_vpnOf, leafAddr]
  rw [← h, uXlen_toNat]

/-- The simulator's walk from an entry of this level on. -/
def walk (w va : ℕ) (access : Access) (level pte : ℕ) : Except Iss ℕ :=
  let fault := Except.error (σ.trap access.faultCause va)
  if !pte.testBit pteVBit then fault
  else if pteLeaf pte then
    if ((pte >>> 10) &&& 0xFFFFF) % 2 ^ (Ptw.vpnBits w * level) ≠ 0 then fault
    else if !σ.ptePermOk pte access then fault
    else .ok (uXlen (leafAddr w pte va level) w)
  else
    match level with
    | 0 => fault
    | l + 1 => walk w va access l (σ.readPte C (((pte >>> 10) &&& 0xFFFFF) <<< 12 |||
        ((va >>> (12 + Ptw.vpnBits w * l) % 2 ^ Ptw.vpnBits w) <<< Ptw.pteShift w)) (w / 8))

theorem outcome_leaf (hw : 32 ≤ w) {level : ℕ} (hlevel : Ptw.vpnBits w * level ≤ 20) (pte : ℕ)
    (va : BitVec w) :
    σ.outcome access va
        (if Pte.aligned (BitVec.ofNat w pte) level then
          some (Pte.leaf (BitVec.ofNat w pte) (vpnOf va) level) else none) =
      if ((pte >>> 10) &&& 0xFFFFF) % 2 ^ (Ptw.vpnBits w * level) ≠ 0 then
        .error (σ.trap access.faultCause va.toNat)
      else if !σ.ptePermOk pte access then .error (σ.trap access.faultCause va.toNat)
      else .ok (uXlen (leafAddr w pte va.toNat level) w) := by
  rw [Pte.aligned_ofNat pte hlevel (by omega)]
  by_cases h : ((pte >>> 10) &&& 0xFFFFF) % 2 ^ (Ptw.vpnBits w * level) = 0
  · have hperm : (Pte.leaf (BitVec.ofNat w pte) (vpnOf va) level).perm.grants
        (access.want σ.privMode) = σ.ptePermOk pte access := σ.grants_ofNat (by omega) pte
    simp only [h, decide_true, if_true, outcome, ne_eq, not_true_eq_false, if_false, hperm,
      toNat_physAddr_leaf hw hlevel]
    cases σ.ptePermOk pte access <;> rfl
  · simp only [h, decide_false, Bool.false_eq_true, if_false, outcome, ne_eq, not_false_iff,
      if_true]

/-- The next entry is the one the simulator reads. -/
theorem pteAt_entryAddr (hw : w = 32 ∨ w = 64) {level : ℕ} (hlevel : level ≤ Ptw.topLevel w)
    (base : BitVec 20) (va : BitVec w) :
    σ.pteAt C w (entryAddr w base (vpnOf va) level) =
      BitVec.ofNat w (σ.readPte C (base.toNat <<< 12 |||
        ((va.toNat >>> (12 + Ptw.vpnBits w * level) % 2 ^ Ptw.vpnBits w) <<< Ptw.pteShift w))
          (w / 8)) := by
  rw [pteAt, toNat_entryAddr hw hlevel]

theorem outcome_resolve (hw : w = 32 ∨ w = 64) {level : ℕ} (hlevel : level ≤ Ptw.topLevel w)
    (pte : ℕ) (va : BitVec w) :
    σ.outcome access va (resolve (σ.pteAt C w) (vpnOf va) level (BitVec.ofNat w pte)) =
      σ.walk C w va.toNat access level pte := by
  have hw' : 32 ≤ w := by rcases hw with rfl | rfl <;> decide
  have hbits : ∀ l, l ≤ Ptw.topLevel w → Ptw.vpnBits w * l ≤ 20 := by
    intro l hl
    rcases hw with rfl | rfl <;> simp +decide [Ptw.topLevel, Ptw.vpnBits] at hl ⊢ <;> omega
  induction level generalizing pte with
  | zero =>
    unfold resolve walk
    dsimp only
    rw [Pte.valid_ofNat pte (by omega), Pte.isLeaf_ofNat pte (by omega),
      ← outcome_leaf σ hw' (hbits 0 hlevel)]
    cases pte.testBit pteVBit <;> cases pteLeaf pte <;> rfl
  | succ l ih =>
    unfold resolve walk
    dsimp only
    rw [Pte.valid_ofNat pte (by omega), Pte.isLeaf_ofNat pte (by omega),
      ← outcome_leaf σ hw' (hbits (l + 1) hlevel), ← ih (by omega),
      pteAt_entryAddr C σ hw (by omega), Pte.toNat_ppn_ofNat pte (by omega)]
    cases pte.testBit pteVBit <;> cases pteLeaf pte <;> rfl

theorem outcome_mapping (hw : w = 32 ∨ w = 64) (va : BitVec w) (root : BitVec 20) :
    σ.outcome access va (mapping (σ.pteAt C w) root (vpnOf va)) =
      σ.walk C w va.toNat access (Ptw.topLevel w) (σ.readPte C (root.toNat <<< 12 |||
        ((va.toNat >>> (12 + Ptw.vpnBits w * Ptw.topLevel w) % 2 ^ Ptw.vpnBits w) <<<
          Ptw.pteShift w)) (w / 8)) := by
  rw [mapping, pteAt_entryAddr C σ hw le_rfl, outcome_resolve C σ hw le_rfl]

/-! ### The levels of the straight-line code -/

theorem leafAddr_zero (pte va : ℕ) :
    leafAddr w pte va 0 = ((pte >>> 10) &&& 0xFFFFF) <<< 12 ||| (va &&& 0xFFF) := by
  simp [leafAddr, Nat.mod_one]

theorem leafAddr_one (hw : w = 32 ∨ w = 64) (pte va : ℕ) :
    leafAddr w pte va 1 =
      ((((pte >>> 10) &&& 0xFFFFF) >>> Ptw.vpnBits w) <<< Ptw.vpnBits w |||
        va >>> 12 % 2 ^ Ptw.vpnBits w) <<< 12 ||| (va &&& 0xFFF) := by
  have hdvd : 2 ^ Ptw.vpnBits w ∣ 2 ^ vpnWidth w := by
    apply pow_dvd_pow
    rcases hw with rfl | rfl <;> decide
  simp only [leafAddr, mul_one, Nat.mod_mod_of_dvd _ hdvd]

theorem leafAddr_two (pte va : ℕ) :
    leafAddr 64 pte va 2 =
      ((((pte >>> 10) &&& 0xFFFFF) >>> 18) <<< 18 ||| (va >>> 21 % 2 ^ 9) <<< 9 |||
        va >>> 12 % 2 ^ 9) <<< 12 ||| (va &&& 0xFFF) := by
  have hvpn : va >>> 12 % 2 ^ 27 % 2 ^ 18 = (va >>> 21 % 2 ^ 9) <<< 9 ||| va >>> 12 % 2 ^ 9 := by
    apply Nat.eq_of_testBit_eq
    intro i
    simp only [Nat.testBit_or, Nat.testBit_shiftLeft, Nat.testBit_shiftRight,
      Nat.testBit_mod_two_pow]
    grind
  rw [Nat.or_assoc _ _ (va >>> 12 % 2 ^ 9), ← hvpn]
  rfl

theorem walk_zero (va pte : ℕ) :
    σ.walk C w va access 0 pte =
      if !pte.testBit pteVBit then .error (σ.trap access.faultCause va)
      else if !pteLeaf pte then .error (σ.trap access.faultCause va)
      else if !σ.ptePermOk pte access then .error (σ.trap access.faultCause va)
      else .ok (uXlen ((((pte >>> 10) &&& 0xFFFFF) <<< 12 ||| (va &&& 0xFFF) : ℕ)) w) := by
  simp only [walk, mul_zero, pow_zero, Nat.mod_one, ne_eq, not_true_eq_false, if_false,
    leafAddr_zero]
  cases pteLeaf pte <;> rfl

theorem walk_succ (va level pte : ℕ) :
    σ.walk C w va access (level + 1) pte =
      if !pte.testBit pteVBit then .error (σ.trap access.faultCause va)
      else if pteLeaf pte then
        if ((pte >>> 10) &&& 0xFFFFF) % 2 ^ (Ptw.vpnBits w * (level + 1)) ≠ 0 then
          .error (σ.trap access.faultCause va)
        else if !σ.ptePermOk pte access then .error (σ.trap access.faultCause va)
        else .ok (uXlen (leafAddr w pte va (level + 1)) w)
      else σ.walk C w va access level (σ.readPte C (((pte >>> 10) &&& 0xFFFFF) <<< 12 |||
        ((va >>> (12 + Ptw.vpnBits w * level) % 2 ^ Ptw.vpnBits w) <<< Ptw.pteShift w))
          (w / 8)) := by
  conv_lhs => unfold walk

theorem translateSv32_eq (va satp : BitVec 32) :
    σ.translateSv32 C va.toNat access satp.toNat =
      σ.outcome access va (mapping (σ.pteAt C 32) (satp.setWidth 20) (vpnOf va)) := by
  have hva : u32 va.toNat = va.toNat := uXlen_toNat va
  have hsatp : (satp.setWidth 20).toNat = satp.toNat &&& 0xFFFFF :=
    (Nat.and_two_pow_sub_one_eq_mod satp.toNat 20).symm
  have hmask : ∀ x : ℕ, x &&& 0x3FF = x % 2 ^ 10 := fun x ↦ Nat.and_two_pow_sub_one_eq_mod x 10
  rw [outcome_mapping C σ (.inl rfl), hsatp, show Ptw.topLevel 32 = 0 + 1 from rfl, walk_succ,
    walk_zero, leafAddr_one (.inl rfl)]
  simp only [translateSv32, hva, hmask]
  rfl

theorem translateSv39_eq (hC : C.xlen = 64) (va satp : BitVec 64) :
    σ.translateSv39 C va.toNat access satp.toNat =
      σ.outcome access va (mapping (σ.pteAt C 64) (satp.setWidth 20) (vpnOf va)) := by
  have hsatp : (satp.setWidth 20).toNat = satp.toNat &&& 0xFFFFF :=
    (Nat.and_two_pow_sub_one_eq_mod satp.toNat 20).symm
  have hmask : ∀ x : ℕ, x &&& 0x1FF = x % 2 ^ 9 := fun x ↦ Nat.and_two_pow_sub_one_eq_mod x 9
  have hmask' : ∀ x : ℕ, x &&& 0x3FFFF = x % 2 ^ 18 :=
    fun x ↦ Nat.and_two_pow_sub_one_eq_mod x 18
  rw [outcome_mapping C σ (.inr rfl), hsatp, show Ptw.topLevel 64 = 0 + 1 + 1 from rfl, walk_succ,
    walk_succ, walk_zero, leafAddr_one (.inr rfl), leafAddr_two]
  simp only [translateSv39, hmask, hmask', hC]
  rfl

/-- `_translate_sv32` or `_translate_sv39`, as `translate` picks them. -/
def translateSv (vaddr : ℕ) (access : Access) (satp : ℕ) : Except Iss ℕ :=
  if C.xlen = 32 then σ.translateSv32 C vaddr access satp else σ.translateSv39 C vaddr access satp

theorem translateSv_eq (hw : w = 32 ∨ w = 64) (hC : C.xlen = w) (va satp : BitVec w) :
    σ.translateSv C va.toNat access satp.toNat =
      σ.outcome access va (mapping (σ.pteAt C w) (satp.setWidth 20) (vpnOf va)) := by
  rcases hw with rfl | rfl
  · rw [translateSv, if_pos hC, translateSv32_eq]
  · rw [translateSv, if_neg (by omega), translateSv39_eq C σ hC]

end Iss

/-! ## The walker and the simulator -/

theorem Csr.satpPpnVal_setWidth (hw : w = 32 ∨ w = 64) (c : Csr w) :
    c.satpPpnVal.setWidth 20 = c.satp.setWidth 20 := by
  apply BitVec.eq_of_getLsbD_eq
  intro i hi
  rcases hw with rfl | rfl <;>
    simp +decide [Csr.satpPpnVal, BitVec.getLsbD_extractLsb', hi] <;> omega

namespace Ptw

/-- A walker at rest is started once for `va`; the bus answers every read some time, with the
entry that was asked for. -/
structure WalkRun (pteAt : BitVec w → BitVec w) (va : BitVec w) (satpPpn : BitVec 44) (a : Want)
    (ps : ℕ → Ptw w) (ins : ℕ → Input w) : Prop where
  idle : (ps 0).state = .idle
  ready : ((ins 0).start && !(ps 0).busy && !(ps 0).done) = true
  vaddr : (ins 0).vaddr = va
  satpPpn : (ins 0).satpPpn = satpPpn
  want : (⟨(ins 0).isFetch, (ins 0).isStore, (ins 0).privIsU⟩ : Want) = a
  run : ∀ n, ps (n + 1) = (ps n).next (ins n)
  served : ∀ n, (ps n).Served pteAt (ins n)
  answered : ∀ n, (ps n).mCyc = true → ∃ m, n ≤ m ∧ (ins m).mAck = true

theorem WalkRun.reports {pteAt : BitVec w → BitVec w} {va : BitVec w} {satpPpn : BitVec 44}
    {a : Want} {ps : ℕ → Ptw w} {ins : ℕ → Input w} (h : WalkRun pteAt va satpPpn a ps ins) :
    ∃ n, (ps n).Reports a (mapping pteAt (satpPpn.setWidth 20) (vpnOf va)) ∧
      ∀ k < n, (ps k).done = false := by
  have hwalk : (ps (0 + 1)).Walking pteAt (vpnOf va) a
      (mapping pteAt (satpPpn.setWidth 20) (vpnOf va)) := by
    rw [h.run 0, ← h.vaddr, ← h.satpPpn, ← h.want]
    exact walking_start h.idle h.ready
  obtain ⟨n, -, hrep, -, hquiet⟩ := hwalk.reports h.run h.served h.answered
  refine ⟨n, hrep, fun k hk ↦ ?_⟩
  cases k with
  | zero =>
    have hready := h.ready
    simp only [Bool.and_eq_true, Bool.not_eq_true'] at hready
    exact hready.2
  | succ k => exact hquiet (k + 1) (by omega) hk

/-- The walker has ended with this answer of the simulator. -/
def EndsWith (p : Ptw w) (va : BitVec w) : Except Iss ℕ → Prop
  | .error _ => p.fault = true
  | .ok pa => p.fault = false ∧ (physAddr p.resultPpn va).toNat = pa

/-- Started for an access, the walker ends, and ends where the simulator's translation does. -/
theorem walk_ends_with_iss (hw : w = 32 ∨ w = 64) (C : IssConfig) (hC : C.xlen = w) (σ : Iss)
    (c : Csr w) (va : BitVec w) (access : Iss.Access) (ps : ℕ → Ptw w) (ins : ℕ → Input w)
    (h : WalkRun (σ.pteAt C w) va c.satpPpnVal (access.want σ.privMode) ps ins) :
    ∃ n, (∀ k < n, (ps k).done = false) ∧ (ps n).done = true ∧
      (ps n).EndsWith va (σ.translateSv C va.toNat access c.satp.toNat) := by
  obtain ⟨n, hrep, hquiet⟩ := h.reports
  refine ⟨n, hquiet, hrep.done, ?_⟩
  rw [σ.translateSv_eq C hw hC, ← c.satpPpnVal_setWidth hw]
  have hfault := hrep.fault
  have hleaf := hrep.leaf
  cases hfound : mapping (σ.pteAt C w) (c.satpPpnVal.setWidth 20) (vpnOf va) with
  | none =>
    rw [hfound] at hfault
    exact hfault
  | some leaf =>
    rw [hfound] at hfault hleaf
    rw [Option.any_some] at hfault
    cases hgrants : leaf.perm.grants (access.want σ.privMode) with
    | false =>
      rw [hgrants] at hfault
      simp only [Iss.outcome, hgrants]
      exact hfault
    | true =>
      rw [hgrants] at hfault
      simp only [Iss.outcome, hgrants, if_true]
      have hsome := hleaf hfault
      rw [Option.some.injEq] at hsome
      exact ⟨hfault, by rw [hsome]⟩

/-- A megapage for `va[31:22] = 3`, in a table at `0x1000`. -/
def megapageIss : Iss :=
  { Iss.init 0x10000 with
    mem := Function.update (Function.update (fun _ ↦ 0) 0x100C 0x0F) 0x100E 0x20
    privMode := privS }

def megapageConfig : IssConfig := { memSize := 0x10000, fpStep := fun _ _ ↦ none }

theorem megapageIss_translateSv :
    megapageIss.translateSv megapageConfig 0xC05678 .load 0x80000001 = .ok 0x805678 := by
  simp only [Iss.translateSv, megapageConfig, if_true, Iss.translateSv32]
  rfl

/-- A bus that answers at once; `start` stays up. -/
def promptInput (pteAt : BitVec w → BitVec w) (va : BitVec w) (satpPpn : BitVec 44) (a : Want)
    (p : Ptw w) : Input w :=
  { start := true, vaddr := va, satpPpn := satpPpn, isFetch := a.isFetch, isStore := a.isStore
    privIsU := a.privIsU, mDataI := pteAt p.mAddr, mAck := true }

def promptRun (pteAt : BitVec w → BitVec w) (va : BitVec w) (satpPpn : BitVec 44) (a : Want) :
    ℕ → Ptw w
  | 0 => default
  | n + 1 => (promptRun pteAt va satpPpn a n).next
      (promptInput pteAt va satpPpn a (promptRun pteAt va satpPpn a n))

theorem walk_ends_with_iss_megapage :
    let C := megapageConfig
    let c : Csr 32 := { (default : Csr 32) with satp := 0x80000001 }
    let a := Iss.Access.load.want privS
    ∃ n, (promptRun (megapageIss.pteAt C 32) 0xC05678 c.satpPpnVal a n).done = true ∧
      (promptRun (megapageIss.pteAt C 32) 0xC05678 c.satpPpnVal a n).fault = false ∧
      (physAddr (promptRun (megapageIss.pteAt C 32) 0xC05678 c.satpPpnVal a n).resultPpn
        (0xC05678 : BitVec 32)).toNat = 0x805678 := by
  intro C c a
  have hiss : megapageIss.translateSv C (0xC05678 : BitVec 32).toNat .load c.satp.toNat =
      .ok 0x805678 :=
    megapageIss_translateSv
  obtain ⟨n, -, hdone, hends⟩ := walk_ends_with_iss (.inl rfl) C rfl megapageIss c 0xC05678 .load
    (promptRun (megapageIss.pteAt C 32) 0xC05678 c.satpPpnVal a)
    (fun n ↦ promptInput (megapageIss.pteAt C 32) 0xC05678 c.satpPpnVal a
      (promptRun (megapageIss.pteAt C 32) 0xC05678 c.satpPpnVal a n))
    { idle := rfl, ready := rfl, vaddr := rfl, satpPpn := rfl, want := rfl, run := fun _ ↦ rfl
      served := fun _ _ _ ↦ rfl, answered := fun n _ ↦ ⟨n, le_rfl, rfl⟩ }
  rw [hiss] at hends
  exact ⟨n, hdone, hends⟩

end Ptw

end RvPipeline
