import RvPipeline.Vm.Fill
import RvPipeline.Vm.IssWalk

/-!
# The architecture's translation algorithm

The privileged architecture rejects addresses that are not sign-extended and entries with an
encoding it reserves.  The walker tests `V`, the alignment of superpages and the permissions
only, and a TLB hit only the permissions: both let an access through exactly when the tables end
in a leaf that grants it, a hit as long as no wrong entry has come into the TLB.  This file has the
architecture's algorithm, less the accessed and dirty bits, and says on which tables and addresses
the difference shows.
-/

namespace RvPipeline

variable {w k : ℕ}

/-! ## The algorithm -/

namespace Spec

/-- Under Sv39 bits 63 to 39 of an address repeat bit 38. -/
def canonical (va : BitVec w) : Bool :=
  w == 32 || va.extractLsb' 38 (w - 38) == 0 || va.extractLsb' 38 (w - 38) == BitVec.allOnes _

/-- Encodings reserved in every entry: writable but not readable, and bits 63 to 54. -/
def reserved (pte : BitVec w) : Bool :=
  (!pte.getLsbD pteRBit && pte.getLsbD pteWBit) || pte.extractLsb' 54 (w - 54) != 0

/-- `U` is reserved in a pointer to the next table. -/
def reservedPointer (pte : BitVec w) : Bool :=
  !Pte.isLeaf pte && pte.getLsbD pteUBit

def wellFormed (pte : BitVec w) : Bool := !reserved pte && !reservedPointer pte

/-- The leaf reached from an entry of this level on. -/
def resolve (pteAt : BitVec w → BitVec w) (vpn : BitVec 27) (level : ℕ) (pte : BitVec w) :
    Option Leaf :=
  if !Pte.valid pte || reserved pte then none
  else if pte.getLsbD pteRBit || pte.getLsbD pteXBit then
    if Pte.aligned pte level then some (Pte.leaf pte vpn level) else none
  else if pte.getLsbD pteUBit then none
  else
    match level with
    | 0 => none
    | l + 1 => resolve pteAt vpn l (pteAt (entryAddr w (Pte.ppn pte) vpn l))

/-- The algorithm grants the access. -/
def Allows (pteAt : BitVec w → BitVec w) (root : BitVec 20) (a : Want) (va : BitVec w) : Prop :=
  canonical va = true ∧ ∃ leaf, resolve pteAt (vpnOf va) (Ptw.topLevel w)
    (pteAt (entryAddr w root (vpnOf va) (Ptw.topLevel w))) = some leaf ∧ leaf.perm.grants a = true

end Spec

/-- The entries a walk reads, from one of this level on. -/
def path (pteAt : BitVec w → BitVec w) (vpn : BitVec 27) (level : ℕ) (pte : BitVec w) :
    List (BitVec w) :=
  pte ::
    if Pte.valid pte && !Pte.isLeaf pte then
      match level with
      | 0 => []
      | l + 1 => path pteAt vpn l (pteAt (entryAddr w (Pte.ppn pte) vpn l))
    else []

section

variable (pteAt : BitVec w → BitVec w) (vpn : BitVec 27)

theorem Spec.resolve_of_leaf {level : ℕ} {pte : BitVec w}
    (hend : (Pte.valid pte && !Pte.isLeaf pte) = false) :
    Spec.resolve pteAt vpn level pte =
      if Spec.wellFormed pte then RvPipeline.resolve pteAt vpn level pte else none := by
  unfold Spec.resolve RvPipeline.resolve
  cases hvalid : Pte.valid pte with
  | false => simp
  | true =>
    have hleaf : Pte.isLeaf pte = true := by simpa [hvalid] using hend
    have hor : Spec.reserved pte = false → (pte.getLsbD pteRBit || pte.getLsbD pteXBit) = true := by
      revert hleaf
      simp only [Pte.isLeaf, Spec.reserved]
      cases pte.getLsbD pteRBit <;> cases pte.getLsbD pteWBit <;> simp +contextual
    cases hres : Spec.reserved pte with
    | true => simp [Spec.wellFormed, hres]
    | false => simp [Spec.wellFormed, Spec.reservedPointer, hres, hleaf, hor hres]

theorem Spec.resolve_of_pointer {level : ℕ} {pte : BitVec w}
    (hnext : (Pte.valid pte && !Pte.isLeaf pte) = true) :
    Spec.resolve pteAt vpn level pte =
      if Spec.wellFormed pte then
        match level with
        | 0 => none
        | l + 1 => Spec.resolve pteAt vpn l (pteAt (entryAddr w (Pte.ppn pte) vpn l))
      else none := by
  simp only [Bool.and_eq_true, Bool.not_eq_true'] at hnext
  obtain ⟨hvalid, hleaf⟩ := hnext
  have hbits := hleaf
  simp only [Pte.isLeaf, Bool.or_eq_false_iff] at hbits
  conv_lhs => unfold Spec.resolve
  simp only [Spec.wellFormed, Spec.reservedPointer, hvalid, hleaf, hbits.1.1, hbits.2]
  cases Spec.reserved pte <;> cases pte.getLsbD pteUBit <;> simp

theorem resolve_next {level : ℕ} {pte : BitVec w}
    (hnext : (Pte.valid pte && !Pte.isLeaf pte) = true) :
    resolve pteAt vpn level pte =
      match level with
      | 0 => none
      | l + 1 => resolve pteAt vpn l (pteAt (entryAddr w (Pte.ppn pte) vpn l)) := by
  simp only [Bool.and_eq_true, Bool.not_eq_true'] at hnext
  conv_lhs => unfold resolve
  rw [hnext.1, hnext.2]
  cases level <;> rfl

/-- The architecture finds what the walker finds, if nothing on the way is reserved. -/
theorem Spec.resolve_eq (level : ℕ) (pte : BitVec w) :
    Spec.resolve pteAt vpn level pte =
      if ∀ e ∈ path pteAt vpn level pte, Spec.wellFormed e = true then
        RvPipeline.resolve pteAt vpn level pte else none := by
  induction level generalizing pte with
  | zero =>
    cases hnext : (Pte.valid pte && !Pte.isLeaf pte) with
    | false => simp [Spec.resolve_of_leaf pteAt vpn hnext, path, hnext]
    | true => simp [Spec.resolve_of_pointer pteAt vpn hnext, resolve_next pteAt vpn hnext]
  | succ l ih =>
    cases hnext : (Pte.valid pte && !Pte.isLeaf pte) with
    | false => simp [Spec.resolve_of_leaf pteAt vpn hnext, path, hnext]
    | true =>
      rw [Spec.resolve_of_pointer pteAt vpn hnext, resolve_next pteAt vpn hnext]
      conv_rhs => unfold path
      simp only [hnext, if_true, List.forall_mem_cons, ih]
      cases Spec.wellFormed pte <;> simp

end

/-! ## What the processor lets through -/

/-- The entries read for `va`. -/
def walkPath (pteAt : BitVec w → BitVec w) (root : BitVec 20) (va : BitVec w) : List (BitVec w) :=
  path pteAt (vpnOf va) (Ptw.topLevel w)
    (pteAt (entryAddr w root (vpnOf va) (Ptw.topLevel w)))

/-- The tables end in a leaf that grants the access. -/
def Granted (pteAt : BitVec w → BitVec w) (root : BitVec 20) (a : Want) (va : BitVec w) : Prop :=
  ∃ leaf, mapping pteAt root (vpnOf va) = some leaf ∧ leaf.perm.grants a = true

/-- The address is one, and every entry read for it is one, that the architecture accepts. -/
def Regular (pteAt : BitVec w → BitVec w) (root : BitVec 20) (va : BitVec w) : Prop :=
  Spec.canonical va = true ∧ ∀ pte ∈ walkPath pteAt root va, Spec.wellFormed pte = true

theorem Spec.allows_iff {pteAt : BitVec w → BitVec w} {root : BitVec 20} {a : Want}
    {va : BitVec w} :
    Spec.Allows pteAt root a va ↔ Granted pteAt root a va ∧ Regular pteAt root va := by
  unfold Spec.Allows Granted Regular walkPath mapping
  rw [Spec.resolve_eq]
  constructor
  · rintro ⟨hva, leaf, hleaf, hgrants⟩
    split_ifs at hleaf with hwf
    exact ⟨⟨leaf, hleaf, hgrants⟩, hva, hwf⟩
  · rintro ⟨⟨leaf, hleaf, hgrants⟩, hva, hwf⟩
    exact ⟨hva, leaf, by rw [if_pos hwf, hleaf], hgrants⟩

/-- `PIPELINED` lets the access to `va` through only if the architecture does: by the end of a
walk of the tables in memory, and by a hit of fetch or of a load or store in the TLB as it is. -/
structure PassesOnlyAllowed (P : Params) (s : State w k) (a : Want) (va : BitVec w) : Prop where
  walk : ∀ (ps : ℕ → Ptw w) (ins : ℕ → Ptw.Input w) (n : ℕ),
    Ptw.WalkRun (tables s) va s.csr.satpPpnVal a ps ins → (∀ j < n, (ps j).done = false) →
    (ps n).done = true → (ps n).fault = false → Spec.Allows (tables s) (tableRoot s) a va
  fetch : translateEnable s = true → a = ⟨true, false, privIsU s⟩ → imemReadAddr P s = va →
    itlbHit P s = true → itlbHitFault P s = false → Spec.Allows (tables s) (tableRoot s) a va
  data : dtlbNeeded s = true → a = ⟨false, s.reg2.ctl.memWrite, privIsU s⟩ →
    dtlbVaddr P s = va → lsHit P s = true → dtlbHitFault P s = false →
    Spec.Allows (tables s) (tableRoot s) a va

section

variable {pteAt : BitVec w → BitVec w} {satpPpn : BitVec 44} {a : Want} {va : BitVec w}
  {P : Params} {s : State w k}

/-- A walk that ends without a fault was granted. -/
theorem Ptw.WalkRun.granted {ps : ℕ → Ptw w} {ins : ℕ → Ptw.Input w} {n : ℕ}
    (h : Ptw.WalkRun pteAt va satpPpn a ps ins) (hquiet : ∀ k < n, (ps k).done = false)
    (hdone : (ps n).done = true) (hfault : (ps n).fault = false) :
    Granted pteAt (satpPpn.setWidth 20) a va := by
  obtain ⟨m, hrep, hquiet'⟩ := h.reports
  obtain rfl : m = n := by
    rcases Nat.lt_trichotomy m n with hlt | heq | hlt
    · exact absurd ((hquiet m hlt).symm.trans hrep.done) Bool.false_ne_true
    · exact heq
    · exact absurd ((hquiet' n hlt).symm.trans hdone) Bool.false_ne_true
  have hany := hrep.fault
  rw [hfault, hrep.leaf hfault, Option.any_some] at hany
  exact ⟨_, hrep.leaf hfault, by simpa using hany.symm⟩

/-- Whatever the tables grant, a walk lets through. -/
theorem PassesOnlyAllowed.regular (h : PassesOnlyAllowed P s a va)
    (hgranted : Granted (tables s) (tableRoot s) a va) : Regular (tables s) (tableRoot s) va := by
  have hrun : Ptw.WalkRun (tables s) va s.csr.satpPpnVal a
      (Ptw.promptRun (tables s) va s.csr.satpPpnVal a)
      (fun n ↦ Ptw.promptInput (tables s) va s.csr.satpPpnVal a
        (Ptw.promptRun (tables s) va s.csr.satpPpnVal a n)) :=
    { idle := rfl, ready := rfl, vaddr := rfl, satpPpn := rfl, want := rfl, run := fun _ ↦ rfl
      served := fun _ _ _ ↦ rfl, answered := fun n _ ↦ ⟨n, le_rfl, rfl⟩ }
  obtain ⟨n, hrep, hquiet⟩ := hrun.reports
  obtain ⟨leaf, hleaf, hgrants⟩ := hgranted
  have hfault := hrep.fault
  rw [show mapping (tables s) (s.csr.satpPpnVal.setWidth 20) (vpnOf va) = some leaf from hleaf,
    Option.any_some, hgrants] at hfault
  exact (Spec.allows_iff.1 (h.walk _ _ n hrun hquiet hrep.done hfault)).2

theorem Granted.of_itlbHit (htlb : s.tlb.Holds (tables s) (tableRoot s))
    (hen : translateEnable s = true) (hhit : itlbHit P s = true) (hfault : itlbHitFault P s = false) :
    Granted (tables s) (tableRoot s) ⟨true, false, privIsU s⟩ (imemReadAddr P s) := by
  refine ⟨_, htlb.of_hit hhit, ?_⟩
  simp only [itlbHitFault, hen, hhit, Bool.true_and, Bool.not_eq_false'] at hfault
  exact hfault

theorem Granted.of_lsHit (htlb : s.tlb.Holds (tables s) (tableRoot s))
    (hneeded : dtlbNeeded s = true) (hhit : lsHit P s = true) (hfault : dtlbHitFault P s = false) :
    Granted (tables s) (tableRoot s) ⟨false, s.reg2.ctl.memWrite, privIsU s⟩ (dtlbVaddr P s) := by
  refine ⟨_, htlb.of_hit hhit, ?_⟩
  simp only [dtlbHitFault, hneeded, hhit, Bool.true_and, Bool.not_eq_false'] at hfault
  exact hfault

theorem PassesOnlyAllowed.of_regular (htlb : s.tlb.Holds (tables s) (tableRoot s))
    (h : Granted (tables s) (tableRoot s) a va → Regular (tables s) (tableRoot s) va) :
    PassesOnlyAllowed P s a va := by
  have hallows : Granted (tables s) (tableRoot s) a va →
      Spec.Allows (tables s) (tableRoot s) a va :=
    fun hgranted ↦ Spec.allows_iff.2 ⟨hgranted, h hgranted⟩
  constructor
  case walk =>
    intro ps ins n hrun hquiet hdone hfault
    exact hallows (hrun.granted hquiet hdone hfault)
  case fetch =>
    rintro hen rfl rfl hhit hfault
    exact hallows (Granted.of_itlbHit htlb hen hhit hfault)
  case data =>
    rintro hneeded rfl rfl hhit hfault
    exact hallows (Granted.of_lsHit htlb hneeded hhit hfault)

end

/-! ## Along a run -/

/-- In every state of a run that lets no wrong entry into the TLB, an access passes only where the
architecture allows it if and only if the tables do not grant it, or its address and the entries
read for it are ones the architecture accepts. -/
theorem passesOnlyAllowed_iff (hw : w = 32 ∨ w = 64) (P : Params) (s₀ : State w k)
    (ins : ℕ → Inputs) (n : ℕ) (h : TablesRespected P s₀ ins n) (a : Want) (va : BitVec w) :
    PassesOnlyAllowed P (run P s₀ ins n) a va ↔
      (Granted (tables (run P s₀ ins n)) (tableRoot (run P s₀ ins n)) a va →
        Regular (tables (run P s₀ ins n)) (tableRoot (run P s₀ ins n)) va) :=
  ⟨fun hpass hgranted ↦ hpass.regular hgranted,
    PassesOnlyAllowed.of_regular (tlbInv_run hw h).1.holds⟩

/-! ### A program under one superpage -/

/-- Turns Sv32 on, enters S-mode and stores to 64; the first entry of the tables is `pte`. -/
def megapageParams (pte : BitVec 8) : Params :=
  { insts := instsOfWords
      [0x800000b7,  -- lui  x1, 0x80000
       0x18009073,  -- csrw satp, x1
       0x00001137,  -- lui  x2, 1
       0x80010113,  -- addi x2, x2, -2048
       0x30011073,  -- csrw mstatus, x2
       0x02000193,  -- addi x3, x0, 0x20
       0x34119073,  -- csrw mepc, x3
       0x30200073,  -- mret
       0x04502023]  -- sw   x5, 64(x0)
    dataInitFile := some [pte] }

/-- The same under Sv39, with a load of `0x8000000000`. -/
def gigapageParams : Params :=
  { insts := instsOfWords
      [0x00100093,  -- addi x1, x0, 1
       0x03f09093,  -- slli x1, x1, 63
       0x18009073,  -- csrw satp, x1
       0x00001137,  -- lui  x2, 1
       0x80010113,  -- addi x2, x2, -2048
       0x30011073,  -- csrw mstatus, x2
       0x02c00193,  -- addi x3, x0, 0x2c
       0x34119073,  -- csrw mepc, x3
       0x00100313,  -- addi x6, x0, 1
       0x02731313,  -- slli x6, x6, 39
       0x30200073,  -- mret
       0x00032283]  -- lw   x5, 0(x6)
    dataInitFile := some [0x0F] }

/-- With a leaf at the top, the walk reads one entry. -/
theorem regular_of_leaf {pteAt : BitVec w → BitVec w} {root : BitVec 20} {va : BitVec w}
    (pte : BitVec w) (hpte : pteAt (entryAddr w root (vpnOf va) (Ptw.topLevel w)) = pte)
    (hleaf : Pte.isLeaf pte = true) :
    Regular pteAt root va ↔ Spec.canonical va = true ∧ Spec.wellFormed pte = true := by
  rw [Regular, walkPath, hpte]
  unfold path
  simp [hleaf]

/-- Through an ordinary megapage the store passes, and rightly. -/
theorem passes_megapage :
    lsHit (megapageParams 0x0F) (run (megapageParams 0x0F) default (fun _ ↦ {}) 17 : State 32 0) =
        true ∧
      PassesOnlyAllowed (megapageParams 0x0F)
        (run (megapageParams 0x0F) default (fun _ ↦ {}) 17 : State 32 0) ⟨false, true, false⟩ 64 :=
  ⟨by decide +kernel,
    (passesOnlyAllowed_iff (.inl rfl) (megapageParams 0x0F) default (fun _ ↦ {}) 17
      { kept := fun m hm ↦ TablesKept.of_quiet (by revert m; decide +kernel)
        inMemory := by decide +kernel
        reply := fun h ↦ by rcases h with h | h <;> exact absurd rfl h
        live := by decide +kernel } _ _).2
      fun _ ↦ (regular_of_leaf 0x0F#32 (by decide +kernel) rfl).2 ⟨rfl, rfl⟩⟩

/-- A store passes through a megapage that is writable but not readable, and a load of an address
that is not sign-extended through an ordinary gigapage. -/
theorem passes_malformed :
    (¬ ∀ (P : Params) (s₀ : State 32 0) (ins : ℕ → Inputs) (n : ℕ), TablesRespected P s₀ ins n →
      ∀ a va, PassesOnlyAllowed P (run P s₀ ins n) a va) ∧
    ¬ ∀ (P : Params) (s₀ : State 64 0) (ins : ℕ → Inputs) (n : ℕ), TablesRespected P s₀ ins n →
      ∀ a va, PassesOnlyAllowed P (run P s₀ ins n) a va := by
  constructor
  · intro hall
    have hpass := hall (megapageParams 0x0D) default (fun _ ↦ {}) 17
      { kept := fun m hm ↦ TablesKept.of_quiet (by revert m; decide +kernel)
        inMemory := by decide +kernel
        reply := fun h ↦ by rcases h with h | h <;> exact absurd rfl h
        live := by decide +kernel } ⟨false, true, false⟩ 64
    have hallows := hpass.data (by decide +kernel) (by decide +kernel) (by decide +kernel)
      (by decide +kernel) (by decide +kernel)
    have hpte := (regular_of_leaf 0x0D#32 (by decide +kernel) rfl).1
      (Spec.allows_iff.1 hallows).2
    exact absurd hpte.2 (by decide)
  · intro hall
    have hpass := hall gigapageParams default (fun _ ↦ {}) 20
      { kept := fun m hm ↦ TablesKept.of_quiet (by revert m; decide +kernel)
        inMemory := by decide +kernel
        reply := fun h ↦ by rcases h with h | h <;> exact absurd rfl h
        live := by decide +kernel } ⟨false, false, false⟩ 0x8000000000
    have hallows := hpass.data (by decide +kernel) (by decide +kernel) (by decide +kernel)
      (by decide +kernel) (by decide +kernel)
    exact absurd (Spec.allows_iff.1 hallows).2.1 (by decide)

end RvPipeline
