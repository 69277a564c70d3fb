import RvPipeline.Core.Invariants
import RvPipeline.Lib.Trace

/-!
# Walking page tables

What the tables say about a virtual page, read in one go, and the walker as a machine that finds
it out one entry at a time: the walk that is still to come gives the same answer after every
step.
-/

namespace RvPipeline

variable {w : ℕ}

/-! ## The tables -/

/-- What a page maps to: the physical page and the permissions of the entry. -/
structure Leaf where
  ppn : BitVec 20
  perm : Perm
  deriving DecidableEq

/-- The kinds of access a walk is for. -/
structure Want where
  isFetch : Bool
  isStore : Bool
  privIsU : Bool
  deriving DecidableEq

def Perm.grants (p : Perm) (a : Want) : Bool :=
  (if a.isFetch then p.x else if a.isStore then p.w else p.r) &&
    (if a.privIsU then p.u else !p.u)

namespace Pte

variable (pte : BitVec w)

def valid : Bool := pte.getLsbD pteVBit

def isLeaf : Bool := pte.getLsbD pteRBit || pte.getLsbD pteWBit || pte.getLsbD pteXBit

def ppn : BitVec 20 := pte.extractLsb' 10 20

def perm : Perm :=
  { r := pte.getLsbD pteRBit, w := pte.getLsbD pteWBit
    x := pte.getLsbD pteXBit, u := pte.getLsbD pteUBit }

/-- A superpage has to be aligned to its size. -/
def aligned (level : ℕ) : Bool := pte.extractLsb' 10 (Ptw.vpnBits w * level) == 0

/-- The page inside a superpage comes from the address. -/
def leaf (vpn : BitVec 27) (level : ℕ) : Leaf :=
  let low := Ptw.vpnBits w * level
  { ppn := (ppn pte >>> low) <<< low ||| (vpn.setWidth low).setWidth 20, perm := perm pte }

end Pte

/-- The address of the entry for `vpn` in a table of this level. -/
def entryAddr (w : ℕ) (base : BitVec 20) (vpn : BitVec 27) (level : ℕ) : BitVec w :=
  let field := (vpn.extractLsb' (Ptw.vpnBits w * level) (Ptw.vpnBits w)).setWidth 32
  ((base ++ 0#12 : BitVec 32) ||| (field <<< Ptw.pteShift w)).setWidth w

/-- The mapping of `vpn`, from an entry of this level on. -/
def resolve (pteAt : BitVec w → BitVec w) (vpn : BitVec 27) (level : ℕ) (pte : BitVec w) :
    Option Leaf :=
  if !Pte.valid pte then none
  else if Pte.isLeaf pte then
    if Pte.aligned pte level then some (Pte.leaf pte vpn level) else none
  else
    match level with
    | 0 => none
    | l + 1 => resolve pteAt vpn l (pteAt (entryAddr w (Pte.ppn pte) vpn l))

/-- The mapping of `vpn` in the tables at `root`. -/
def mapping (pteAt : BitVec w → BitVec w) (root : BitVec 20) (vpn : BitVec 27) : Option Leaf :=
  resolve pteAt vpn (Ptw.topLevel w) (pteAt (entryAddr w root vpn (Ptw.topLevel w)))

/-- Every valid entry is what the tables say about the page it is tagged with. -/
def Tlb.Holds (pteAt : BitVec w → BitVec w) (root : BitVec 20) (t : Tlb) : Prop :=
  ∀ n, (t n).valid = true → mapping pteAt root (t n).tag = some ⟨(t n).ppn, (t n).perm⟩

theorem Tlb.Holds.of_hit {pteAt : BitVec w → BitVec w} {root : BitVec 20} {t : Tlb}
    (h : t.Holds pteAt root) {va : BitVec w} (hhit : t.hit va = true) :
    mapping pteAt root (vpnOf va) = some ⟨(t.entry va).ppn, (t.entry va).perm⟩ := by
  simp only [Tlb.hit, Bool.and_eq_true, beq_iff_eq] at hhit
  rw [← hhit.2]
  exact h _ hhit.1

/-! ### The entries in use -/

/-- The addresses read after an entry of this level. -/
def readsFrom (pteAt : BitVec w → BitVec w) (vpn : BitVec 27) (level : ℕ) (pte : BitVec w) :
    List (BitVec w) :=
  if Pte.valid pte && !Pte.isLeaf pte then
    match level with
    | 0 => []
    | l + 1 =>
      let addr := entryAddr w (Pte.ppn pte) vpn l
      addr :: readsFrom pteAt vpn l (pteAt addr)
  else []

/-- The addresses read for `vpn` from the root on. -/
def reads (pteAt : BitVec w → BitVec w) (root : BitVec 20) (vpn : BitVec 27) : List (BitVec w) :=
  let addr := entryAddr w root vpn (Ptw.topLevel w)
  addr :: readsFrom pteAt vpn (Ptw.topLevel w) (pteAt addr)

section

variable {pteAt pteAt' : BitVec w → BitVec w} {vpn : BitVec 27} {root : BitVec 20}

theorem resolve_congr {level : ℕ} {pte : BitVec w}
    (h : ∀ a ∈ readsFrom pteAt vpn level pte, pteAt' a = pteAt a) :
    resolve pteAt' vpn level pte = resolve pteAt vpn level pte := by
  induction level generalizing pte with
  | zero => rfl
  | succ l ih =>
    cases hnext : (Pte.valid pte && !Pte.isLeaf pte) with
    | false =>
      rcases Bool.and_eq_false_iff.1 hnext with hvalid | hleaf
      · unfold resolve
        simp [hvalid]
      · unfold resolve
        rw [Bool.not_eq_false'] at hleaf
        simp [hleaf]
    | true =>
      unfold readsFrom at h
      rw [if_pos hnext] at h
      simp only [Bool.and_eq_true, Bool.not_eq_true'] at hnext
      unfold resolve
      simp only [hnext.1, hnext.2, Bool.not_true, Bool.false_eq_true, if_false]
      rw [h _ List.mem_cons_self]
      exact ih fun a ha ↦ h a (List.mem_cons_of_mem _ ha)

theorem readsFrom_congr {level : ℕ} {pte : BitVec w}
    (h : ∀ a ∈ readsFrom pteAt vpn level pte, pteAt' a = pteAt a) :
    readsFrom pteAt' vpn level pte = readsFrom pteAt vpn level pte := by
  induction level generalizing pte with
  | zero => rfl
  | succ l ih =>
    unfold readsFrom at h ⊢
    cases hnext : (Pte.valid pte && !Pte.isLeaf pte) with
    | false => rfl
    | true =>
      simp only [hnext, if_true] at h ⊢
      rw [h _ List.mem_cons_self, ih fun a ha ↦ h a (List.mem_cons_of_mem _ ha)]

theorem reads_congr (h : ∀ a ∈ reads pteAt root vpn, pteAt' a = pteAt a) :
    reads pteAt' root vpn = reads pteAt root vpn := by
  unfold reads at h ⊢
  simp only at h ⊢
  rw [h _ List.mem_cons_self, readsFrom_congr fun a ha ↦ h a (List.mem_cons_of_mem _ ha)]

theorem mapping_congr (h : ∀ a ∈ reads pteAt root vpn, pteAt' a = pteAt a) :
    mapping pteAt' root vpn = mapping pteAt root vpn := by
  unfold mapping
  rw [h _ List.mem_cons_self]
  exact resolve_congr fun a ha ↦ h a (List.mem_cons_of_mem _ ha)

theorem Tlb.Holds.congr {t : Tlb} (h : t.Holds pteAt root)
    (hkept : ∀ vpn, ∀ a ∈ reads pteAt root vpn, pteAt' a = pteAt a) : t.Holds pteAt' root := by
  intro n hn
  rw [mapping_congr (hkept _)]
  exact h n hn

end

/-! ## The walker -/

namespace Ptw

variable (pteAt : BitVec w → BitVec w) (p : Ptw w)

def want : Want := { isFetch := p.isFetch, isStore := p.isStore, privIsU := p.privIsU }

/-- The table that a read of this level goes to. -/
def base (level : ℕ) : BitVec 20 :=
  if level = topLevel w then p.satpPpn.setWidth 20 else p.ptePpn20

/-- What the rest of the walk will find. -/
def remaining : Option Leaf :=
  match p.state with
  | .idle => none
  | .wait level => resolve pteAt p.vpn level (pteAt (entryAddr w (p.base level) p.vpn level))
  | .decode level => resolve pteAt p.vpn level p.pte

/-- The level never exceeds the root's. -/
def LevelOk : Prop :=
  match p.state with
  | .idle => True
  | .wait level => level ≤ topLevel w
  | .decode level => level ≤ topLevel w

theorem mAddr_wait {level : ℕ} (h : p.state = .wait level) :
    p.mAddr = entryAddr w (p.base level) p.vpn level := by
  simp only [mAddr, h]
  rfl

variable {pteAt p}

/-- How a walk reports what it has found. -/
structure Reports (p : Ptw w) (a : Want) (found : Option Leaf) : Prop where
  idle : p.state = .idle
  done : p.done = true
  not_busy : p.busy = false
  fault : p.fault = !found.any fun leaf ↦ leaf.perm.grants a
  leaf : p.fault = false → found = some ⟨p.resultPpn, p.resultPerm⟩

theorem reports_failWalk {a : Want} {found : Option Leaf}
    (h : (found.any fun leaf ↦ leaf.perm.grants a) = false) :
    p.failWalk.Reports a found :=
  { idle := rfl, done := rfl, not_busy := rfl, fault := by rw [h]; rfl
    leaf := fun hf ↦ by simp [failWalk] at hf }

theorem reports_succeed {a : Want} {level : ℕ} (h : (Pte.perm p.pte).grants a = true) :
    (p.succeed level).Reports a (some (Pte.leaf p.pte p.vpn level)) :=
  { idle := rfl, done := rfl, not_busy := rfl
    fault := by
      have hgrants : (Pte.leaf p.pte p.vpn level).perm.grants a = true := h
      rw [Option.any_some, hgrants]
      rfl
    leaf := fun _ ↦ rfl }

theorem misaligned_eq (level : ℕ) : p.misaligned level = !Pte.aligned p.pte level := rfl

theorem permitted_eq : p.permitted = (Pte.perm p.pte).grants p.want := rfl

/-- A decode state reports, or goes on to the next table with the same walk before it. -/
theorem decodeStep_cases (pteAt : BitVec w → BitVec w) {level : ℕ} (hstate : p.state = .decode level)
    (hlevel : level ≤ topLevel w) :
    (p.decodeStep level).Reports p.want (p.remaining pteAt) ∨
      ∃ l, level = l + 1 ∧ (Pte.valid p.pte && !Pte.isLeaf p.pte) = true ∧
        p.decodeStep level = { p with state := .wait l, done := false } ∧
        (p.decodeStep level).remaining pteAt = p.remaining pteAt := by
  have hrem : p.remaining pteAt = resolve pteAt p.vpn level p.pte := by
    simp only [remaining, hstate]
  rw [hrem]
  by_cases hvalid : Pte.valid p.pte = true
  case neg =>
    have hstep : p.decodeStep level = p.failWalk := by
      have hv : p.pteValid = false := Bool.eq_false_iff.2 hvalid
      exact if_pos (by rw [hv]; rfl)
    have hnone : resolve pteAt p.vpn level p.pte = none := by
      unfold resolve
      exact if_pos (by simpa using hvalid)
    rw [hstep, hnone]
    exact .inl (reports_failWalk rfl)
  have hv : ¬ (!p.pteValid) = true := by
    have hv : p.pteValid = true := hvalid
    simp [hv]
  by_cases hleaf : Pte.isLeaf p.pte = true
  case pos =>
    have hres : resolve pteAt p.vpn level p.pte =
        if Pte.aligned p.pte level then some (Pte.leaf p.pte p.vpn level) else none := by
      unfold resolve
      rw [if_neg (by simpa using hvalid), if_pos hleaf]
    have hstep : p.decodeStep level = if p.misaligned level then p.failWalk
        else if p.permitted then p.succeed level else p.failWalk := by
      unfold decodeStep
      rw [if_neg hv, if_pos (show p.isLeaf = true from hleaf)]
    rw [hstep, hres, misaligned_eq, permitted_eq]
    cases haligned : Pte.aligned p.pte level
    · exact .inl (reports_failWalk rfl)
    cases hgrants : (Pte.perm p.pte).grants p.want
    · exact .inl (reports_failWalk hgrants)
    · exact .inl (reports_succeed hgrants)
  have hl : ¬ p.isLeaf = true := hleaf
  cases level with
  | zero =>
    have hstep : p.decodeStep 0 = p.failWalk := by
      unfold decodeStep
      rw [if_neg hv, if_neg hl, if_pos rfl]
    have hnone : resolve pteAt p.vpn 0 p.pte = none := by
      unfold resolve
      rw [if_neg (by simpa using hvalid), if_neg hleaf]
    rw [hstep, hnone]
    exact .inl (reports_failWalk rfl)
  | succ l =>
    have hstep : p.decodeStep (l + 1) = { p with state := .wait l, done := false } := by
      unfold decodeStep
      rw [if_neg hv, if_neg hl, if_neg (Nat.succ_ne_zero l)]
      rfl
    refine .inr ⟨l, rfl, by simp [hvalid, hleaf], hstep, ?_⟩
    rw [hstep]
    have hbase : ({ p with state := .wait l, done := false } : Ptw w).base l = Pte.ppn p.pte :=
      if_neg (by omega)
    simp only [remaining, hbase]
    conv_rhs => unfold resolve
    rw [if_neg (by simpa using hvalid), if_neg hleaf]

/-! ## Whole walks -/

/-- What the walker sees in a cycle. -/
structure Input (w : ℕ) where
  start : Bool
  vaddr : BitVec w
  satpPpn : BitVec 44
  isFetch : Bool
  isStore : Bool
  privIsU : Bool
  mDataI : BitVec w
  mAck : Bool

def next (p : Ptw w) (i : Input w) : Ptw w :=
  p.step i.start i.vaddr i.satpPpn i.isFetch i.isStore i.privIsU i.mDataI i.mAck

/-- The bus answers the walker with the entry it asks for. -/
def Served (pteAt : BitVec w → BitVec w) (p : Ptw w) (i : Input w) : Prop :=
  p.mCyc = true → i.mAck = true → i.mDataI = pteAt p.mAddr

/-- A walk for `vpn` is under way, and will find `found`. -/
structure Walking (pteAt : BitVec w → BitVec w) (p : Ptw w) (vpn : BitVec 27) (a : Want)
    (found : Option Leaf) : Prop where
  active : p.state ≠ .idle
  level : p.LevelOk
  busy : p.busy = true
  not_done : p.done = false
  vpn : p.vpn = vpn
  want : p.want = a
  remaining : p.remaining pteAt = found

/-- Steps until the walk is over, the waiting apart. -/
def rank : ℕ :=
  match p.state with
  | .idle => 0
  | .decode level => 2 * level + 1
  | .wait level => 2 * level + 2

variable {i : Input w} {vpn : BitVec 27} {a : Want} {found : Option Leaf}

theorem walking_start (hidle : p.state = .idle) (hstart : (i.start && !p.busy && !p.done) = true) :
    (p.next i).Walking pteAt (vpnOf i.vaddr)
      { isFetch := i.isFetch, isStore := i.isStore, privIsU := i.privIsU }
      (mapping pteAt (i.satpPpn.setWidth 20) (vpnOf i.vaddr)) := by
  have hnext : p.next i = { p with
        vpn := vpnOf i.vaddr, satpPpn := i.satpPpn, isFetch := i.isFetch, isStore := i.isStore
        privIsU := i.privIsU, busy := true, done := false, state := .wait (topLevel w) } := by
    simp only [next, step, hidle]
    exact if_pos hstart
  rw [hnext]
  exact
    { active := by simp
      level := le_rfl
      busy := rfl
      not_done := rfl
      vpn := rfl
      want := rfl
      remaining := by
        simp only [remaining, base, if_true]
        rfl }

/-- One cycle of a walk: it waits, goes on, or reports. -/
theorem Walking.step (h : p.Walking pteAt vpn a found) (hserved : p.Served pteAt i) :
    ((p.next i).Reports a found ∧ (p.next i).vpn = vpn) ∨
      (p.next i).Walking pteAt vpn a found ∧ (p.next i).rank ≤ p.rank ∧
        (p.mCyc = false ∨ i.mAck = true → (p.next i).rank < p.rank) := by
  have hactive := h.active
  have hlevel := h.level
  have hrem := h.remaining
  cases hstate : p.state with
  | idle => exact absurd hstate hactive
  | wait level =>
    simp only [LevelOk, hstate] at hlevel
    have hcyc : p.mCyc = true := by simp only [mCyc, hstate]
    refine .inr ?_
    cases hack : i.mAck with
    | false =>
      have hnext : p.next i = { p with done := false } := by
        simp only [next, Ptw.step, hstate, hack, Bool.false_eq_true, if_false]
      rw [hnext]
      refine ⟨{ h with not_done := rfl }, le_rfl, ?_⟩
      rintro (hfalse | hfalse)
      · exact absurd (hfalse.symm.trans hcyc) Bool.false_ne_true
      · exact absurd hfalse Bool.false_ne_true
    | true =>
      have hdata := hserved hcyc hack
      have hnext : p.next i = { p with pte := i.mDataI, state := .decode level, done := false } := by
        simp only [next, Ptw.step, hstate, hack, if_true]
      rw [hnext]
      refine ⟨{ h with active := by simp, level := hlevel, not_done := rfl, remaining := ?_ },
        ?_, fun _ ↦ ?_⟩
      · rw [← hrem]
        simp only [Ptw.remaining, hstate, hdata, p.mAddr_wait hstate]
      · simp only [rank, hstate]; omega
      · simp only [rank, hstate]; omega
  | decode level =>
    simp only [LevelOk, hstate] at hlevel
    have hnext : p.next i = p.decodeStep level := by simp only [next, Ptw.step, hstate]
    have hvpn : (p.decodeStep level).vpn = vpn := by
      rw [← h.vpn]
      simp only [decodeStep, failWalk, succeed]
      split_ifs <;> rfl
    rw [hnext]
    rcases decodeStep_cases pteAt hstate hlevel with hrep | ⟨l, rfl, -, hgo, hkeep⟩
    · exact .inl ⟨h.want ▸ hrem ▸ hrep, hvpn⟩
    · rw [hrem] at hkeep
      rw [hgo] at hkeep ⊢
      refine .inr ⟨{ h with active := by simp, level := by simp only [LevelOk]; omega
                            not_done := rfl, remaining := hkeep }, ?_, fun _ ↦ ?_⟩
      · simp only [rank, hstate]; omega
      · simp only [rank, hstate]; omega

/-- The reads a walk has still to make. -/
def pending (pteAt : BitVec w → BitVec w) (p : Ptw w) : List (BitVec w) :=
  match p.state with
  | .idle => []
  | .wait level => p.mAddr :: readsFrom pteAt p.vpn level (pteAt p.mAddr)
  | .decode level => readsFrom pteAt p.vpn level p.pte

theorem pending_next (h : p.Walking pteAt vpn a found) (hserved : p.Served pteAt i) :
    (p.next i).pending pteAt ⊆ p.pending pteAt := by
  cases hstate : p.state with
  | idle => exact absurd hstate h.active
  | wait level =>
    have hcyc : p.mCyc = true := by simp only [mCyc, hstate]
    cases hack : i.mAck with
    | false =>
      have hnext : p.next i = { p with done := false } := by
        simp only [next, Ptw.step, hstate, hack, Bool.false_eq_true, if_false]
      rw [hnext]
      exact fun _ h ↦ h
    | true =>
      have hnext : p.next i = { p with pte := i.mDataI, state := .decode level, done := false } := by
        simp only [next, Ptw.step, hstate, hack, if_true]
      rw [hnext]
      simp only [pending, hstate, hserved hcyc hack]
      exact List.subset_cons_self _ _
  | decode level =>
    have hlevel := h.level
    simp only [LevelOk, hstate] at hlevel
    have hnext : p.next i = p.decodeStep level := by simp only [next, Ptw.step, hstate]
    rw [hnext]
    rcases decodeStep_cases pteAt hstate hlevel with hrep | ⟨l, rfl, hnext', hgo, -⟩
    · simp only [pending, hrep.idle]
      exact List.nil_subset _
    · have haddr : ({ p with state := .wait l, done := false } : Ptw w).mAddr =
          entryAddr w (Pte.ppn p.pte) p.vpn l := by
        rw [mAddr_wait _ rfl]
        exact congrArg (entryAddr w · p.vpn l) (if_neg (by omega))
      rw [hgo]
      simp only [pending, hstate, haddr]
      conv_rhs => unfold readsFrom
      rw [if_pos hnext']
      exact List.Subset.refl _

section

variable {pteAt' : BitVec w → BitVec w}

theorem pending_congr (h : ∀ a ∈ p.pending pteAt, pteAt' a = pteAt a) :
    p.pending pteAt' = p.pending pteAt := by
  unfold pending at h ⊢
  cases hstate : p.state with
  | idle => rfl
  | wait level =>
    simp only [hstate] at h ⊢
    rw [h _ List.mem_cons_self, readsFrom_congr fun a ha ↦ h a (List.mem_cons_of_mem _ ha)]
  | decode level =>
    simp only [hstate] at h ⊢
    exact readsFrom_congr h

theorem remaining_congr (h : ∀ a ∈ p.pending pteAt, pteAt' a = pteAt a) :
    p.remaining pteAt' = p.remaining pteAt := by
  unfold pending at h
  unfold remaining
  cases hstate : p.state with
  | idle => rfl
  | wait level =>
    simp only [hstate, p.mAddr_wait hstate] at h ⊢
    rw [h _ List.mem_cons_self]
    exact resolve_congr fun a ha ↦ h a (List.mem_cons_of_mem _ ha)
  | decode level =>
    simp only [hstate] at h ⊢
    exact resolve_congr h

end

/-- Every walk ends if every read of the tables is answered some time. -/
theorem Walking.reports {ps : ℕ → Ptw w} {ins : ℕ → Input w}
    (hrun : ∀ n, ps (n + 1) = (ps n).next (ins n)) (hserved : ∀ n, (ps n).Served pteAt (ins n))
    (hfair : ∀ n, (ps n).mCyc = true → ∃ m, n ≤ m ∧ (ins m).mAck = true) {n : ℕ}
    (h : (ps n).Walking pteAt vpn a found) :
    ∃ m, n < m ∧ (ps m).Reports a found ∧ (ps m).vpn = vpn ∧
      ∀ k, n ≤ k → k < m → (ps k).done = false := by
  have htick : ∀ n, (ps n).Walking pteAt vpn a found →
      ∃ m, n ≤ m ∧ ((ps m).mCyc = false ∨ (ins m).mAck = true) := by
    intro n _
    cases hcyc : (ps n).mCyc with
    | false => exact ⟨n, le_rfl, .inl hcyc⟩
    | true =>
      obtain ⟨m, hm, hack⟩ := hfair n hcyc
      exact ⟨m, hm, .inr hack⟩
  obtain ⟨m, hnm, ⟨hrep, hvpn⟩, hkeep⟩ := exists_of_ticks
    (p := fun m ↦ (ps m).Reports a found ∧ (ps m).vpn = vpn) (fun m ↦ (ps m).rank) htick
    (fun n hn ↦ hrun n ▸ hn.step (hserved n)) h
  exact ⟨m, hnm, hrep, hvpn, fun k hk hk' ↦ (hkeep k hk hk').not_done⟩

end Ptw

end RvPipeline
