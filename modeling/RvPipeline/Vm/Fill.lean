import RvPipeline.Vm.Walk

/-!
# The TLB along a run

The walker is shared by fetch and by loads and stores, and what it finds is filed under the
address that is on the wires when it has finished.  A walk that no redirect has hit finds there
the address it was started with, since its owner has been held all the time.  For a walk that was
abandoned nothing holds the address, and this is the only way a wrong entry gets in.
-/

namespace RvPipeline

variable {w k : ℕ} {P : Params} {s : State w k} {i : Inputs}

/-! ## Tables and walks of the pipeline -/

/-- The words of the memory, as a walk reads them. -/
def tables (s : State w k) : BitVec w → BitVec w := s.ram.dataMemory.rawWord

def tableRoot (s : State w k) : BitVec 20 := s.csr.satpPpnVal.setWidth 20

/-- `ptw_fill_vaddr`. -/
def ptwFillVaddr (P : Params) (s : State w k) : BitVec w :=
  if s.ptwServicingD then dtlbVaddr P s else imemReadAddr P s

def ptwInput (P : Params) (s : State w k) (i : Inputs) : Ptw.Input w :=
  { start := ptwStart P s i
    vaddr := if ptwReqD P s i then dtlbVaddr P s else imemReadAddr P s
    satpPpn := s.csr.satpPpnVal
    isFetch := ptwReqI P s i
    isStore := ptwReqD P s i && s.reg2.ctl.memWrite
    privIsU := privIsU s
    mDataI := readData P s
    mAck := lsuAck P s }

theorem step_ptw : (step P s i).ptw = s.ptw.next (ptwInput P s i) := rfl

theorem step_tlb : (step P s i).tlb =
    s.tlb.step (sfenceReal s && !reg2Hold P s i) (ptwFillValid s) (ptwFillVaddr P s)
      s.ptw.resultPpn s.ptw.resultPerm := rfl

/-- A walk is under way, or its result is on the wires. -/
def WalkActive (s : State w k) : Prop := s.ptw.busy = true ∨ s.ptw.done = true

theorem Ptw.next_vpn_of_active {p : Ptw w} {q : Ptw.Input w} (h : p.state ≠ .idle) :
    (p.next q).vpn = p.vpn := by
  unfold Ptw.next Ptw.step
  cases hstate : p.state with
  | idle => exact absurd hstate h
  | wait level =>
    dsimp only
    split_ifs <;> rfl
  | decode level =>
    simp only [Ptw.decodeStep, Ptw.failWalk, Ptw.succeed]
    split_ifs <;> rfl

/-! ## The owner of a walk is held -/

theorem Tlb.hit_step_of_miss {t : Tlb} {va va' : BitVec w} {flushAll : Bool} {ppn : BitVec 20}
    {perm : Perm} (h : t.hit va = false) : (t.step flushAll false va' ppn perm).hit va = false := by
  cases flushAll with
  | true => simp [Tlb.step, Tlb.hit, Tlb.entry, Tlb.invalidate]
  | false => exact h

theorem privMode_of_not_branchTaken (hbt : branchTaken P s i = false) :
    (step P s i).csr.privMode = s.csr.privMode := by
  have hint := interruptTaken_of_not_branchTaken hbt
  simp only [branchTaken, otherRedirectTaken, Bool.or_eq_false_iff] at hbt
  simp [step, Csr.next, Csr.nextWith, Csr.nextPrivMode, csrIn, hint, hbt.1.1.1.2, hbt.1.1.2,
    hbt.1.2]

/-- While fetch waits for a walk, it presents the same address. -/
theorem fetch_hold (hen : translateEnable s = true) (hmiss : itlbHit P s = false)
    (hsquash : s.redirectSquashExtend = false) (hdone : s.ptw.done = false)
    (hbt : branchTaken P s i = false) :
    imemReadAddr P (step P s i) = imemReadAddr P s ∧ itlbHit P (step P s i) = false ∧
      (step P s i).redirectSquashExtend = false := by
  have hitlb : itlbMiss P s (branchTaken P s i) = true := by
    simp [itlbMiss, hen, hmiss, hsquash, hbt, ptwDoneI, hdone]
  have hstall : pcStall P s i = true := by simp [pcStall, pcStallOf, hitlb]
  have haddr : imemReadAddr P (step P s i) = imemReadAddr P s := by
    unfold imemReadAddr
    cases P.pipelineProfile <;> simp [step, hstall, pcStep, Reg1a.step]
  have hfill : ptwFillValid s = false := by simp [ptwFillValid, hdone]
  refine ⟨haddr, ?_, ?_⟩
  · rw [itlbHit, haddr, step_tlb, hfill]
    exact Tlb.hit_step_of_miss hmiss
  · simp [step, hbt]

theorem dtlbVaddr_hold (hneeded : dtlbNeeded s = true) (hmiss : lsHit P s = false)
    (hdone : s.ptw.done = false) (hbt : branchTaken P s i = false) :
    dtlbVaddr P (step P s i) = dtlbVaddr P s := by
  have hmissR : (step P s i).dtlbMissR = true :=
    (WalkInv.hold_data hneeded hmiss hdone hbt).2.1
  have hva : (step P s i).dtlbVaddrR = dtlbVaddr P s := by
    cases hR : s.dtlbMissR <;> simp [step, dtlbVaddr, hneeded, hR]
  rw [dtlbVaddr, if_pos hmissR, hva]

/-- A walk that was not abandoned still has its owner waiting, at the page it was started for. -/
structure OwnerInv (P : Params) (s : State w k) : Prop where
  abandoned : s.ptwAbandoned = true → WalkActive s
  fetch : WalkActive s → s.ptwServicingD = false → s.ptwAbandoned = false →
    translateEnable s = true ∧ itlbHit P s = false ∧ s.redirectSquashExtend = false ∧
      vpnOf (imemReadAddr P s) = s.ptw.vpn
  data : WalkActive s → s.ptwServicingD = true → s.ptwAbandoned = false →
    vpnOf (dtlbVaddr P s) = s.ptw.vpn

theorem OwnerInv.init (s₀ : State w k) : OwnerInv P (reset P s₀) := by
  refine ⟨?_, ?_, ?_⟩ <;> simp [reset, WalkActive, Ptw.reset]

theorem translateEnable_hold (hsatp : (step P s i).csr.satp = s.csr.satp)
    (hbt : branchTaken P s i = false) : translateEnable (step P s i) = translateEnable s := by
  simp only [translateEnable, Csr.satpModeVal, hsatp, privMode_of_not_branchTaken hbt]

theorem WalkActive.of_step (h : WalkActive (step P s i)) (hsane : s.ptw.Sane) :
    s.ptw.busy = true ∨ ptwStart P s i = true ∧ s.ptw.busy = false ∧ s.ptw.done = false := by
  cases hbusy : s.ptw.busy with
  | true => exact .inl rfl
  | false =>
    obtain ⟨hdone', hstart⟩ := ptwNext_of_not_busy (P := P) (i := i) hsane hbusy
    rcases h with hb | hd
    · exact .inr ⟨(hstart hb).1, rfl, (hstart hb).2⟩
    · exact absurd (hdone'.symm.trans hd) Bool.false_ne_true

/-- An edge on which a walk starts. -/
theorem step_ptw_start (hsane : s.ptw.Sane) (hstart : ptwStart P s i = true)
    (hbusy : s.ptw.busy = false) (hdone : s.ptw.done = false) :
    (step P s i).ptw.vpn = vpnOf (if ptwReqD P s i then dtlbVaddr P s else imemReadAddr P s) ∧
      (step P s i).ptwServicingD = ptwReqD P s i ∧ branchTaken P s i = false := by
  have hidle : s.ptw.state = .idle := by
    have := hsane.busy_iff
    rw [hbusy] at this
    simpa using this
  refine ⟨?_, ?_, ?_⟩
  · simp [step_ptw, Ptw.next, Ptw.step, hidle, ptwInput, hstart, hbusy, hdone]
  · simp [step, hstart, hbusy]
  · simp only [ptwStart, ptwReqD, ptwReqI, dtlbMiss, itlbMiss, Bool.and_eq_true, Bool.or_eq_true,
      Bool.not_eq_true'] at hstart
    rcases hstart.1.1 with h | h
    · exact h.2
    · exact h.1.1.2

theorem Ptw.active_of_busy {p : Ptw w} {q : Ptw.Input w} (h : p.Sane) (hbusy : p.busy = true) :
    (p.next q).busy = true ∨ (p.next q).done = true := by
  have hactive := h.busy_iff.1 hbusy
  unfold Ptw.next Ptw.step
  cases hstate : p.state with
  | idle => exact absurd hstate hactive
  | wait level =>
    dsimp only
    split_ifs <;> exact .inl hbusy
  | decode level =>
    simp only [Ptw.decodeStep, Ptw.failWalk, Ptw.succeed]
    split_ifs <;> simp [hbusy]

/-- A walk that goes on without having been abandoned. -/
theorem step_of_busy (hsane : s.ptw.Sane) (hbusy : s.ptw.busy = true)
    (hab : (step P s i).ptwAbandoned = false) :
    (step P s i).ptwServicingD = s.ptwServicingD ∧ s.ptwAbandoned = false ∧
      branchTaken P s i = false ∧ (step P s i).ptw.vpn = s.ptw.vpn := by
  have hdone := hsane.not_done hbusy
  have hbt : branchTaken P s i = false ∧ s.ptwAbandoned = false := by
    simpa [step, hbusy, hdone] using hab
  have hvpn : (step P s i).ptw.vpn = s.ptw.vpn := by
    rw [step_ptw]
    exact Ptw.next_vpn_of_active (hsane.busy_iff.1 hbusy)
  exact ⟨by simp [step, hbusy], hbt.2, hbt.1, hvpn⟩

theorem OwnerInv.step (h : OwnerInv P s) (hwalk : WalkInv P s)
    (hsatp : WalkActive (step P s i) → (step P s i).csr.satp = s.csr.satp) :
    OwnerInv P (step P s i) := by
  refine ⟨fun hab ↦ ?_, fun hact hserv hab ↦ ?_, fun hact hserv hab ↦ ?_⟩
  · have hbusy : s.ptw.busy = true := by
      cases hbusy : s.ptw.busy with
      | true => rfl
      | false =>
        have hkept : s.ptw.done = false ∧ s.ptwAbandoned = true := by
          simpa [RvPipeline.step, hbusy] using hab
        rcases h.abandoned hkept.2 with hb | hd
        · exact absurd (hbusy.symm.trans hb) Bool.false_ne_true
        · exact absurd (hkept.1.symm.trans hd) Bool.false_ne_true
    unfold WalkActive
    rw [step_ptw]
    exact Ptw.active_of_busy hwalk.sane hbusy
  · rcases hact.of_step hwalk.sane with hbusy | ⟨hstart, hbusy, hdone⟩
    · obtain ⟨hserv', hab', hbt, hvpn⟩ := step_of_busy hwalk.sane hbusy hab
      obtain ⟨hen, hmiss, hsquash, hpage⟩ := h.fetch (.inl hbusy) (hserv'.symm.trans hserv) hab'
      obtain ⟨haddr, hmiss', hsquash'⟩ :=
        fetch_hold hen hmiss hsquash (hwalk.sane.not_done hbusy) hbt
      rw [translateEnable_hold (hsatp hact) hbt, haddr, hvpn]
      exact ⟨hen, hmiss', hsquash', hpage⟩
    · obtain ⟨hvpn, hserv', hbt⟩ := step_ptw_start hwalk.sane hstart hbusy hdone
      have hreqD : ptwReqD P s i = false := hserv'.symm.trans hserv
      have hmiss : itlbMiss P s (branchTaken P s i) = true := by
        simp only [ptwStart, ptwReqI, hreqD, Bool.false_or, Bool.not_false, Bool.and_true,
          Bool.and_eq_true] at hstart
        exact hstart.1.1
      simp only [itlbMiss, Bool.and_eq_true, Bool.not_eq_true'] at hmiss
      obtain ⟨haddr, hmiss', hsquash'⟩ := fetch_hold hmiss.1.1.1.1 hmiss.1.1.1.2 hmiss.2 hdone hbt
      rw [translateEnable_hold (hsatp hact) hbt, haddr, hvpn, hreqD]
      exact ⟨hmiss.1.1.1.1, hmiss', hsquash', rfl⟩
  · rcases hact.of_step hwalk.sane with hbusy | ⟨hstart, hbusy, hdone⟩
    · obtain ⟨hserv', hab', hbt, hvpn⟩ := step_of_busy hwalk.sane hbusy hab
      obtain ⟨hneeded, -, hmiss⟩ := hwalk.data (.inl hbusy) (hserv'.symm.trans hserv) hab'
      rw [dtlbVaddr_hold hneeded hmiss (hwalk.sane.not_done hbusy) hbt, hvpn]
      exact h.data (.inl hbusy) (hserv'.symm.trans hserv) hab'
    · obtain ⟨hvpn, hserv', hbt⟩ := step_ptw_start hwalk.sane hstart hbusy hdone
      have hreqD : ptwReqD P s i = true := hserv'.symm.trans hserv
      have hmiss := hreqD
      simp only [ptwReqD, dtlbMiss, Bool.and_eq_true, Bool.not_eq_true'] at hmiss
      rw [dtlbVaddr_hold hmiss.1.1.1 hmiss.1.1.2 hdone hbt, hvpn, if_pos hreqD]

/-! ## What a walk finds -/

/-- This edge leaves `satp` and the entries in use alone, or nothing of them is remembered after
it: the TLB is empty and the walker at rest, as after `sfence.vma`. -/
def TablesKept (P : Params) (s : State w k) (i : Inputs) : Prop :=
  ((step P s i).csr.satp = s.csr.satp ∧
      ∀ vpn, ∀ a ∈ reads (tables s) (tableRoot s) vpn, tables (step P s i) a = tables s a) ∨
    (∀ n, ((step P s i).tlb n).valid = false) ∧ ¬ WalkActive (step P s i)

/-- The walker takes a reply only to its own read. -/
def OwnReply (P : Params) (s : State w k) : Prop :=
  s.ptw.mCyc = true → lsuAck P s = true → readData P s = tables s s.ptw.mAddr

/-- A walk that was abandoned files no page under the address of another. -/
def AbandonedHarmless (P : Params) (s : State w k) : Prop :=
  ptwFillValid s = true → s.ptwAbandoned = true → vpnOf (ptwFillVaddr P s) = s.ptw.vpn

instance : Decidable (AbandonedHarmless P s) :=
  inferInstanceAs (Decidable (_ = true → _ = true → _ = _))

/-- The walker's part of the invariant. -/
structure WalkFinds (pteAt : BitVec w → BitVec w) (root : BitVec 20) (p : Ptw w) : Prop where
  busy : p.busy = true → p.Walking pteAt p.vpn p.want (mapping pteAt root p.vpn)
  pending : p.busy = true → p.pending pteAt ⊆ reads pteAt root p.vpn
  done : p.done = true → p.fault = false →
    mapping pteAt root p.vpn = some ⟨p.resultPpn, p.resultPerm⟩

theorem WalkFinds.of_rest {pteAt : BitVec w → BitVec w} {root : BitVec 20} {p : Ptw w}
    (hbusy : p.busy = false) (hdone : p.done = false) : WalkFinds pteAt root p := by
  refine ⟨?_, ?_, ?_⟩ <;> simp [hbusy, hdone]

theorem WalkFinds.congr {pteAt pteAt' : BitVec w → BitVec w} {root : BitVec 20} {p : Ptw w}
    (h : WalkFinds pteAt root p)
    (hkept : ∀ vpn, ∀ a ∈ reads pteAt root vpn, pteAt' a = pteAt a) :
    WalkFinds pteAt' root p := by
  have hmap := mapping_congr (hkept p.vpn)
  refine ⟨fun hbusy ↦ ?_, fun hbusy ↦ ?_, fun hdone hfault ↦ ?_⟩
  · have hpending : ∀ a ∈ p.pending pteAt, pteAt' a = pteAt a :=
      fun a ha ↦ hkept p.vpn a (h.pending hbusy ha)
    have hwalk := h.busy hbusy
    exact { hwalk with remaining := by rw [Ptw.remaining_congr hpending, hmap, hwalk.remaining] }
  · have hpending : ∀ a ∈ p.pending pteAt, pteAt' a = pteAt a :=
      fun a ha ↦ hkept p.vpn a (h.pending hbusy ha)
    rw [Ptw.pending_congr hpending, reads_congr (hkept p.vpn)]
    exact h.pending hbusy
  · rw [hmap]
    exact h.done hdone hfault

theorem WalkFinds.of_walking {pteAt : BitVec w → BitVec w} {root : BitVec 20} {p : Ptw w}
    {vpn : BitVec 27} {a : Want} (h : p.Walking pteAt vpn a (mapping pteAt root vpn))
    (hpending : p.pending pteAt ⊆ reads pteAt root vpn) : WalkFinds pteAt root p := by
  obtain rfl := h.vpn
  obtain rfl := h.want
  refine ⟨fun _ ↦ h, fun _ ↦ hpending, fun hdone ↦ ?_⟩
  exact absurd (h.not_done.symm.trans hdone) Bool.false_ne_true

theorem WalkFinds.next_of_busy {pteAt : BitVec w → BitVec w} {root : BitVec 20} {p : Ptw w}
    {q : Ptw.Input w} (h : WalkFinds pteAt root p) (hbusy : p.busy = true)
    (hserved : p.Served pteAt q) : WalkFinds pteAt root (p.next q) := by
  rcases (h.busy hbusy).step hserved with ⟨hrep, hvpn⟩ | ⟨hwalk, -⟩
  · refine ⟨?_, ?_, fun _ hfault ↦ ?_⟩
    · simp [hrep.not_busy]
    · simp [hrep.not_busy]
    · rw [hvpn]
      exact hrep.leaf hfault
  · refine WalkFinds.of_walking hwalk fun a ha ↦ ?_
    exact h.pending hbusy (Ptw.pending_next (h.busy hbusy) hserved ha)

theorem WalkFinds.next_of_idle {pteAt : BitVec w → BitVec w} {p : Ptw w} {q : Ptw.Input w}
    (hidle : p.state = .idle) (hbusy : p.busy = false) :
    WalkFinds pteAt (q.satpPpn.setWidth 20) (p.next q) := by
  cases hstart : (q.start && !p.busy && !p.done) with
  | false =>
    have hnext : p.next q = { p with done := false } := by
      simp only [Ptw.next, Ptw.step, hidle]
      exact if_neg (by simp [hstart])
    rw [hnext]
    exact WalkFinds.of_rest hbusy rfl
  | true =>
    have hnext : p.next q = { p with
        vpn := vpnOf q.vaddr, satpPpn := q.satpPpn, isFetch := q.isFetch, isStore := q.isStore
        privIsU := q.privIsU, busy := true, done := false, state := .wait (Ptw.topLevel w) } := by
      simp only [Ptw.next, Ptw.step, hidle]
      exact if_pos hstart
    refine WalkFinds.of_walking (Ptw.walking_start hidle hstart) ?_
    have hstate : (p.next q).state = .wait (Ptw.topLevel w) := by rw [hnext]
    have hvpn : (p.next q).vpn = vpnOf q.vaddr := by rw [hnext]
    have hbase : (p.next q).base (Ptw.topLevel w) = q.satpPpn.setWidth 20 := by
      rw [hnext]
      exact if_pos rfl
    simp only [Ptw.pending, hstate, Ptw.mAddr_wait _ hstate, hbase, hvpn, reads]
    exact List.Subset.refl _

theorem WalkFinds.next {pteAt : BitVec w → BitVec w} {root : BitVec 20} {p : Ptw w}
    {q : Ptw.Input w} (h : WalkFinds pteAt root p) (hsane : p.Sane) (hserved : p.Served pteAt q)
    (hroot : q.satpPpn.setWidth 20 = root) : WalkFinds pteAt root (p.next q) := by
  cases hbusy : p.busy with
  | true => exact h.next_of_busy hbusy hserved
  | false =>
    have hidle : p.state = .idle := by
      have := hsane.busy_iff
      rw [hbusy] at this
      simpa using this
    exact hroot ▸ WalkFinds.next_of_idle hidle hbusy

/-! ## The TLB -/

/-- The invariant of a run. -/
structure TlbInv (P : Params) (s : State w k) : Prop where
  walk : WalkInv P s
  owner : OwnerInv P s
  finds : WalkFinds (tables s) (tableRoot s) s.ptw
  holds : s.tlb.Holds (tables s) (tableRoot s)

theorem Tlb.Holds.of_empty {pteAt : BitVec w → BitVec w} {root : BitVec 20} {t : Tlb}
    (h : ∀ n, (t n).valid = false) : t.Holds pteAt root :=
  fun n hn ↦ absurd ((h n).symm.trans hn) Bool.false_ne_true

theorem Tlb.Holds.step {pteAt : BitVec w → BitVec w} {root : BitVec 20} {t : Tlb}
    (h : t.Holds pteAt root) {flushAll fillValid : Bool} {va : BitVec w} {ppn : BitVec 20}
    {perm : Perm} (hfill : fillValid = true → mapping pteAt root (vpnOf va) = some ⟨ppn, perm⟩) :
    (t.step flushAll fillValid va ppn perm).Holds pteAt root := by
  unfold Tlb.step
  split_ifs with hflush hvalid
  · exact Tlb.Holds.of_empty fun _ ↦ rfl
  · intro n hn
    unfold Tlb.fill at hn ⊢
    split_ifs at hn ⊢
    · exact hfill hvalid
    · exact h n hn
  · exact h

/-- A walk that ends well is filed under its own page. -/
theorem TlbInv.fill_page (h : TlbInv P s) (hlive : AbandonedHarmless P s)
    (hfill : ptwFillValid s = true) : vpnOf (ptwFillVaddr P s) = s.ptw.vpn := by
  cases hab : s.ptwAbandoned with
  | true => exact hlive hfill hab
  | false =>
    simp only [ptwFillValid, Bool.and_eq_true, Bool.not_eq_true'] at hfill
    unfold ptwFillVaddr
    cases hserv : s.ptwServicingD with
    | true => exact h.owner.data (.inr hfill.1) hserv hab
    | false => exact (h.owner.fetch (.inr hfill.1) hserv hab).2.2.2

theorem TlbInv.init (s₀ : State w k) : TlbInv P (reset P s₀) :=
  { walk := WalkInv.init s₀
    owner := OwnerInv.init s₀
    finds := WalkFinds.of_rest rfl rfl
    holds := Tlb.Holds.of_empty fun _ ↦ rfl }

theorem tableRoot_of_satp {s' : State w k} (h : s'.csr.satp = s.csr.satp) :
    tableRoot s' = tableRoot s := by
  simp only [tableRoot, Csr.satpPpnVal, h]

theorem TlbInv.step (h : TlbInv P s) (hkept : TablesKept P s i) (hreply : OwnReply P s)
    (hlive : AbandonedHarmless P s) : TlbInv P (step P s i) := by
  have hwalk := h.walk.step (i := i)
  rcases hkept with ⟨hsatp, hwords⟩ | ⟨hempty, hrest⟩
  · have hserved : s.ptw.Served (tables s) (ptwInput P s i) := hreply
    have hfinds : WalkFinds (tables s) (tableRoot s) (RvPipeline.step P s i).ptw := by
      rw [step_ptw]
      exact h.finds.next h.walk.sane hserved rfl
    have hholds : (RvPipeline.step P s i).tlb.Holds (tables s) (tableRoot s) := by
      rw [step_tlb]
      refine h.holds.step fun hfill ↦ ?_
      rw [h.fill_page hlive hfill]
      simp only [ptwFillValid, Bool.and_eq_true, Bool.not_eq_true'] at hfill
      exact h.finds.done hfill.1 hfill.2
    exact
      { walk := hwalk
        owner := h.owner.step h.walk fun _ ↦ hsatp
        finds := tableRoot_of_satp hsatp ▸ hfinds.congr hwords
        holds := tableRoot_of_satp hsatp ▸ hholds.congr hwords }
  · have hbusy : (RvPipeline.step P s i).ptw.busy = false := by
      simpa using fun hb ↦ hrest (.inl hb)
    have hdone : (RvPipeline.step P s i).ptw.done = false := by
      simpa using fun hd ↦ hrest (.inr hd)
    exact
      { walk := hwalk
        owner := h.owner.step h.walk fun hact ↦ absurd hact hrest
        finds := WalkFinds.of_rest hbusy hdone
        holds := Tlb.Holds.of_empty hempty }

/-! ## Replies without caches and latency -/

/-- No table lies in the window of a device. -/
def TablesInMemory (P : Params) (s : State w k) : Prop :=
  s.ptw.mCyc = true → uartHit P s = false ∧ timerHit P s = false

instance : Decidable (TablesInMemory P s) :=
  inferInstanceAs (Decidable (_ = true → _ = false ∧ _ = false))

/-- What the read register of the memory holds while the walker waits. -/
def PortInv (s : State w k) : Prop :=
  s.ptw.mCyc = true → s.ram.memReadPending = true →
    s.ram.memRead = true ∧ s.ram.funct3 = (ptwReq s).funct3 ∧
      s.ram.rawWord = tables s s.ptw.mAddr

theorem loadExtend_ptw (hw : w = 32 ∨ w = 64) (raw : BitVec w) :
    loadExtend (if w = 64 then f3LoadLd else 0b010#3) raw = raw := by
  rcases hw with rfl | rfl
  · simp +decide [loadExtend]
  · simp +decide [loadExtend]

theorem busReq_of_ptwBusy (hnone : P.cacheMode = .none) (hbusy : s.ptw.busy = true) :
    busReq P s = ptwReq s := by
  simp [busReq, hnone, hbusy]

theorem Ptw.Sane.busy_of_mCyc {p : Ptw w} (h : p.Sane) (hcyc : p.mCyc = true) :
    p.busy = true := by
  refine h.busy_iff.2 fun hidle ↦ ?_
  simp [Ptw.mCyc, hidle] at hcyc

theorem ownReply_of_portInv (hw : w = 32 ∨ w = 64) (hnone : P.cacheMode = .none)
    (hlat : P.memLatencyD = 0) (hsane : s.ptw.Sane) (hport : PortInv s)
    (hmem : TablesInMemory P s) : OwnReply P s := by
  intro hcyc hack
  have hbus := busReq_of_ptwBusy hnone (hsane.busy_of_mCyc hcyc)
  obtain ⟨huart, htimer⟩ := hmem hcyc
  have hram : ramHit P s = true ∧ ramAckRaw P s = true := by
    simpa [lsuAck, wbSelect, huart, htimer, ramAck, hlat] using hack
  have hpending : s.ram.memReadPending = true := by
    simpa [ramAckRaw, RamPort.ack, RamPort.memWrite, ramReq, BusReq.select, hbus, ptwReq]
      using hram.2
  obtain ⟨hread, hfunct3, hraw⟩ := hport hcyc hpending
  have hdata : readData P s = s.ram.readData := by
    simp [readData, wbSelect, huart, htimer, ramData, hlat, hram.1]
  rw [hdata, RamPort.readData, if_pos hread, hfunct3, hraw]
  exact loadExtend_ptw hw _

theorem PortInv.init (s₀ : State w k) : PortInv (reset P s₀) := by
  intro hcyc
  simp [reset, Ptw.reset, Ptw.mCyc] at hcyc

theorem PortInv.step (hnone : P.cacheMode = .none) (hsane : s.ptw.Sane) :
    PortInv (step P s i) := by
  intro hcyc' hpending'
  have hpending : RamPort.memReadReq (ramReq P s) = true := hpending'
  have hcyc : (busReq P s).cyc = true := by
    simp only [RamPort.memReadReq, ramReq, BusReq.select, Bool.and_eq_true] at hpending
    exact hpending.1.1.1
  -- the walker was waiting already: at its start and between two reads the bus is quiet
  have hwait : ∃ level, s.ptw.state = .wait level := by
    cases hstate : s.ptw.state with
    | wait level => exact ⟨level, rfl⟩
    | idle =>
      have hbusy : s.ptw.busy = false := by
        have := hsane.busy_iff
        simpa [hstate] using this
      have hstart : ptwStart P s i = true := by
        by_contra hno
        simp [step_ptw, Ptw.next, Ptw.step, hstate, ptwInput, hno, Ptw.mCyc] at hcyc'
      have hlsu : (busReq P s).cyc = false := by
        simp only [ptwStart, Bool.and_eq_true, Bool.not_eq_true'] at hstart
        simp [busReq, hnone, hbusy, lsuReq, hstart.1.2]
      exact absurd (hlsu.symm.trans hcyc) Bool.false_ne_true
    | decode level =>
      have hbusy : s.ptw.busy = true := hsane.busy_iff.2 (by simp [hstate])
      rw [busReq_of_ptwBusy hnone hbusy] at hcyc
      simp [ptwReq, Ptw.mCyc, hstate] at hcyc
  obtain ⟨level, hstate⟩ := hwait
  have hbus := busReq_of_ptwBusy hnone (hsane.busy_iff.2 (by simp [hstate]))
  have hkeep : (RvPipeline.step P s i).ptw = { s.ptw with done := false } := by
    rw [step_ptw]
    cases hack : lsuAck P s with
    | false => simp [Ptw.next, Ptw.step, hstate, ptwInput, hack]
    | true => simp [step_ptw, Ptw.next, Ptw.step, hstate, ptwInput, hack, Ptw.mCyc] at hcyc'
  have hmem : (RvPipeline.step P s i).ram.dataMemory = s.ram.dataMemory := by
    simp [RvPipeline.step, RamPort.step, RamPort.memWrite, ramReq, BusReq.select, hbus, ptwReq]
  have haddr : (ramReq P s).addr = s.ptw.mAddr := by
    simp [ramReq, BusReq.select, hbus, ptwReq]
  refine ⟨hpending, ?_, ?_⟩
  · simp [RvPipeline.step, RamPort.step, ramReq, BusReq.select, hbus, ptwReq]
  · rw [hkeep]
    simp only [tables, hmem]
    simp only [RvPipeline.step, RamPort.step, haddr]
    rfl

/-! ## Whole runs -/

/-- The first `n` steps leave the tables alone and let no wrong entry in. -/
structure TablesRespected (P : Params) (s₀ : State w k) (ins : ℕ → Inputs) (n : ℕ) : Prop where
  kept : ∀ m < n, TablesKept P (run P s₀ ins m) (ins m)
  inMemory : ∀ m < n, TablesInMemory P (run P s₀ ins m)
  reply : P.cacheMode ≠ .none ∨ P.memLatencyD ≠ 0 → ∀ m < n, OwnReply P (run P s₀ ins m)
  live : ∀ m < n, AbandonedHarmless P (run P s₀ ins m)

theorem TablesRespected.mono {s₀ : State w k} {ins : ℕ → Inputs} {n m : ℕ}
    (h : TablesRespected P s₀ ins n) (hle : m ≤ n) : TablesRespected P s₀ ins m :=
  { kept := fun j hj ↦ h.kept j (by omega)
    inMemory := fun j hj ↦ h.inMemory j (by omega)
    reply := fun hc j hj ↦ h.reply hc j (by omega)
    live := fun j hj ↦ h.live j (by omega) }

theorem tlbInv_run (hw : w = 32 ∨ w = 64) {s₀ : State w k} {ins : ℕ → Inputs} {n : ℕ}
    (h : TablesRespected P s₀ ins n) :
    TlbInv P (run P s₀ ins n) ∧ (P.cacheMode = .none → PortInv (run P s₀ ins n)) := by
  induction n with
  | zero => exact ⟨TlbInv.init s₀, fun _ ↦ PortInv.init s₀⟩
  | succ n ih =>
    obtain ⟨hinv, hport⟩ := ih (h.mono n.le_succ)
    have hown : OwnReply P (run P s₀ ins n) := by
      by_cases hplain : P.cacheMode = .none ∧ P.memLatencyD = 0
      · exact ownReply_of_portInv hw hplain.1 hplain.2 hinv.walk.sane (hport hplain.1)
          (h.inMemory n (by omega))
      · exact h.reply (not_and_or.1 hplain) n (by omega)
    exact ⟨hinv.step (h.kept n (by omega)) hown (h.live n (by omega)),
      fun hnone ↦ PortInv.step hnone hinv.walk.sane⟩

/-- As long as the tables are kept, the walker gets its own replies and no abandoned walk is filed
under another page, the TLB holds true translations only. -/
theorem tlb_holds (hw : w = 32 ∨ w = 64) (P : Params) (s₀ : State w k) (ins : ℕ → Inputs) (n : ℕ)
    (h : TablesRespected P s₀ ins n) :
    (run P s₀ ins n).tlb.Holds (tables (run P s₀ ins n)) (tableRoot (run P s₀ ins n)) :=
  (tlbInv_run hw h).1.holds

/-! ### A jump into a page that is not in the TLB -/

/-- The same code in every page.  The jump at `0x24` is taken twice in M-mode, from page 1 to page
2 and back by `mret`, and then predicted in U-mode: the walk for page 2 starts, and the bubble
behind it, which still carries the prediction, sends fetch back to page 1. -/
def abandonedProgram : List (BitVec 32) :=
  [0x800000b7,  -- lui  x1, 0x80000
   0x18009073,  -- csrw satp, x1
   0x00002137,  -- lui  x2, 2
   0x80010113,  -- addi x2, x2, -2048
   0x30011073,  -- csrw mstatus, x2
   0x000011b7,  -- lui  x3, 1
   0x02418193,  -- addi x3, x3, 0x24
   0x34119073,  -- csrw mepc, x3
   0x0040106f,  -- jal  x0, 0x1004
   0x0040106f,  -- jal  x0, 0x1004
   0x30200073]  -- mret

/-- Page 1 is page 0 of the memory, page 2 its page 5; page 0 is not mapped. -/
def abandonedParams : Params :=
  { insts := fun a ↦ instsOfWords abandonedProgram (a % 0x1000)
    memSizeBytes := 0x4000
    dataInitFile := some [0x01, 0, 0, 0, 0x1B, 0, 0, 0, 0x1F, 0x14, 0, 0]
    branchPredictor := .dynamicBhtBtb }

theorem TablesKept.of_quiet
    (h : ((step P s i).csr.satp = s.csr.satp ∧ RamPort.memWrite (ramReq P s) = false) ∨
      (∀ n, ((step P s i).tlb n).valid = false) ∧ (step P s i).ptw.busy = false ∧
        (step P s i).ptw.done = false) : TablesKept P s i := by
  rcases h with ⟨hsatp, hwrite⟩ | ⟨hempty, hbusy, hdone⟩
  · refine .inl ⟨hsatp, fun _ a _ ↦ ?_⟩
    simp [tables, step, RamPort.step, hwrite]
  · refine .inr ⟨hempty, ?_⟩
    rintro (hb | hd)
    · exact absurd (hbusy.symm.trans hb) Bool.false_ne_true
    · exact absurd (hdone.symm.trans hd) Bool.false_ne_true

theorem tlb_holds_fails :
    ¬ ∀ (P : Params) (s₀ : State 32 5) (ins : ℕ → Inputs) (n : ℕ), P.cacheMode = .none →
      P.memLatencyD = 0 → (∀ m < n, TablesKept P (run P s₀ ins m) (ins m)) →
      (∀ m < n, TablesInMemory P (run P s₀ ins m)) →
      (run P s₀ ins n).tlb.Holds (tables (run P s₀ ins n)) (tableRoot (run P s₀ ins n)) := by
  intro hall
  have hholds := hall abandonedParams default (fun _ ↦ {}) 40 rfl rfl
    (fun m hm ↦ TablesKept.of_quiet (by revert m; decide +kernel))
    (by decide +kernel)
  have hbad := hholds 0 (by decide +kernel)
  exact absurd hbad (by decide +kernel)

/-- Until the jump is predicted the same run is in order, with the entry of page 1 in place. -/
theorem tlb_holds_abandonedParams :
    let s : State 32 5 := run abandonedParams default (fun _ ↦ {}) 32
    (s.tlb 1).valid = true ∧ s.tlb.Holds (tables s) (tableRoot s) :=
  ⟨by decide +kernel,
    tlb_holds (.inl rfl) abandonedParams default (fun _ ↦ {}) 32
      { kept := fun m hm ↦ TablesKept.of_quiet (by revert m; decide +kernel)
        inMemory := by decide +kernel
        reply := fun h ↦ by rcases h with h | h <;> exact absurd rfl h
        live := by decide +kernel }⟩

end RvPipeline
