import RvPipeline.Trap.CsrOps

/-!
# Two levels of traps

S and M each keep one frame of the code they have interrupted: the enable bit, the mode and the
address.  A trap fills the frame of its level and a return empties it; neither touches the other
frame.  `CSR.v` is an instance.
-/

namespace RvPipeline

variable {w : ℕ}

/-! ## Frames -/

inductive TrapLevel where
  | s | m
  deriving DecidableEq

def TrapLevel.other : TrapLevel → TrapLevel
  | s => m
  | m => s

/-- The mode of the handler. -/
def TrapLevel.mode : TrapLevel → BitVec 2
  | s => privS
  | m => privM

/-- What the previous-mode field of the level holds of a mode: SPP is one bit wide. -/
def TrapLevel.field : TrapLevel → BitVec 2 → BitVec 2
  | s, priv => 0#1 ++ BitVec.ofBool (priv.getLsbD 0)
  | m, priv => priv

/-- What a level knows: its interrupt enable, the enable and the mode before the trap, and the
registers `epc`, `cause` and `tval`. -/
structure TrapFrame (α : Type) where
  ie : Bool
  pie : Bool
  pp : BitVec 2
  epc : α
  cause : α
  tval : α

structure TrapStacks (α : Type) where
  priv : BitVec 2
  s : TrapFrame α
  m : TrapFrame α

namespace TrapStacks

variable {α : Type} {t t' t'' : TrapStacks α} {l : TrapLevel} {pc cause tval : α}

def frame (t : TrapStacks α) : TrapLevel → TrapFrame α
  | .s => t.s
  | .m => t.m

def setFrame (t : TrapStacks α) (l : TrapLevel) (f : TrapFrame α) : TrapStacks α :=
  match l with
  | .s => { t with s := f }
  | .m => { t with m := f }

/-- A trap into the level. -/
def enter (t : TrapStacks α) (l : TrapLevel) (pc cause tval : α) : TrapStacks α :=
  { t.setFrame l
      { ie := false, pie := (t.frame l).ie, pp := l.field t.priv, epc := pc, cause := cause
        tval := tval } with
    priv := l.mode }

/-- A return out of the level. -/
def leave (t : TrapStacks α) (l : TrapLevel) : TrapStacks α :=
  { t.setFrame l { t.frame l with ie := (t.frame l).pie, pie := true, pp := privU } with
    priv := (t.frame l).pp }

/-- The frame of the level still names the interrupted code. -/
structure Keeps (l : TrapLevel) (t t' : TrapStacks α) : Prop where
  pie : (t'.frame l).pie = (t.frame l).pie
  pp : (t'.frame l).pp = (t.frame l).pp
  epc : (t'.frame l).epc = (t.frame l).epc

theorem Keeps.refl (l : TrapLevel) (t : TrapStacks α) : Keeps l t t := ⟨rfl, rfl, rfl⟩

theorem Keeps.trans (h : Keeps l t t') (h' : Keeps l t' t'') : Keeps l t t'' :=
  ⟨h'.pie.trans h.pie, h'.pp.trans h.pp, h'.epc.trans h.epc⟩

theorem frame_enter_other (l : TrapLevel) :
    (t.enter l pc cause tval).frame l.other = t.frame l.other := by
  cases l <;> rfl

theorem frame_leave_other (l : TrapLevel) : (t.leave l).frame l.other = t.frame l.other := by
  cases l <;> rfl

/-- A trap of the other level is no part of this one. -/
theorem keeps_enter_other (l : TrapLevel) : Keeps l t (t.enter l.other pc cause tval) := by
  cases l <;> exact ⟨rfl, rfl, rfl⟩

theorem keeps_leave_other (l : TrapLevel) : Keeps l t (t.leave l.other) := by
  cases l <;> exact ⟨rfl, rfl, rfl⟩

/-- A trap and the return that matches it, told by the frames before the trap, behind it, before the
return and behind it. -/
structure Nest (l : TrapLevel) (pc : α) (before entered final after : TrapStacks α) : Prop where
  priv : after.priv = before.priv
  ie : (after.frame l).ie = (before.frame l).ie
  epc : (final.frame l).epc = pc
  entered_other : entered.frame l.other = before.frame l.other
  after_other : after.frame l.other = final.frame l.other

theorem nest_of_keeps (hpriv : l.field t.priv = t.priv)
    (h : Keeps l (t.enter l pc cause tval) t') :
    Nest l pc t (t.enter l pc cause tval) t' (t'.leave l) := by
  have henter : (t.enter l pc cause tval).frame l =
      { ie := false, pie := (t.frame l).ie, pp := l.field t.priv, epc := pc, cause := cause
        tval := tval } := by
    cases l <;> rfl
  refine ⟨?_, ?_, ?_, frame_enter_other l, frame_leave_other l⟩
  · calc (t'.leave l).priv = (t'.frame l).pp := rfl
      _ = l.field t.priv := by rw [h.pp, henter]
      _ = t.priv := hpriv
  · have hie : ((t'.leave l).frame l).ie = (t'.frame l).pie := by cases l <;> rfl
    rw [hie, h.pie, henter]
  · rw [h.epc, henter]

end TrapStacks

/-! ## The privileged state -/

/-- The frames, with the fields of `mstatus` from the privileged state. -/
def PrivState.frames {α : Type} (p : PrivState) (sepc scause stval mepc mcause mtval : α) :
    TrapStacks α :=
  { priv := p.priv
    s :=
      { ie := p.mstatus mstatusSieBit, pie := p.mstatus mstatusSpieBit
        pp := 0#1 ++ BitVec.ofBool (p.mstatus mstatusSppBit), epc := sepc, cause := scause
        tval := stval }
    m :=
      { ie := p.mstatus mstatusMieBit, pie := p.mstatus mstatusMpieBit
        pp := BitVec.ofBool (p.mstatus (mstatusMppLo + 1)) ++ BitVec.ofBool (p.mstatus mstatusMppLo)
        epc := mepc, cause := mcause, tval := mtval } }

namespace PrivState

variable {α : Type} {p : PrivState} {sepc scause stval mepc mcause mtval : α}

theorem ofBool_bits (priv : BitVec 2) :
    BitVec.ofBool (priv.getLsbD 1) ++ BitVec.ofBool (priv.getLsbD 0) = priv := by
  revert priv
  decide

/-- The bits of `mstatus` that the frames are made of. -/
theorem frames_congr {p' : PrivState} (hpriv : p'.priv = p.priv)
    (h : ∀ j ∈ Csr.mstatusBits, p'.mstatus j = p.mstatus j) :
    p'.frames sepc scause stval mepc mcause mtval = p.frames sepc scause stval mepc mcause mtval := by
  rw [frames, frames, hpriv, h mstatusSieBit (by decide), h mstatusSpieBit (by decide),
    h mstatusSppBit (by decide), h mstatusMieBit (by decide), h mstatusMpieBit (by decide),
    h (mstatusMppLo + 1) (by decide), h mstatusMppLo (by decide)]

theorem frames_trapS (isInterrupt : Bool) (cause : BitVec 31) (pc tval : BitVec w) (a b c : α)
    (h : p.toS isInterrupt cause = true) :
    (p.apply (.trap isInterrupt cause pc tval)).frames a b c mepc mcause mtval =
      (p.frames sepc scause stval mepc mcause mtval).enter .s a b c := by
  rw [apply, if_pos h]
  rfl

theorem frames_trapM (isInterrupt : Bool) (cause : BitVec 31) (pc tval : BitVec w) (a b c : α)
    (h : p.toS isInterrupt cause = false) :
    (p.apply (.trap isInterrupt cause pc tval)).frames sepc scause stval a b c =
      (p.frames sepc scause stval mepc mcause mtval).enter .m a b c := by
  rw [apply, h, if_neg Bool.false_ne_true]
  have hmpp : BitVec.ofBool (stackM p.priv p.mstatus (mstatusMppLo + 1)) ++
      BitVec.ofBool (stackM p.priv p.mstatus mstatusMppLo) = p.priv := ofBool_bits p.priv
  rw [frames, hmpp]
  rfl

theorem frames_mret : (p.apply (.mret : CsrOp w)).frames sepc scause stval mepc mcause mtval =
    (p.frames sepc scause stval mepc mcause mtval).leave .m := by
  have hmpp : BitVec.ofBool (popM p.mstatus (mstatusMppLo + 1)) ++
      BitVec.ofBool (popM p.mstatus mstatusMppLo) = privU := by
    have hhigh : popM p.mstatus (mstatusMppLo + 1) = false := rfl
    have hlow : popM p.mstatus mstatusMppLo = false := rfl
    rw [hhigh, hlow]
    rfl
  rw [frames, apply, hmpp]
  rfl

theorem frames_sret : (p.apply (.sret : CsrOp w)).frames sepc scause stval mepc mcause mtval =
    (p.frames sepc scause stval mepc mcause mtval).leave .s := by
  have hspp : 0#1 ++ BitVec.ofBool (popS p.mstatus mstatusSppBit) = privU := by
    have hlow : popS p.mstatus mstatusSppBit = false := rfl
    rw [hlow]
    rfl
  rw [frames, apply, hspp]
  rfl

end PrivState

/-- The frames of `CSR.v`. -/
def Csr.frames (c : Csr w) : TrapStacks (BitVec w) :=
  c.privState.frames c.sepc c.scause c.stval c.mepc c.mcause c.mtval

namespace Csr

variable {c c' : Csr w} {k : Counters w} {p : Pending}

/-- The level a trap is taken at. -/
def trapLevel (c : Csr w) (isInterrupt : Bool) (cause : BitVec 31) : TrapLevel :=
  if c.privState.toS isInterrupt cause then .s else .m

theorem trap_registers (isInterrupt : Bool) (cause : BitVec 31) (pc tval : BitVec w) :
    let i := (CsrOp.trap isInterrupt cause pc tval).input
    let c' := c.next k p i
    (c'.sepc = if c.trapTargetIsS i then pc else c.sepc) ∧
      (c'.scause = if c.trapTargetIsS i then causeWord isInterrupt (cause.setWidth w) else c.scause) ∧
      (c'.stval = if c.trapTargetIsS i then tval else c.stval) ∧
      (c'.mepc = if !c.trapTargetIsS i then pc else c.mepc) ∧
      (c'.mcause = if !c.trapTargetIsS i then causeWord isInterrupt (cause.setWidth w) else c.mcause) ∧
      (c'.mtval = if !c.trapTargetIsS i then tval else c.mtval) :=
  ⟨rfl, rfl, rfl, rfl, rfl, rfl⟩

theorem frames_trap (hw : 12 < w) (isInterrupt : Bool) (cause : BitVec 31) (pc tval : BitVec w) :
    (c.next k p (CsrOp.trap isInterrupt cause pc tval).input).frames =
      c.frames.enter (c.trapLevel isInterrupt cause) pc (causeWord isInterrupt (cause.setWidth w))
        tval := by
  have htarget := trapTargetIsS_input (c := c) hw isInterrupt cause pc tval
  obtain ⟨hsepc, hscause, hstval, hmepc, hmcause, hmtval⟩ :=
    trap_registers (c := c) (k := k) (p := p) isInterrupt cause pc tval
  rw [frames, privState_next hw, hsepc, hscause, hstval, hmepc, hmcause, hmtval, trapLevel, frames]
  cases hS : c.privState.toS isInterrupt cause with
  | true =>
    rw [hS] at htarget
    rw [htarget]
    exact PrivState.frames_trapS isInterrupt cause pc tval _ _ _ hS
  | false =>
    rw [hS] at htarget
    rw [htarget]
    exact PrivState.frames_trapM isInterrupt cause pc tval _ _ _ hS

theorem frames_mret (hw : 12 < w) :
    (c.next k p (CsrOp.mret (w := w)).input).frames = c.frames.leave .m := by
  rw [frames, privState_next hw, frames, ← PrivState.frames_mret (w := w)]
  rfl

theorem frames_sret (hw : 12 < w) :
    (c.next k p (CsrOp.sret (w := w)).input).frames = c.frames.leave .s := by
  rw [frames, privState_next hw, frames, ← PrivState.frames_sret (w := w)]
  rfl

/-- What a handler may do in a cycle: an access that leaves the frame of its level alone, and at the
S level also a trap to M and the return from it. -/
def HandlerStep (l : TrapLevel) (c : Csr w) (s : CsrStep w) : Prop :=
  match s.op with
  | .access .. => TrapStacks.Keeps l c.frames (c.next s.counters s.pending s.op.input).frames
  | .trap isInterrupt cause _ _ => l = .s ∧ c.trapLevel isInterrupt cause = .m
  | .mret => l = .s
  | .sret => False

/-- A handler of the level at work. -/
inductive Handler (l : TrapLevel) (c : Csr w) : Csr w → Prop where
  | start : Handler l c c
  | step {c' : Csr w} (s : CsrStep w) :
      Handler l c c' → HandlerStep l c' s → Handler l c (c'.next s.counters s.pending s.op.input)

theorem keeps_handlerStep (hw : 12 < w) {l : TrapLevel} {s : CsrStep w} (h : HandlerStep l c s) :
    TrapStacks.Keeps l c.frames (c.next s.counters s.pending s.op.input).frames := by
  obtain ⟨op, counters, pending⟩ := s
  cases op with
  | access fn addr wdata => exact h
  | trap isInterrupt cause pc tval =>
    obtain ⟨rfl, hlevel⟩ := h
    rw [frames_trap hw, hlevel]
    exact TrapStacks.keeps_enter_other .s
  | mret =>
    obtain rfl : l = .s := h
    rw [frames_mret hw]
    exact TrapStacks.keeps_leave_other .s
  | sret => exact h.elim

theorem keeps_handler (hw : 12 < w) {l : TrapLevel} (h : Handler l c c') :
    TrapStacks.Keeps l c.frames c'.frames := by
  induction h with
  | start => exact TrapStacks.Keeps.refl l c.frames
  | step s _ hstep ih => exact ih.trans (keeps_handlerStep hw hstep)

end Csr

/-- The return of a level. -/
def TrapLevel.ret : TrapLevel → CsrOp w
  | s => .sret
  | m => .mret

theorem TrapLevel.field_eq (l : TrapLevel) {priv : BitVec 2} (h : l = .s → priv.getLsbD 1 = false) :
    l.field priv = priv := by
  cases l with
  | s =>
    have hlow : ∀ p : BitVec 2, p.getLsbD 1 = false → 0#1 ++ BitVec.ofBool (p.getLsbD 0) = p := by
      decide
    exact hlow priv (h rfl)
  | m => rfl

/-- In `CSR.v` a trap and the matching return nest. -/
theorem Csr.nest (hw : 12 < w) {c c' : Csr w} {k k' : Counters w} {p p' : Pending}
    {isInterrupt : Bool} {cause : BitVec 31} {pc tval : BitVec w} {l : TrapLevel}
    (hlevel : c.trapLevel isInterrupt cause = l)
    (hpriv : l = .s → c.privMode.getLsbD 1 = false)
    (hrun : Csr.Handler l (c.next k p (CsrOp.trap isInterrupt cause pc tval).input) c') :
    TrapStacks.Nest l pc c.frames (c.next k p (CsrOp.trap isInterrupt cause pc tval).input).frames
      c'.frames (c'.next k' p' l.ret.input).frames := by
  have hret : (c'.next k' p' l.ret.input).frames = c'.frames.leave l := by
    cases l with
    | s => exact Csr.frames_sret hw
    | m => exact Csr.frames_mret hw
  have hkeeps := Csr.keeps_handler hw hrun
  rw [Csr.frames_trap hw, hlevel] at hkeeps
  rw [Csr.frames_trap hw, hlevel, hret]
  exact TrapStacks.nest_of_keeps (l.field_eq hpriv) hkeeps

end RvPipeline
