import RvPipeline.Firmware.Sbi
import Mathlib.Tactic

/-!
# The SBI calling convention

`sbi_dispatch_ecall` against the convention of the two generations of the interface: the extensions
0 to 8 return their result in `a0` alone, all others an error in `a0` and a value in `a1`.
-/

namespace RvPipeline

namespace Sbi

/-! ## What the interface offers -/

/-- The extension is one of version 0.1. -/
def Legacy (eid : BitVec 64) : Prop := eid ≤ eidShutdown

instance : DecidablePred Legacy := fun eid ↦ inferInstanceAs (Decidable (eid ≤ eidShutdown))

def Supported (eid fid : BitVec 64) : Prop :=
  Legacy eid ∨ eid = eidBase ∧ fid ≤ 6 ∨ eid = eidTime ∧ fid = 0 ∨ eid = eidIpi ∧ fid = 0 ∨
    eid = eidRfence ∧ fid ≤ 2

/-- What `console_getchar` delivers: the byte received, or -1 without one. -/
def consoleChar : List (BitVec 64) → Option (BitVec 64)
  | [] => none
  | lsr :: answers =>
    if lsr.getLsbD uartLsrDr then answers.head?.map fun rbr ↦ (rbr.setWidth 8).setWidth 64
    else some (-1)

/-- The extension answers every call with `SBI_ERR_NOT_SUPP`. -/
def Unanswered (specVersion eid : BitVec 64) : Prop :=
  ∀ (regs : Regs) (answers : List (BitVec 64)), regs regA7 = eid →
    ∃ regs' accesses, outcome (dispatchEcall specVersion regs) answers = some (regs', accesses) ∧
      regs' regA0 = errNotSupp

/-- The convention for a call that returns. -/
structure FollowsConvention (specVersion : BitVec 64) (regs : Regs) (answers : List (BitVec 64))
    (regs' : Regs) (accesses : List Access) : Prop where
  legacy : Legacy (regs regA7) → ∀ r, r ≠ regA0 → regs' r = regs r
  getchar : regs regA7 = eidConsoleGetchar → consoleChar answers = some (regs' regA0)
  others : ¬Legacy (regs regA7) → ∀ r, r ≠ regA0 → r ≠ regA1 → regs' r = regs r
  unsupported : ¬Supported (regs regA7) (regs regA6) → regs' regA0 = errNotSupp ∧ accesses = []
  probe : regs regA7 = eidBase → regs regA6 = 3 →
    (regs' regA1 = 1 ↔ ¬Unanswered specVersion (regs regA0))

/-! ## One call -/

section Call

variable {specVersion eid fid a0 a1 : BitVec 64} {s s' : Volatiles} {err val : BitVec 64}

theorem legacy_cases (h : Legacy eid) : eid = eidSetTimer ∨ eid = eidConsolePutchar ∨
    eid = eidConsoleGetchar ∨ eid = eidClearIpi ∨ eid = eidSendIpi ∨ eid = eidRemoteFenceI ∨
    eid = eidRemoteSfenceVma ∨ eid = eidRemoteSfenceAsid ∨ eid = eidShutdown := by
  simp only [Legacy, eidSetTimer, eidConsolePutchar, eidConsoleGetchar, eidClearIpi, eidSendIpi,
    eidRemoteFenceI, eidRemoteSfenceVma, eidRemoteSfenceAsid, eidShutdown] at h ⊢
  bv_omega

theorem base_unsupported (h : ¬fid ≤ 6) : base specVersion fid a0 = (errNotSupp, 0) := by
  obtain ⟨h0, h1, h2, h3, h456⟩ :
      fid ≠ 0#64 ∧ fid ≠ 1#64 ∧ fid ≠ 2#64 ∧ fid ≠ 3#64 ∧ ¬(fid = 4#64 ∨ fid = 5#64 ∨ fid = 6#64) := by
    bv_omega
  exact (if_neg h0).trans <| (if_neg h1).trans <| (if_neg h2).trans <| (if_neg h3).trans (if_neg h456)

/-- A call outside the interface does nothing and says so. -/
theorem call_unsupported (h : ¬Supported eid fid) :
    call specVersion eid fid a0 a1 s = some ((errNotSupp, 0), s) := by
  have hlegacy : ∀ n : BitVec 64, n ≤ eidShutdown → eid ≠ n := by
    rintro n hn rfl
    exact h (.inl hn)
  by_cases hbase : eid = eidBase
  · have hfid : ¬fid ≤ 6 := fun hf ↦ h (.inr (.inl ⟨hbase, hf⟩))
    rw [call, if_pos hbase, base_unsupported hfid]
    rfl
  rw [call, if_neg hbase, if_neg (hlegacy _ (by decide))]
  by_cases htime : eid = eidTime
  · have hfid : fid ≠ 0 := fun hf ↦ h (.inr (.inr (.inl ⟨htime, hf⟩)))
    rw [if_pos htime, if_neg hfid]
    rfl
  rw [if_neg htime, if_neg (hlegacy _ (by decide)), if_neg (hlegacy _ (by decide)),
    if_neg (hlegacy _ (by decide)), if_neg (hlegacy _ (by decide))]
  by_cases hipi : eid = eidIpi
  · have hfid : fid ≠ 0 := fun hf ↦ h (.inr (.inr (.inr (.inl ⟨hipi, hf⟩))))
    rw [if_pos hipi, if_neg hfid]
    rfl
  have hfence : ¬(eid = eidRemoteFenceI ∨ eid = eidRemoteSfenceVma ∨ eid = eidRemoteSfenceAsid) := by
    simp [hlegacy eidRemoteFenceI (by decide), hlegacy eidRemoteSfenceVma (by decide),
      hlegacy eidRemoteSfenceAsid (by decide)]
  rw [if_neg hipi, if_neg hfence]
  by_cases hrfence : eid = eidRfence
  · have hfid : ¬fid ≤ 2 := fun hf ↦ h (.inr (.inr (.inr (.inr ⟨hrfence, hf⟩))))
    rw [if_pos hrfence, if_neg (by bv_omega)]
    rfl
  rw [if_neg hrfence, if_neg (hlegacy _ (by decide))]
  rfl

theorem base_supported (h : fid ≤ 6) : (base specVersion fid a0).1 = success := by
  have hcases : fid = 0#64 ∨ fid = 1#64 ∨ fid = 2#64 ∨ fid = 3#64 ∨ fid = 4#64 ∨ fid = 5#64 ∨
      fid = 6#64 := by bv_omega
  rcases hcases with rfl | rfl | rfl | rfl | rfl | rfl | rfl <;> rfl

theorem firmware_bind {α β : Type} {f : Firmware α} {g : α → Firmware β} {r : β × Volatiles}
    (h : (f >>= g) s = some r) : ∃ p, f s = some p ∧ g p.1 p.2 = some r := by
  cases hf : f s with
  | none =>
    have hnone : (f >>= g) s = (f s).bind fun p ↦ g p.1 p.2 := rfl
    rw [hnone, hf] at h
    cases h
  | some p =>
    have hsome : (f >>= g) s = (f s).bind fun p ↦ g p.1 p.2 := rfl
    rw [hsome, hf] at h
    exact ⟨p, rfl, h⟩

theorem uartReg_cons (off v : BitVec 64) (answers : List (BitVec 64)) (accesses : List Access) :
    uartReg off { answers := v :: answers, accesses := accesses } =
      some (v.setWidth 32, { answers := answers, accesses := accesses ++ [.uartRead off] }) := rfl

/-- The byte as the `int` that is extended to a register. -/
theorem signExtend_byte (v : BitVec 64) :
    (v.setWidth 32 &&& 0xFF#32).signExtend 64 = (v.setWidth 8).setWidth 64 := by
  apply BitVec.eq_of_getLsbD_eq
  intro i hi
  have hmask : ∀ j, (0xFF#32).getLsbD j = decide (j < 8) := by
    intro j
    by_cases hj : j < 32
    · interval_cases j <;> rfl
    · rw [BitVec.getLsbD_of_ge (0xFF#32) j (by omega)]
      simpa using show 8 ≤ j by omega
  have hmsb : (v.setWidth 32 &&& 0xFF#32).msb = false := by
    rw [BitVec.msb_eq_getLsbD_last, BitVec.getLsbD_and, hmask]
    simp
  rw [BitVec.signExtend_eq_setWidth_of_msb_false hmsb, BitVec.getLsbD_setWidth,
    BitVec.getLsbD_setWidth, BitVec.getLsbD_and, hmask, BitVec.getLsbD_setWidth,
    BitVec.getLsbD_setWidth]
  by_cases h8 : i < 8
  · simp [h8, hi, show i < 32 by omega]
  · simp [h8]

theorem uartGetchar_spec {c : BitVec 32} (h : uartGetchar s = some (c, s')) :
    consoleChar s.answers = some (c.signExtend 64) := by
  obtain ⟨answers, accesses⟩ := s
  cases answers with
  | nil => cases h
  | cons lsr answers =>
    have hdr : (lsr.setWidth 32).getLsbD uartLsrDr = lsr.getLsbD uartLsrDr := by
      simp [uartLsrDr]
    obtain ⟨p, hp, h⟩ := firmware_bind h
    rw [uartReg_cons] at hp
    cases hp
    rw [consoleChar]
    cases hlsr : lsr.getLsbD uartLsrDr with
    | false =>
      simp only [hdr, hlsr, Bool.not_false, if_true] at h
      cases h
      rfl
    | true =>
      simp only [hdr, hlsr, Bool.not_true, Bool.false_eq_true, if_false] at h
      cases answers with
      | nil => cases h
      | cons rbr answers =>
        cases h
        exact congrArg some (signExtend_byte rbr).symm

/-- What a call of version 0.1 returns. -/
theorem call_eq_of_legacy (h : Legacy eid)
    (hcall : call specVersion eid fid a0 a1 s = some ((err, val), s')) :
    err = success ∧ (eid ≠ eidConsoleGetchar → val = 0) ∧
      (eid = eidConsoleGetchar → consoleChar s.answers = some val) := by
  rcases legacy_cases h with rfl | rfl | rfl | rfl | rfl | rfl | rfl | rfl | rfl
  · cases hcall
    exact ⟨rfl, fun _ ↦ rfl, fun h ↦ by cases h⟩
  · obtain ⟨_, -, hret⟩ := firmware_bind hcall
    cases hret
    exact ⟨rfl, fun _ ↦ rfl, fun h ↦ by cases h⟩
  · obtain ⟨p, hchar, hret⟩ := firmware_bind hcall
    cases hret
    exact ⟨rfl, fun h ↦ absurd rfl h, fun _ ↦ uartGetchar_spec hchar⟩
  · cases hcall
    exact ⟨rfl, fun _ ↦ rfl, fun h ↦ by cases h⟩
  · obtain ⟨mask, -, hret⟩ := firmware_bind hcall
    have hretd : err = success ∧ val = 0 := by
      cases hmask : mask.1.getLsbD 0 <;> simp only [hmask] at hret <;> cases hret <;> exact ⟨rfl, rfl⟩
    exact ⟨hretd.1, fun _ ↦ hretd.2, fun h ↦ by cases h⟩
  · cases hcall
    exact ⟨rfl, fun _ ↦ rfl, fun h ↦ by cases h⟩
  · cases hcall
    exact ⟨rfl, fun _ ↦ rfl, fun h ↦ by cases h⟩
  · cases hcall
    exact ⟨rfl, fun _ ↦ rfl, fun h ↦ by cases h⟩
  · cases hcall

end Call

/-! ## The extensions that answer -/

section Dispatch

variable {specVersion : BitVec 64} {regs regs' : Regs} {answers : List (BitVec 64)}
  {accesses : List Access}

theorem dispatchEcall_eq
    (h : outcome (dispatchEcall specVersion regs) answers = some (regs', accesses)) :
    ∃ err val s', call specVersion (regs regA7) (regs regA6) (regs regA0) (regs regA1)
        { answers := answers, accesses := [] } = some ((err, val), s') ∧
      regs' = Function.update (Function.update regs regA0 err) regA1 val ∧
        accesses = s'.accesses := by
  rw [outcome, Option.map_eq_some_iff] at h
  obtain ⟨r, hr, heq⟩ := h
  obtain ⟨⟨⟨err, val⟩, s'⟩, hcall, hret⟩ := firmware_bind hr
  cases hret
  cases heq
  exact ⟨err, val, s', hcall, rfl, rfl⟩

theorem outcome_unsupported (h : ¬Supported (regs regA7) (regs regA6)) :
    outcome (dispatchEcall specVersion regs) answers =
      some (Function.update (Function.update regs regA0 errNotSupp) regA1 0, []) := by
  have hcall : call specVersion (regs regA7) (regs regA6) (regs regA0) (regs regA1)
      { answers := answers, accesses := [] } =
        some ((errNotSupp, 0), { answers := answers, accesses := [] }) := call_unsupported h
  have hrun : outcome (dispatchEcall specVersion regs) answers =
      ((call specVersion (regs regA7) (regs regA6) (regs regA0) (regs regA1)
        { answers := answers, accesses := [] }).bind fun p ↦
          some (Function.update (Function.update regs regA0 p.1.1) regA1 p.1.2, p.2)).map
        fun r ↦ (r.1, r.2.accesses) := rfl
  rw [hrun, hcall]
  rfl

theorem result_a0 (regs : Regs) (err val : BitVec 64) :
    Function.update (Function.update regs regA0 err) regA1 val regA0 = err := by
  rw [Function.update_of_ne (by decide), Function.update_self]

/-- `PROBE_EXTENSION` lists the extensions of which a function is answered, or does not return. -/
theorem unanswered_iff (eid : BitVec 64) :
    Unanswered specVersion eid ↔ probeExtension eid = 0 := by
  constructor
  · intro h
    by_contra hprobe
    have hlisted : Legacy eid ∨ eid = eidBase ∨ eid = eidTime ∨ eid = eidIpi ∨ eid = eidRfence := by
      by_contra hne
      exact hprobe (if_neg hne)
    obtain ⟨regs', accesses, hout, ha0⟩ := h (fun r ↦ if r = regA7 then eid else 0) [] rfl
    rcases hlisted with hlegacy | rfl | rfl | rfl | rfl
    · rcases legacy_cases hlegacy with rfl | rfl | rfl | rfl | rfl | rfl | rfl | rfl | rfl <;>
        cases hout <;> cases ha0
    all_goals
      cases hout
      cases ha0
  · intro hprobe regs answers heid
    have hunsupported : ¬Supported (regs regA7) (regs regA6) := by
      rw [heid]
      intro hsup
      have hlisted : eid ≤ eidShutdown ∨ eid = eidBase ∨ eid = eidTime ∨ eid = eidIpi ∨
          eid = eidRfence := by
        rcases hsup with h | ⟨h, -⟩ | ⟨h, -⟩ | ⟨h, -⟩ | ⟨h, -⟩
        · exact .inl h
        · exact .inr (.inl h)
        · exact .inr (.inr (.inl h))
        · exact .inr (.inr (.inr (.inl h)))
        · exact .inr (.inr (.inr (.inr h)))
      rw [probeExtension, if_pos hlisted] at hprobe
      cases hprobe
    exact ⟨_, _, outcome_unsupported hunsupported, result_a0 _ _ _⟩

theorem probeExtension_eq (eid : BitVec 64) : probeExtension eid = 1 ↔ probeExtension eid ≠ 0 := by
  rw [probeExtension]
  split_ifs <;> simp

/-- Out of version 0.1 the convention is kept. -/
theorem followsConvention_of_not_legacy (hlegacy : ¬Legacy (regs regA7))
    (h : outcome (dispatchEcall specVersion regs) answers = some (regs', accesses)) :
    FollowsConvention specVersion regs answers regs' accesses := by
  obtain ⟨err, val, s', hcall, rfl, rfl⟩ := dispatchEcall_eq h
  refine ⟨fun hl ↦ absurd hl hlegacy, fun hget ↦ ?_, fun _ r hr hr' ↦ ?_, fun hsup ↦ ?_,
    fun hbase hprobe ↦ ?_⟩
  · exact absurd (hget ▸ by decide : Legacy (regs regA7)) hlegacy
  · rw [Function.update_of_ne hr', Function.update_of_ne hr]
  · rw [outcome_unsupported hsup] at h
    have hregs := congrArg Prod.fst (Option.some.inj h)
    have haccesses := congrArg Prod.snd (Option.some.inj h)
    have ha0 := result_a0 regs errNotSupp 0
    exact ⟨(congrFun hregs.symm regA0).trans ha0, haccesses.symm⟩
  · rw [hbase, hprobe] at hcall
    cases hcall
    rw [Function.update_self, unanswered_iff]
    exact probeExtension_eq _

/-- A call of version 0.1 keeps the convention when its value is what `a1` already holds, and
nothing is to be delivered but zero. -/
theorem followsConvention_iff_of_legacy (hlegacy : Legacy (regs regA7))
    (h : outcome (dispatchEcall specVersion regs) answers = some (regs', accesses)) :
    FollowsConvention specVersion regs answers regs' accesses ↔
      regs regA1 = 0 ∧ (regs regA7 = eidConsoleGetchar → consoleChar answers = some 0) := by
  obtain ⟨err, val, s', hcall, rfl, rfl⟩ := dispatchEcall_eq h
  obtain ⟨rfl, hval, hchar⟩ := call_eq_of_legacy hlegacy hcall
  constructor
  · intro hconv
    have ha1 : val = regs regA1 := by
      have := hconv.legacy hlegacy regA1 (by decide)
      rwa [Function.update_self] at this
    have hget : regs regA7 = eidConsoleGetchar → consoleChar answers = some 0 := by
      intro heid
      have := hconv.getchar heid
      rwa [result_a0] at this
    refine ⟨?_, hget⟩
    by_cases heid : regs regA7 = eidConsoleGetchar
    · have hzero := (hchar heid).symm.trans (hget heid)
      rw [← ha1]
      exact Option.some.inj hzero
    · rw [← ha1]
      exact hval heid
  · rintro ⟨ha1, hget⟩
    have hzero : val = 0 := by
      by_cases heid : regs regA7 = eidConsoleGetchar
      · exact Option.some.inj ((hchar heid).symm.trans (hget heid))
      · exact hval heid
    refine ⟨fun _ r hr ↦ ?_, fun heid ↦ ?_, fun hl ↦ absurd hlegacy hl,
      fun hsup ↦ absurd (.inl hlegacy) hsup, fun hbase ↦ ?_⟩
    · by_cases hr' : r = regA1
      · rw [hr', Function.update_self, hzero, ha1]
      · rw [Function.update_of_ne hr', Function.update_of_ne hr]
    · rw [result_a0]
      exact hget heid
    · rw [hbase] at hlegacy
      exact absurd hlegacy (by decide)

end Dispatch

/-- `sbi_dispatch_ecall` also returns to a caller of version 0.1 in `a1`, and the character of
`console_getchar` there alone: it follows the convention exactly when `a1` already holds zero and
the character is zero. -/
theorem followsConvention_iff (specVersion : BitVec 64) :
    (∀ (regs regs' : Regs) (answers : List (BitVec 64)) (accesses : List Access),
      outcome (dispatchEcall specVersion regs) answers = some (regs', accesses) →
      (FollowsConvention specVersion regs answers regs' accesses ↔
        (Legacy (regs regA7) → regs regA1 = 0) ∧
          (regs regA7 = eidConsoleGetchar → consoleChar answers = some 0))) ∧
    ∀ (regs : Regs) (answers : List (BitVec 64)), ¬Supported (regs regA7) (regs regA6) →
      ∃ regs', outcome (dispatchEcall specVersion regs) answers = some (regs', []) ∧
        regs' regA0 = errNotSupp := by
  constructor
  · intro regs regs' answers accesses h
    by_cases hlegacy : Legacy (regs regA7)
    · rw [followsConvention_iff_of_legacy hlegacy h]
      simp [hlegacy]
    · have hget : regs regA7 ≠ eidConsoleGetchar := by
        intro heid
        exact hlegacy (heid ▸ by decide)
      simp [hlegacy, hget, followsConvention_of_not_legacy hlegacy h]
  · intro regs answers h
    exact ⟨_, outcome_unsupported h, result_a0 _ _ _⟩

/-- The registers of a call. -/
def callRegs (eid fid a0 a1 : BitVec 64) : Regs := fun r ↦
  if r = regA7 then eid else if r = regA6 then fid else if r = regA0 then a0
  else if r = regA1 then a1 else 0

/-- A character is put out with `a1` zero. -/
theorem followsConvention_putchar :
    FollowsConvention 0 (callRegs eidConsolePutchar 0 0x41 0) [0x20]
      (Function.update (Function.update (callRegs eidConsolePutchar 0 0x41 0) regA0 0) regA1 0)
      [.uartRead uartLsr, .uartWrite uartThrRbr 0x41] :=
  ((followsConvention_iff 0).1 _ _ [0x20] _ rfl).2 ⟨fun _ ↦ rfl, fun h ↦ absurd h (by decide)⟩

/-- A byte that is ready is not delivered in `a0`. -/
theorem not_followsConvention_getchar :
    ¬∀ (regs regs' : Regs) (answers : List (BitVec 64)) (accesses : List Access),
      outcome (dispatchEcall 0 regs) answers = some (regs', accesses) →
        FollowsConvention 0 regs answers regs' accesses := by
  intro hall
  have hconv := hall (callRegs eidConsoleGetchar 0 0 0) _ [0x61, 0x41] _ rfl
  have hchar := hconv.getchar rfl
  cases hchar

end Sbi

end RvPipeline
