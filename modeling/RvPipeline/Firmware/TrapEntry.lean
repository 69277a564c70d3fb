import RvPipeline.Firmware.Hart

/-!
# `trap_entry`

The M-mode trap vector of `sim/firmware/trap_entry.S`: it saves the registers of the interrupted
code below the pointer that `mscratch` holds, calls `sbi_dispatch` on a stack of its own, and
restores them.  Whatever the call does to the caller-saved registers, the interrupted code sees
nothing of it.
-/

namespace RvPipeline

/-! ## The code -/

/-- Where the linker puts the frame and the stack of the handler. -/
structure Layout where
  trapEntry : BitVec 64
  trapScratch : BitVec 64
  trapStackTop : BitVec 64
  /-- the frame of 32 doublewords ends below what the handler itself pushes -/
  apart : trapScratch.toNat + 32 * 8 + 16 ≤ trapStackTop.toNat

/-- `r*8`. -/
def slot (r : BitVec 5) : BitVec 64 := BitVec.ofNat 64 (r.toNat * 8)

/-- The registers saved and restored in the order of their numbers; `x5` is the base. -/
def savedRegs : List (BitVec 5) :=
  [1, 2, 3, 4, 6, 7, 8, 9, 10, 11, 12, 13, 14, 15, 16, 17, 18, 19, 20, 21, 22, 23, 24, 25, 26, 27,
    28, 29, 30, 31]

def saveCode : List Instr := savedRegs.map fun r ↦ .sd r (slot r) 5
def restoreCode : List Instr := savedRegs.map fun r ↦ .ld r (slot r) 5

/-- From the last save to the call. -/
def callCode (L : Layout) : List Instr :=
  [.csrr 6 csrAddrMscratch, .sd 6 (slot 5) 5, .csrw csrAddrMscratch 5, .la 2 L.trapStackTop,
    .addi 2 2 (-16), .sd 5 0 2, .csrr 10 csrAddrMcause, .mv 11 5]

/-- From the return to the branch around the step over the `ecall`. -/
def returnCode : List Instr := [.ld 5 0 2, .addi 2 2 16, .csrr 6 csrAddrMcause, .li 7 9]

def skipEcall : List Instr := [.csrr 6 csrAddrMepc, .addi 6 6 4, .csrw csrAddrMepc 6]

/-- `trap_entry`. -/
def trapEntry (L : Layout) : List Instr :=
  .csrrw 5 csrAddrMscratch 5 :: saveCode ++ callCode L ++ .call :: returnCode ++
    .bne 6 7 3 :: skipEcall ++ restoreCode ++ [.ld 5 (slot 5) 5, .mret]

/-! ## The call -/

/-- The called function follows the C ABI: it keeps the stack pointer and the callee-saved registers,
and what lies above the stack pointer.  `sbi_dispatch(mcause, regs)` writes the frame only at
`regs[10]` and `regs[11]` and only for an `ecall` out of S-mode, and no CSR but `mip`. -/
structure AbiCall (h h' : Hart) : Prop where
  sp : h'.x 2 = h.x 2
  calleeSaved : ∀ r ∈ [8, 9, 18, 19, 20, 21, 22, 23, 24, 25, 26, 27], h'.x r = h.x r
  stack : ∀ i : BitVec 64, i.toNat < 16 → h'.mem (h.x 2 + i) = h.mem (h.x 2 + i)
  frame : ∀ i : BitVec 64, i.toNat < 32 * 8 →
    (h.x 10 = 9 → i.toNat < 10 * 8 ∨ 12 * 8 ≤ i.toNat) → h'.mem (h.x 11 + i) = h.mem (h.x 11 + i)
  csr : h'.csr = { h.csr with mipSw := h'.csr.mipSw }

/-! ## Straight-line code -/

def Instr.straight : Instr → Bool
  | .bne .. | .call | .mret => false
  | _ => true

theorem runCode_append (callee : Hart → Option Hart) (block code : List Instr)
    (hblock : ∀ i ∈ block, i.straight = true) (h : Hart) :
    runCode callee 0 (block ++ code) h = runCode callee 0 code (block.foldl Hart.exec h) := by
  induction block generalizing h with
  | nil => rfl
  | cons i block ih =>
    have hi := hblock i List.mem_cons_self
    have hrest := ih (fun j hj ↦ hblock j (List.mem_cons_of_mem _ hj)) (h.exec i)
    cases i with
    | bne rs1 rs2 skipped => exact absurd hi Bool.false_ne_true
    | call => exact absurd hi Bool.false_ne_true
    | mret => exact absurd hi Bool.false_ne_true
    | _ => exact hrest

theorem runCode_skip (callee : Hart → Option Hart) (block code : List Instr) (h : Hart) :
    runCode callee block.length (block ++ code) h = runCode callee 0 code h := by
  induction block with
  | nil => rfl
  | cons i block ih => exact ih

/-! ## CSR accesses -/

namespace Hart

variable (h : Hart)

theorem exec_csrrw_mscratch (rd rs1 : BitVec 5) :
    h.exec (.csrrw rd csrAddrMscratch rs1) =
      { h with csr := { h.csr with mscratch := h.reg rs1 } }.setReg rd h.csr.mscratch := rfl

theorem exec_csrw_mscratch (rs1 : BitVec 5) :
    h.exec (.csrw csrAddrMscratch rs1) = { h with csr := { h.csr with mscratch := h.reg rs1 } } := rfl

theorem exec_csrw_mepc (rs1 : BitVec 5) :
    h.exec (.csrw csrAddrMepc rs1) = { h with csr := { h.csr with mepc := h.reg rs1 } } := rfl

/-- A read writes back the value read. -/
theorem exec_csrr_mscratch (rd : BitVec 5) :
    h.exec (.csrr rd csrAddrMscratch) = h.setReg rd h.csr.mscratch := by
  have hset : h.exec (.csrr rd csrAddrMscratch) =
      { h with csr := { h.csr with mscratch := h.csr.mscratch ||| 0#64 } }.setReg rd
        h.csr.mscratch := rfl
  rw [hset, BitVec.or_zero]

theorem exec_csrr_mepc (rd : BitVec 5) :
    h.exec (.csrr rd csrAddrMepc) = h.setReg rd h.csr.mepc := by
  have hset : h.exec (.csrr rd csrAddrMepc) =
      { h with csr := { h.csr with mepc := h.csr.mepc ||| 0#64 } }.setReg rd h.csr.mepc := rfl
  rw [hset, BitVec.or_zero]

theorem exec_csrr_mcause (rd : BitVec 5) :
    h.exec (.csrr rd csrAddrMcause) = h.setReg rd h.csr.mcause := by
  have hset : h.exec (.csrr rd csrAddrMcause) =
      { h with csr := { h.csr with mcause := h.csr.mcause ||| 0#64 } }.setReg rd h.csr.mcause := rfl
  rw [hset, BitVec.or_zero]

end Hart

/-! ## Saving and restoring -/

/-- Two doublewords that do not overlap. -/
def Apart (a b : BitVec 64) : Prop := 8 ≤ (b - a).toNat ∧ (b - a).toNat + 8 ≤ 2 ^ 64

theorem slot_apart (base : BitVec 64) {r r' : BitVec 5} (h : r ≠ r') :
    Apart (base + slot r) (base + slot r') := by
  have hne : r.toNat ≠ r'.toNat := fun heq ↦ h (BitVec.eq_of_toNat_eq heq)
  have hlt := r.isLt
  have hlt' := r'.isLt
  unfold Apart slot
  bv_omega

/-- The saves store each register in its own slot. -/
theorem foldl_save (rs : List (BitVec 5)) (h : Hart) :
    ∃ m, (rs.map fun r ↦ Instr.sd r (slot r) 5).foldl Hart.exec h = { h with mem := m } ∧
      (∀ r ∈ rs, loadD m (h.x 5 + slot r) = h.reg r) ∧
      ∀ a, (∀ r ∈ rs, Apart (h.x 5 + slot r) a) → loadD m a = loadD h.mem a := by
  induction rs generalizing h with
  | nil => exact ⟨h.mem, rfl, by simp, fun _ _ ↦ rfl⟩
  | cons r rs ih =>
    obtain ⟨m, hrun, hin, hout⟩ := ih (h.exec (.sd r (slot r) 5))
    refine ⟨m, hrun, ?_, ?_⟩
    · intro r' hr'
      by_cases hmem : r' ∈ rs
      · exact hin r' hmem
      · obtain rfl : r' = r := by simpa [hmem] using hr'
        refine (hout (h.x 5 + slot r') (fun q hq ↦ slot_apart _ ?_)).trans (loadD_storeD _ _ _)
        rintro rfl
        exact hmem hq
    · intro a ha
      refine (hout a (fun q hq ↦ ha q (List.mem_cons_of_mem _ hq))).trans ?_
      exact loadD_storeD_of_apart (ha r List.mem_cons_self)

/-- The restores load each register from its own slot. -/
theorem foldl_restore (rs : List (BitVec 5)) (hrs : ∀ r ∈ rs, r ≠ 0 ∧ r ≠ 5) (h : Hart) :
    ∃ x, (rs.map fun r ↦ Instr.ld r (slot r) 5).foldl Hart.exec h = { h with x := x } ∧
      (∀ r ∈ rs, x r = loadD h.mem (h.x 5 + slot r)) ∧ ∀ r, r ∉ rs → x r = h.x r := by
  induction rs generalizing h with
  | nil => exact ⟨h.x, rfl, by simp, fun _ _ ↦ rfl⟩
  | cons r rs ih =>
    obtain ⟨hr0, hr5⟩ := hrs r List.mem_cons_self
    have hexec : h.exec (.ld r (slot r) 5) =
        { h with x := Function.update h.x r (loadD h.mem (h.x 5 + slot r)) } := if_neg hr0
    obtain ⟨x, hrun, hin, hout⟩ :=
      ih (fun q hq ↦ hrs q (List.mem_cons_of_mem _ hq)) (h.exec (.ld r (slot r) 5))
    rw [hexec] at hrun hin hout
    have hbase : Function.update h.x r (loadD h.mem (h.x 5 + slot r)) 5 = h.x 5 :=
      Function.update_of_ne hr5.symm _ _
    simp only [hbase] at hin
    refine ⟨x, ?_, ?_, ?_⟩
    · rw [List.map_cons, List.foldl_cons, hexec]
      exact hrun
    · intro r' hr'
      by_cases hmem : r' ∈ rs
      · exact hin r' hmem
      · obtain rfl : r' = r := by simpa [hmem] using hr'
        exact (hout r' hmem).trans (Function.update_self ..)
    · intro r' hr'
      rw [List.mem_cons, not_or] at hr'
      exact (hout r' hr'.2).trans (Function.update_of_ne hr'.1 _ _)

/-! ## From the trap to the call -/

/-- The state at the call, from the state after the saves. -/
theorem foldl_call (L : Layout) (g : Hart) :
    ((callCode L).foldl Hart.exec g).mem =
        storeD (storeD g.mem (g.x 5 + slot 5) g.csr.mscratch) (L.trapStackTop - 16) (g.x 5) ∧
      ((callCode L).foldl Hart.exec g).csr = { g.csr with mscratch := g.x 5 } ∧
      ((callCode L).foldl Hart.exec g).x 2 = L.trapStackTop - 16 ∧
      ((callCode L).foldl Hart.exec g).x 10 = g.csr.mcause ∧
      ((callCode L).foldl Hart.exec g).x 11 = g.x 5 := by
  have hcode : (callCode L).foldl Hart.exec g =
      let g := (g.setReg 6 g.csr.mscratch).exec (.sd 6 (slot 5) 5)
      let g := { g with csr := { g.csr with mscratch := g.x 5 } }
      let g := ((g.exec (.la 2 L.trapStackTop)).exec (.addi 2 2 (-16))).exec (.sd 5 0 2)
      (g.setReg 10 g.csr.mcause).exec (.mv 11 5) := by
    simp only [callCode, List.foldl_cons, List.foldl_nil, Hart.exec_csrr_mscratch,
      Hart.exec_csrw_mscratch, Hart.exec_csrr_mcause]
    rfl
  have hsp : L.trapStackTop - 16 = L.trapStackTop + -16 + 0 := by bv_omega
  rw [hcode, hsp]
  exact ⟨rfl, rfl, (BitVec.add_zero _).symm, rfl, rfl⟩

/-- What the handler has set up when it calls: the frame holds the registers of the interrupted
code, and the pointer to it is on the stack and again in `mscratch`. -/
structure AtCall (L : Layout) (h hc : Hart) : Prop where
  frame : ∀ r, r ≠ 0 → loadD hc.mem (L.trapScratch + slot r) = h.x r
  pushed : loadD hc.mem (hc.x 2) = L.trapScratch
  sp : hc.x 2 = L.trapStackTop - 16
  a0 : hc.x 10 = h.csr.mcause
  a1 : hc.x 11 = L.trapScratch
  csr : hc.csr = h.csr

theorem stack_apart (L : Layout) (r : BitVec 5) :
    Apart (L.trapStackTop - 16) (L.trapScratch + slot r) ∧
      Apart (L.trapScratch + slot r) (L.trapStackTop - 16) := by
  have hr := r.isLt
  have hL := L.apart
  have htop := L.trapStackTop.isLt
  have hscratch : (L.trapScratch + slot r).toNat = L.trapScratch.toNat + r.toNat * 8 := by
    unfold slot
    bv_omega
  have hstack : (L.trapStackTop - 16).toNat = L.trapStackTop.toNat - 16 := by
    bv_omega
  unfold Apart
  bv_omega

theorem atCall (L : Layout) {h : Hart} (hs : h.csr.mscratch = L.trapScratch) :
    AtCall L h ((.csrrw 5 csrAddrMscratch 5 :: saveCode ++ callCode L).foldl Hart.exec h) := by
  -- after the swap
  have hswap : h.exec (.csrrw 5 csrAddrMscratch 5) =
      { h with csr := { h.csr with mscratch := h.x 5 },
               x := Function.update h.x 5 L.trapScratch } := by
    rw [Hart.exec_csrrw_mscratch, ← hs]
    rfl
  obtain ⟨m, hsave, hin, hout⟩ := foldl_save savedRegs
    { h with csr := { h.csr with mscratch := h.x 5 }, x := Function.update h.x 5 L.trapScratch }
  have hbase : Function.update h.x 5 L.trapScratch 5 = L.trapScratch := Function.update_self ..
  simp only [hbase] at hin hout
  obtain ⟨hmem, hcsr, hsp, ha0, ha1⟩ := foldl_call L
    { h with csr := { h.csr with mscratch := h.x 5 }, mem := m,
             x := Function.update h.x 5 L.trapScratch }
  rw [List.cons_append, List.foldl_cons, hswap, List.foldl_append, saveCode, hsave]
  simp only [hbase] at hmem hcsr ha1
  refine ⟨?_, ?_, hsp, ha0, ha1, ?_⟩
  · intro r hr
    rw [hmem, loadD_storeD_of_apart (stack_apart L r).1]
    by_cases h5 : r = 5
    · subst h5
      exact loadD_storeD _ _ _
    · rw [loadD_storeD_of_apart (slot_apart _ (Ne.symm h5))]
      have hsaved : r ∈ savedRegs := by
        revert r
        decide
      rw [hin r hsaved]
      exact (if_neg hr).trans (Function.update_of_ne h5 _ _)
  · rw [hsp, hmem, loadD_storeD]
  · rw [hcsr, ← hs]

/-! ## From the return to `mret` -/

theorem foldl_return (g : Hart) (base : BitVec 64) (hpop : loadD g.mem (g.x 2) = base) :
    (returnCode.foldl Hart.exec g).mem = g.mem ∧ (returnCode.foldl Hart.exec g).csr = g.csr ∧
      (returnCode.foldl Hart.exec g).x 5 = base ∧
      (returnCode.foldl Hart.exec g).reg 6 = g.csr.mcause ∧
      (returnCode.foldl Hart.exec g).reg 7 = 9 := by
  have hcode : returnCode.foldl Hart.exec g =
      let g := (g.exec (.ld 5 0 2)).exec (.addi 2 2 16)
      (g.setReg 6 g.csr.mcause).exec (.li 7 9) := by
    simp only [returnCode, List.foldl_cons, List.foldl_nil, Hart.exec_csrr_mcause]
  rw [hcode]
  refine ⟨rfl, rfl, ?_, rfl, rfl⟩
  change loadD g.mem (g.x 2 + 0) = base
  rw [show g.x 2 + 0 = g.x 2 from BitVec.add_zero _, hpop]

theorem foldl_skipEcall (g : Hart) :
    (skipEcall.foldl Hart.exec g).mem = g.mem ∧ (skipEcall.foldl Hart.exec g).x 5 = g.x 5 ∧
      (skipEcall.foldl Hart.exec g).csr = { g.csr with mepc := g.csr.mepc + 4 } := by
  have hcode : skipEcall.foldl Hart.exec g =
      let g := (g.setReg 6 g.csr.mepc).exec (.addi 6 6 4)
      { g with csr := { g.csr with mepc := g.reg 6 } } := by
    simp only [skipEcall, List.foldl_cons, List.foldl_nil, Hart.exec_csrr_mepc, Hart.exec_csrw_mepc]
  rw [hcode]
  exact ⟨rfl, rfl, rfl⟩

/-- The restores, the base register last. -/
theorem runCode_restore (callee : Hart → Option Hart) (g : Hart) :
    ∃ x, runCode callee 0 (restoreCode ++ [.ld 5 (slot 5) 5, .mret]) g =
        some { g with x := x }.mret ∧
      ∀ r, r ≠ 0 → x r = loadD g.mem (g.x 5 + slot r) := by
  obtain ⟨x, hrun, hin, hout⟩ := foldl_restore savedRegs (by decide) g
  have hstraight : ∀ i ∈ restoreCode, i.straight = true := by
    intro i hi
    obtain ⟨r, -, rfl⟩ := List.mem_map.mp hi
    rfl
  refine ⟨Function.update x 5 (loadD g.mem (g.x 5 + slot 5)), ?_, ?_⟩
  · rw [runCode_append callee _ _ hstraight, restoreCode, hrun, ← hout 5 (by decide)]
    rfl
  · intro r hr
    by_cases h5 : r = 5
    · subst h5
      exact Function.update_self ..
    · have hsaved : r ∈ savedRegs := by
        revert r
        decide
      rw [Function.update_of_ne h5, hin r hsaved]

/-- From the return on, the registers come from the frame, and an `ecall` is stepped over. -/
theorem runCode_return (callee : Hart → Option Hart) {g : Hart} {base : BitVec 64}
    (hpop : loadD g.mem (g.x 2) = base) :
    ∃ x, runCode callee 0 (returnCode ++ .bne 6 7 3 :: skipEcall ++ restoreCode ++
        [.ld 5 (slot 5) 5, .mret]) g =
        some { g with
          x := x
          csr := { g.csr with
            mepc := g.csr.mepc + if g.csr.mcause = 9 then 4 else 0 } }.mret ∧
      ∀ r, r ≠ 0 → x r = loadD g.mem (base + slot r) := by
  obtain ⟨hmem, hcsr, h5, h6, h7⟩ := foldl_return g base hpop
  have hstraight : ∀ i ∈ returnCode, i.straight = true := by decide
  have hskip : ∀ i ∈ skipEcall, i.straight = true := by decide
  set g1 := returnCode.foldl Hart.exec g with hg1
  have hpc : g1.pc = g.pc := by
    simp only [hg1, returnCode, List.foldl_cons, List.foldl_nil, Hart.exec_csrr_mcause]
    rfl
  have hbranch : runCode callee 0 (returnCode ++ .bne 6 7 3 :: skipEcall ++ restoreCode ++
        [.ld 5 (slot 5) 5, .mret]) g =
      runCode callee (if g1.reg 6 ≠ g1.reg 7 then 3 else 0)
        (skipEcall ++ (restoreCode ++ [.ld 5 (slot 5) 5, .mret])) g1 := by
    rw [List.append_assoc, List.append_assoc, runCode_append callee _ _ hstraight, List.cons_append]
    rfl
  rw [hbranch, h6, h7]
  by_cases hcause : g.csr.mcause = 9
  · obtain ⟨hmem2, h52, hcsr2⟩ := foldl_skipEcall g1
    have hpc2 : (skipEcall.foldl Hart.exec g1).pc = g1.pc := by
      simp only [skipEcall, List.foldl_cons, List.foldl_nil, Hart.exec_csrr_mepc,
        Hart.exec_csrw_mepc]
      rfl
    obtain ⟨x, hrun, hx⟩ := runCode_restore callee (skipEcall.foldl Hart.exec g1)
    refine ⟨x, ?_, ?_⟩
    · rw [if_neg (not_not.mpr hcause), runCode_append callee _ _ hskip, hrun, hmem2, hmem, hcsr2,
        hcsr, hpc2, hpc, if_pos hcause]
    · intro r hr
      rw [hx r hr, hmem2, hmem, h52, h5]
  · obtain ⟨x, hrun, hx⟩ := runCode_restore callee g1
    refine ⟨x, ?_, ?_⟩
    · rw [if_pos hcause, show 3 = skipEcall.length from rfl, runCode_skip, hrun, hmem, hcsr, hpc,
        if_neg hcause, show g.csr.mepc + 0 = g.csr.mepc from BitVec.add_zero _]
    · intro r hr
      rw [hx r hr, hmem, h5]

/-! ## The handler -/

/-- The registers, the resume address and the CSRs when the handler returns. -/
structure TrapServed (L : Layout) (h h' : Hart) : Prop where
  regs : ∀ r, r ≠ 0 → (h.csr.mcause = 9 → r ≠ 10 ∧ r ≠ 11) → h'.x r = h.x r
  pc : h'.pc = h.csr.mepc + if h.csr.mcause = 9 then 4 else 0
  csr : ∃ pending, h'.csr = Csr.next
    { h.csr with mipSw := pending, mepc := h'.pc } (Counters.reset 64)
      { msip := false, timer := false, ext := false } (CsrOp.mret (w := 64)).input

/-- The called function leaves the slots alone that it is not allowed to write. -/
theorem frame_of_abi {L : Layout} {h hc h' : Hart} (hcall : AtCall L h hc) (habi : AbiCall hc h')
    {r : BitVec 5} (hr : r ≠ 0) (hret : h.csr.mcause = 9 → r ≠ 10 ∧ r ≠ 11) :
    loadD h'.mem (L.trapScratch + slot r) = h.x r := by
  rw [← hcall.frame r hr]
  apply loadD_congr
  intro i hi
  have hlt := r.isLt
  have hslot : (slot r + i).toNat = r.toNat * 8 + i.toNat := by
    unfold slot
    bv_omega
  have hsum : L.trapScratch + slot r + i = hc.x 11 + (slot r + i) := by
    rw [hcall.a1, BitVec.add_assoc]
  rw [hsum]
  refine habi.frame _ (by omega) (fun ha0 ↦ ?_)
  obtain ⟨h10, h11⟩ := hret (hcall.a0 ▸ ha0)
  have h10' : r.toNat ≠ 10 := fun heq ↦ h10 (BitVec.eq_of_toNat_eq heq)
  have h11' : r.toNat ≠ 11 := fun heq ↦ h11 (BitVec.eq_of_toNat_eq heq)
  omega

/-- The handler returns exactly if the function it calls does. -/
theorem runCode_trapEntry (L : Layout) {h : Hart} (hs : h.csr.mscratch = L.trapScratch)
    {callee : Hart → Option Hart} (habi : ∀ g g', callee g = some g' → AbiCall g g') :
    ∃ hc, AtCall L h hc ∧
      ((callee hc = none ∧ runCode callee 0 (trapEntry L) h = none) ∨
        ∃ g h', callee hc = some g ∧ runCode callee 0 (trapEntry L) h = some h' ∧ TrapServed L h h') := by
  have hcall := atCall L hs
  set hc := (Instr.csrrw 5 csrAddrMscratch 5 :: saveCode ++ callCode L).foldl Hart.exec h with hhc
  have hstraight : ∀ i ∈ Instr.csrrw 5 csrAddrMscratch 5 :: saveCode ++ callCode L,
      i.straight = true := by
    intro i hi
    simp only [List.cons_append, List.mem_cons, List.mem_append] at hi
    rcases hi with rfl | hi | hi
    · rfl
    · obtain ⟨r, -, rfl⟩ := List.mem_map.mp hi
      rfl
    · simp only [callCode, List.mem_cons, List.not_mem_nil, or_false] at hi
      rcases hi with rfl | rfl | rfl | rfl | rfl | rfl | rfl | rfl <;> rfl
  have hrun : runCode callee 0 (trapEntry L) h = (callee hc).bind (runCode callee 0
      (returnCode ++ .bne 6 7 3 :: skipEcall ++ restoreCode ++ [.ld 5 (slot 5) 5, .mret])) := by
    have hshape : trapEntry L = (.csrrw 5 csrAddrMscratch 5 :: saveCode ++ callCode L) ++
        .call :: (returnCode ++ .bne 6 7 3 :: skipEcall ++ restoreCode ++
          [.ld 5 (slot 5) 5, .mret]) := by
      simp only [trapEntry, List.cons_append, List.append_assoc]
    rw [hshape, runCode_append callee _ _ hstraight]
    rfl
  refine ⟨hc, hcall, ?_⟩
  cases hret : callee hc with
  | none => exact .inl ⟨rfl, by rw [hrun, hret]; rfl⟩
  | some g =>
    have hg := habi hc g hret
    have hpop : loadD g.mem (g.x 2) = L.trapScratch := by
      rw [← hcall.pushed, hg.sp]
      exact loadD_congr (fun i hi ↦ hg.stack i (by omega))
    obtain ⟨x, hx, hregs⟩ := runCode_return callee hpop
    have hmcause : g.csr.mcause = h.csr.mcause := by rw [hg.csr, hcall.csr]
    have hmepc : g.csr.mepc = h.csr.mepc := by rw [hg.csr, hcall.csr]
    rw [hmcause, hmepc] at hx
    refine .inr ⟨g, _, rfl, by rw [hrun, hret]; exact hx, ?_, rfl, g.csr.mipSw, ?_⟩
    · intro r hr hr'
      rw [← frame_of_abi hcall hg hr hr']
      exact hregs r hr
    · have hcsr : g.csr = { h.csr with mipSw := g.csr.mipSw } := by
        rw [← hcall.csr]
        exact hg.csr
      change Csr.next { g.csr with mepc := _ } _ _ _ = _
      rw [hcsr]
      rfl

/-! ## The interrupted code -/

/-- The traps that the firmware serves. -/
inductive TrapKind where
  | ecallFromS | machineTimer
  deriving DecidableEq

def TrapKind.isInterrupt : TrapKind → Bool
  | .ecallFromS => false
  | .machineTimer => true

def TrapKind.cause : TrapKind → BitVec 31
  | .ecallFromS => BitVec.ofNat 31 mcauseEcallFromS
  | .machineTimer => BitVec.ofNat 31 mcauseIntMachineTimer

/-- What code below M-mode can do to the CSR file without entering M-mode: accesses and returns that
its mode permits, and traps that are delegated to S-mode. -/
inductive BelowM : Csr 64 → Csr 64 → Prop where
  | refl (c : Csr 64) : BelowM c c
  | step {c c' : Csr 64} (k : Counters 64) (p : Pending) (op : CsrOp 64) : BelowM c c' →
    op.permitted c'.privMode = true →
    (∀ isInterrupt cause pc tval, op = .trap isInterrupt cause pc tval →
      c'.privState.toS isInterrupt cause = true) →
    BelowM c (c'.next k p op.input)

/-- What the firmware set up before it entered S-mode, as far as the handler depends on it. -/
structure Ready (L : Layout) (c : Csr 64) : Prop where
  mscratch : c.mscratch = L.trapScratch
  mtvec : c.mtvec = L.trapEntry
  medeleg : c.medeleg.getLsbD mcauseEcallFromS = false
  mideleg : c.mideleg.getLsbD mcauseIntMachineTimer = false
  mode : c.privMode = privS ∨ c.privMode = privU

/-- A CSR address that needs M-mode is out of reach. -/
theorem not_machine_addr {priv : BitVec 2} (hpriv : priv = privS ∨ priv = privU) {fn : CsrFn}
    {addr : BitVec 12} {wdata : BitVec 64}
    (h : (CsrOp.access fn addr wdata).permitted priv = true) :
    addr ≠ csrAddrMscratch ∧ addr ≠ csrAddrMtvec ∧ addr ≠ csrAddrMedeleg ∧
      addr ≠ csrAddrMideleg := by
  have hno : ∀ a : BitVec 12, a.extractLsb' 8 2 = 0b11#2 → addr ≠ a := by
    rintro a ha rfl
    rw [CsrOp.permitted, ha] at h
    rcases hpriv with rfl | rfl <;> exact absurd h (by decide)
  exact ⟨hno _ rfl, hno _ rfl, hno _ rfl, hno _ rfl⟩

theorem Ready.step {L : Layout} {c : Csr 64} (h : Ready L c) (k : Counters 64) (p : Pending)
    (op : CsrOp 64) (hperm : op.permitted c.privMode = true)
    (hdeleg : ∀ isInterrupt cause pc tval, op = .trap isInterrupt cause pc tval →
      c.privState.toS isInterrupt cause = true) : Ready L (c.next k p op.input) := by
  cases op with
  | access fn addr wdata =>
    obtain ⟨h1, h2, h3, h4⟩ := not_machine_addr h.mode hperm
    constructor
    all_goals simp only [Csr.next, Csr.nextWith, CsrOp.input, CsrIn.idle, Bool.true_and,
      beq_false_of_ne h1, beq_false_of_ne h2, beq_false_of_ne h3, beq_false_of_ne h4]
    · exact h.mscratch
    · exact h.mtvec
    · exact h.medeleg
    · exact h.mideleg
    · exact h.mode
  | trap isInterrupt cause pc tval =>
    have hS := Csr.privState_next (c := c) (k := k) (p := p) (by decide)
      (.trap isInterrupt cause pc tval)
    rw [PrivState.apply, if_pos (hdeleg _ _ _ _ rfl)] at hS
    exact ⟨h.mscratch, h.mtvec, h.medeleg, h.mideleg, .inl (congrArg PrivState.priv hS)⟩
  | mret =>
    rcases h.mode with hS | hU
    · rw [hS] at hperm
      exact absurd hperm Bool.false_ne_true
    · rw [hU] at hperm
      exact absurd hperm Bool.false_ne_true
  | sret =>
    refine ⟨h.mscratch, h.mtvec, h.medeleg, h.mideleg, ?_⟩
    change 0#1 ++ BitVec.ofBool (c.mstatus.getLsbD mstatusSppBit) = privS ∨
      0#1 ++ BitVec.ofBool (c.mstatus.getLsbD mstatusSppBit) = privU
    cases c.mstatus.getLsbD mstatusSppBit
    · exact .inr rfl
    · exact .inl rfl

theorem Ready.below {L : Layout} {c c' : Csr 64} (h : Ready L c) (hrun : BelowM c c') :
    Ready L c' := by
  induction hrun with
  | refl => exact h
  | step k p op _ hperm hdeleg ih => exact ih.step k p op hperm hdeleg

/-! ## Episodes -/

/-- The interrupted code goes on for a while, then a trap is taken and served; `callee` is what the
compiled `sbi_dispatch` makes of the hart in this trap. -/
structure Episode where
  below : Hart → Hart
  kind : TrapKind
  callee : Hart → Option Hart

structure Episode.Ok (e : Episode) : Prop where
  below : ∀ h, BelowM h.csr (e.below h).csr
  abi : ∀ g g', e.callee g = some g' → AbiCall g g'

/-- The hart at `trap_entry`. -/
def Episode.entered (e : Episode) (h : Hart) : Hart :=
  (e.below h).trap e.kind.isInterrupt e.kind.cause

def Episode.serve (L : Layout) (e : Episode) (h : Hart) : Option Hart :=
  runCode e.callee 0 (trapEntry L) (e.entered h)

/-- The hart below M-mode after `n` traps. -/
def afterTraps (L : Layout) (h : Hart) (es : ℕ → Episode) : ℕ → Option Hart
  | 0 => some h
  | n + 1 => (afterTraps L h es n).bind ((es n).serve L)

/-- What the interrupted code sees of a trap. -/
structure Transparent (L : Layout) (kind : TrapKind) (h h' : Hart) : Prop where
  regs : ∀ r, r ≠ 0 → (kind = .ecallFromS → r ≠ 10 ∧ r ≠ 11) → h'.x r = h.x r
  mepc : h'.csr.mepc = h.pc + if kind = .ecallFromS then 4 else 0
  pc : h'.pc = h'.csr.mepc
  mode : h'.csr.privMode = h.csr.privMode
  mscratch : h'.csr.mscratch = L.trapScratch

/-- A trap out of code below M-mode goes to `trap_entry`. -/
structure Entered (L : Layout) (kind : TrapKind) (h g : Hart) : Prop where
  x : g.x = h.x
  pc : g.pc = L.trapEntry
  mscratch : g.csr.mscratch = L.trapScratch
  mepc : g.csr.mepc = h.pc
  mcause : g.csr.mcause = if kind = .ecallFromS then 9 else 0x80000007
  others : g.csr.mtvec = h.csr.mtvec ∧ g.csr.medeleg = h.csr.medeleg ∧ g.csr.mideleg = h.csr.mideleg
  mpp : g.csr.mstatus.extractLsb' mstatusMppLo 2 = h.csr.privMode

theorem entered_of_ready {L : Layout} {h : Hart} (hr : Ready L h.csr) (kind : TrapKind) :
    Entered L kind h (h.trap kind.isInterrupt kind.cause) := by
  have hto : h.csr.privState.toS kind.isInterrupt kind.cause = false := by
    rw [PrivState.toS]
    cases kind with
    | ecallFromS =>
      have hbit : h.csr.privState.medeleg 9 = false := hr.medeleg
      simp only [TrapKind.isInterrupt, TrapKind.cause]
      rw [Bool.and_eq_false_iff]
      exact .inr hbit
    | machineTimer =>
      have hbit : h.csr.privState.mideleg 7 = false := hr.mideleg
      simp only [TrapKind.isInterrupt, TrapKind.cause]
      rw [Bool.and_eq_false_iff]
      exact .inr hbit
  have htarget := Csr.trapTargetIsS_input (c := h.csr) (by decide) kind.isInterrupt kind.cause h.pc 0
  rw [hto] at htarget
  have hstack := Csr.privState_next (c := h.csr) (k := Counters.reset 64)
    (p := { msip := false, timer := false, ext := false }) (by decide)
    (.trap kind.isInterrupt kind.cause h.pc 0)
  rw [PrivState.apply, hto, if_neg Bool.false_ne_true] at hstack
  refine ⟨rfl, ?_, hr.mscratch, ?_, ?_, ⟨rfl, rfl, rfl⟩, ?_⟩
  · simp only [Hart.trap, hto]
    exact hr.mtvec
  · simp only [Hart.trap, Csr.next, Csr.nextWith, htarget]
    rfl
  · simp only [Hart.trap, Csr.next, Csr.nextWith, htarget]
    change Csr.causeWord kind.isInterrupt (kind.cause.setWidth 64) = _
    cases kind <;> decide
  · rw [Csr.mpp_bits]
    have hm := congrArg PrivState.mstatus hstack
    have h12 : (h.trap kind.isInterrupt kind.cause).csr.mstatus.getLsbD (mstatusMppLo + 1) =
        h.csr.privMode.getLsbD 1 := congrFun hm (mstatusMppLo + 1)
    have h11 : (h.trap kind.isInterrupt kind.cause).csr.mstatus.getLsbD mstatusMppLo =
        h.csr.privMode.getLsbD 0 := congrFun hm mstatusMppLo
    rw [h12, h11]
    rcases hr.mode with hS | hU
    · rw [hS]
      rfl
    · rw [hU]
      rfl

theorem transparent_of_trapServed {L : Layout} {kind : TrapKind} {h g h' : Hart}
    (hin : Entered L kind h g) (hout : TrapServed L g h') : Transparent L kind h h' := by
  have hcause : g.csr.mcause = 9 ↔ kind = .ecallFromS := by
    rw [hin.mcause]
    cases kind <;> decide
  obtain ⟨pending, hcsr⟩ := hout.csr
  have hpc := hout.pc
  simp only [hcause, hin.mepc] at hpc
  refine ⟨?_, ?_, ?_, ?_, ?_⟩
  · intro r hr hkind
    rw [hout.regs r hr (fun hc ↦ hkind (hcause.mp hc)), hin.x]
  · rw [hcsr, ← hpc]
    rfl
  · rw [hcsr]
    rfl
  · rw [hcsr]
    exact hin.mpp
  · rw [hcsr]
    exact hin.mscratch

/-- The next trap finds what this one found. -/
theorem ready_of_trapServed {L : Layout} {kind : TrapKind} {h g h' : Hart} (hr : Ready L h.csr)
    (hin : Entered L kind h g) (hout : TrapServed L g h') : Ready L h'.csr := by
  have ht := transparent_of_trapServed hin hout
  obtain ⟨hmtvec, hmedeleg, hmideleg⟩ := hin.others
  obtain ⟨pending, hcsr⟩ := hout.csr
  refine ⟨ht.mscratch, ?_, ?_, ?_, ?_⟩
  · rw [hcsr]
    exact hmtvec.trans hr.mtvec
  · rw [hcsr]
    exact (congrArg (BitVec.getLsbD · mcauseEcallFromS) hmedeleg).trans hr.medeleg
  · rw [hcsr]
    exact (congrArg (BitVec.getLsbD · mcauseIntMachineTimer) hmideleg).trans hr.mideleg
  · rw [ht.mode]
    exact hr.mode

theorem ready_after {L : Layout} {h₀ : Hart} (h₀r : Ready L h₀.csr) {es : ℕ → Episode}
    (hes : ∀ n, (es n).Ok) {n : ℕ} {h : Hart} (hn : afterTraps L h₀ es n = some h) :
    Ready L h.csr := by
  induction n generalizing h with
  | zero =>
    obtain rfl : h₀ = h := by simpa [afterTraps] using hn
    exact h₀r
  | succ n ih =>
    obtain ⟨g, hg, hserve⟩ := Option.bind_eq_some_iff.mp hn
    have hbelow := (ih hg).below ((hes n).below g)
    have hin := entered_of_ready hbelow (es n).kind
    obtain ⟨hc, -, ⟨-, hnone⟩ | ⟨_, h', -, hrun, hout⟩⟩ :=
      runCode_trapEntry L hin.mscratch (hes n).abi
    · exact absurd (hserve.symm.trans hnone) (Option.some_ne_none _)
    · obtain rfl : h = h' := Option.some_inj.mp (hserve.symm.trans hrun)
      exact ready_of_trapServed hbelow hin hout

/-- Every trap of every sequence of traps enters `trap_entry` with the frame in `mscratch`, returns
exactly if `sbi_dispatch` does, and is transparent when it returns. -/
theorem traps_transparent (L : Layout) {h₀ : Hart} (h₀r : Ready L h₀.csr) (es : ℕ → Episode)
    (hes : ∀ n, (es n).Ok) (n : ℕ) {h : Hart} (hn : afterTraps L h₀ es n = some h) :
    Entered L (es n).kind ((es n).below h) ((es n).entered h) ∧
      (∃ hc, AtCall L ((es n).entered h) hc ∧
        (afterTraps L h₀ es (n + 1) = none ↔ (es n).callee hc = none)) ∧
      ∀ h', afterTraps L h₀ es (n + 1) = some h' →
        Transparent L (es n).kind ((es n).below h) h' := by
  have hbelow := (ready_after h₀r hes hn).below ((hes n).below h)
  have hin := entered_of_ready hbelow (es n).kind
  have hnext : afterTraps L h₀ es (n + 1) = (es n).serve L h := by
    rw [afterTraps, hn]
    rfl
  rw [hnext]
  obtain ⟨hc, hcall, ⟨hcallee, hnone⟩ | ⟨g, h', hcallee, hrun, hout⟩⟩ :=
    runCode_trapEntry L hin.mscratch (hes n).abi
  · refine ⟨hin, ⟨hc, hcall, iff_of_true hnone hcallee⟩, fun h' hh' ↦ ?_⟩
    exact absurd (hh'.symm.trans hnone) (Option.some_ne_none _)
  · have hsome : (es n).serve L h = some h' := hrun
    refine ⟨hin, ⟨hc, hcall, ?_⟩, fun h'' hh'' ↦ ?_⟩
    · rw [hsome, hcallee]
      simp
    · obtain rfl : h'' = h' := Option.some_inj.mp (hh''.symm.trans hsome)
      exact transparent_of_trapServed hin hout

/-! A first `ecall`, answered by a function that clobbers `t0` and stores a result. -/

def smallLayout : Layout where
  trapEntry := 0x100
  trapScratch := 0x4000
  trapStackTop := 0x8000
  apart := by decide

def supervisorHart : Hart where
  x := fun r ↦ r.setWidth 64 + 0x100
  mem := fun _ ↦ 0
  csr := { Csr.reset 64 with mscratch := 0x4000, mtvec := 0x100, mideleg := 0x22, privMode := privS }
  pc := 0x2000

def answerEcall (h : Hart) : Option Hart :=
  if h.x 2 = 0x7FF0 ∧ h.x 11 = 0x4000 ∧ h.x 10 = 9 then
    some { h with
      x := Function.update (Function.update h.x 5 0) 10 0
      mem := storeD h.mem (0x4000 + slot 10) 1 }
  else none

def ecallEpisode : Episode where
  below := id
  kind := .ecallFromS
  callee := answerEcall

theorem ecallEpisode_ok : ecallEpisode.Ok := by
  refine ⟨fun h ↦ .refl _, fun g g' hg ↦ ?_⟩
  change answerEcall g = some g' at hg
  rw [answerEcall] at hg
  split_ifs at hg with hcond
  obtain ⟨hsp, ha1, ha0⟩ := hcond
  obtain rfl := Option.some_inj.mp hg
  have hslot : slot 10 = 80 := by decide
  refine ⟨?_, ?_, ?_, ?_, rfl⟩
  · rfl
  · intro r hr
    have hne : r ≠ 10 ∧ r ≠ 5 := by
      revert r
      decide
    exact (Function.update_of_ne hne.1 _ _).trans (Function.update_of_ne hne.2 _ _)
  · intro i hi
    rw [hsp]
    refine if_neg ?_
    rw [hslot]
    bv_omega
  · intro i hi hframe
    have hout := hframe ha0
    rw [ha1]
    refine if_neg ?_
    rw [hslot]
    bv_omega

theorem traps_transparent_ecall :
    ∃ h', afterTraps smallLayout supervisorHart (fun _ ↦ ecallEpisode) 1 = some h' ∧
      Transparent smallLayout .ecallFromS supervisorHart h' := by
  have hready : Ready smallLayout supervisorHart.csr := ⟨rfl, rfl, by decide, by decide, .inl rfl⟩
  obtain ⟨hin, ⟨hc, hcall, hiff⟩, ht⟩ := traps_transparent smallLayout hready
    (fun _ ↦ ecallEpisode) (fun _ ↦ ecallEpisode_ok) 0 rfl
  have hreturns : answerEcall hc ≠ none := by
    have ha0 : hc.x 10 = 9 := hcall.a0.trans hin.mcause
    rw [answerEcall, if_pos ⟨hcall.sp, hcall.a1, ha0⟩]
    exact Option.some_ne_none _
  cases hret : afterTraps smallLayout supervisorHart (fun _ ↦ ecallEpisode) 1 with
  | none => exact absurd (hiff.mp hret) hreturns
  | some h' => exact ⟨h', rfl, ht h' hret⟩

end RvPipeline
