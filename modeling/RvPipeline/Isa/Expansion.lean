import RvPipeline.Isa.Compressed

/-!
# Compressed instruction expansion

Which 16-bit encodings `CompressedExpander.v` turns into a word of the same meaning.  Scaled
offsets are unsigned in the table and extended from their top bit by the module, `c.j` exchanges
bits 8 and 9 of its offset, and two hints become illegal; everything else is right.
-/

namespace Rv64

open RvPipeline

/-! ## When a word stands for an instruction -/

/-- The word has the effect of the instruction, in two bytes; without one it is the illegal word. -/
def Stands (word : BitVec 32) : Option Inst → Prop
  | some i => ∀ h, execWord 2 word h = i.exec 2 h
  | none => word = 0

theorem stands_of_decode {word : BitVec 32} {i : Inst} (h : decode word = some i) :
    Stands word (some i) := by
  intro hart
  rw [execWord, h]

/-- A hart in which only the byte at `a` is set. -/
def probe (a : BitVec 64) : Hart :=
  { pc := 0, x := fun _ ↦ 0, f := fun _ ↦ 0, mem := fun b ↦ if b = a then 1 else 0 }

theorem get_probe (a : BitVec 64) (r : BitVec 5) : (probe a).get r = 0#64 := by
  simp [Hart.get, probe]

theorem not_stands_zero (i : Inst) : ¬Stands 0 (some i) := by
  intro h
  have hzero : execWord 2 0 (probe 0) = .illegal := rfl
  have hi := h (probe 0)
  rw [hzero] at hi
  cases i with
  | load t _ _ _ => cases t <;> cases hi
  | store t _ _ _ => cases t <;> cases hi
  | _ => cases hi

theorem setWidth_load (h : Hart) (a : BitVec 64) : (h.load a).setWidth 8 = h.mem a := by
  unfold Hart.load
  exact BitVec.setWidth_append_eq_right

theorem setWidth_loadWord (h : Hart) (a : BitVec 64) :
    (((h.load a).setWidth 32).signExtend 64).setWidth 8 = h.mem a := by
  rw [← setWidth_load h a]
  apply BitVec.eq_of_getLsbD_eq
  intro i hi
  rw [BitVec.getLsbD_setWidth, BitVec.getLsbD_signExtend, BitVec.getLsbD_setWidth,
    BitVec.getLsbD_setWidth]
  simp [hi, show i < 64 by omega, show i < 32 by omega]

theorem not_stands_load {word : BitVec 32} {t : Width} {d a : BitVec 5} {off off' : BitVec 64}
    (hd : t = .fd ∨ d ≠ 0#5) (h : decode word = some (.load t d a off)) (hne : off ≠ off') :
    ¬Stands word (some (.load t d a off')) := by
  intro hs
  have heff := hs (probe off')
  have hmem : (probe off').mem off ≠ (probe off').mem off' := by simp [probe, hne]
  rw [execWord, h] at heff
  apply hmem
  cases t with
  | w =>
    have hrd : d ≠ 0#5 := by simpa using hd
    have hx := congrArg (fun e ↦ match e with | .next g => g.x d | _ => 0) heff
    simp only [Inst.exec, get_probe, BitVec.zero_add, Hart.set, hrd, if_false, Hart.goto,
      Function.update_self] at hx
    rw [← setWidth_loadWord, hx, setWidth_loadWord]
  | d =>
    have hrd : d ≠ 0#5 := by simpa using hd
    have hx := congrArg (fun e ↦ match e with | .next g => g.x d | _ => 0) heff
    simp only [Inst.exec, get_probe, BitVec.zero_add, Hart.set, hrd, if_false, Hart.goto,
      Function.update_self] at hx
    rw [← setWidth_load, hx, setWidth_load]
  | fd =>
    have hx := congrArg (fun e ↦ match e with | .next g => g.f d | _ => 0) heff
    simp only [Inst.exec, get_probe, BitVec.zero_add, Hart.setF, Hart.goto,
      Function.update_self] at hx
    rw [← setWidth_load, hx, setWidth_load]

/-- A hart in which a store of zero shows. -/
def blank : Hart := { pc := 0, x := fun _ ↦ 0, f := fun _ ↦ 0, mem := fun _ ↦ 0xFF }

theorem store_blank {n : ℕ} {off off' : BitVec 64} (hn : 0 < n) (hfar : n ≤ (off' - off).toNat) :
    (blank.store n off 0#64).mem off' ≠ (blank.store n off' 0#64).mem off' := by
  have hzero : (off' - off').toNat = 0 := by simp
  simp only [Hart.store, hzero]
  rw [if_neg (by omega), if_pos hn, show blank.mem off' = 0xFF#8 from rfl]
  decide

theorem not_stands_store {word : BitVec 32} {t : Width} {b a : BitVec 5} {off off' : BitVec 64}
    (h : decode word = some (.store t b a off)) (hfar : 8 ≤ (off' - off).toNat) :
    ¬Stands word (some (.store t b a off')) := by
  intro hs
  have heff := hs blank
  have hget : ∀ r, blank.get r = 0#64 := by simp [Hart.get, blank]
  rw [execWord, h] at heff
  have hm := congrArg (fun e ↦ match e with | .next g => g.mem off' | _ => 0) heff
  cases t with
  | w =>
    simp only [Inst.exec, hget, BitVec.zero_add, Hart.goto] at hm
    exact store_blank (by decide) (by omega) hm
  | d =>
    simp only [Inst.exec, hget, BitVec.zero_add, Hart.goto] at hm
    exact store_blank (by decide) hfar hm
  | fd =>
    have hf : blank.f b = 0#64 := rfl
    simp only [Inst.exec, hget, hf, BitVec.zero_add, Hart.goto] at hm
    exact store_blank (by decide) hfar hm

theorem not_stands_jal {word : BitVec 32} {off off' : BitVec 64}
    (h : decode word = some (.jal 0#5 off)) (hne : off ≠ off') :
    ¬Stands word (some (.jal 0#5 off')) := by
  intro hs
  have heff := hs blank
  rw [execWord, h] at heff
  have hpc := congrArg (fun e ↦ match e with | .next g => g.pc | _ => 0) heff
  simp only [Inst.exec, Hart.goto, blank] at hpc
  exact hne (by simpa using hpc)

/-! ## Scaled offsets -/

/-- The expander extends an offset from its own top bit. -/
theorem signExtend_toNat {n : ℕ} (x : BitVec n) (hn : 0 < n) (hn' : n ≤ 12) :
    ((x.signExtend 12).signExtend 64).toNat = x.toNat + if x.msb then 2 ^ 64 - 2 ^ n else 0 := by
  have hpow : 2 ^ n ≤ 2 ^ 12 := Nat.pow_le_pow_right (by decide) hn'
  have hmsb : (x.signExtend 12).msb = x.msb := by
    rw [BitVec.msb_signExtend, decide_eq_true (by decide), Bool.true_and]
    split_ifs with h
    · rw [show n - 12 = 0 by omega, BitVec.msb]
    · rfl
  have hlt : x.toNat < 2 ^ n := x.isLt
  have hlow : (x.setWidth 12).toNat = x.toNat := BitVec.toNat_setWidth_of_le hn'
  rw [BitVec.toNat_signExtend, hmsb, BitVec.toNat_setWidth_of_le (by decide),
    BitVec.toNat_signExtend, hlow]
  split_ifs <;> omega

section Offsets

variable {c : BitVec 16} {n k : ℕ} {x : BitVec n} {bits : List (ℕ × ℕ)} (hn : 0 < n) (hn' : n < 12)
  (hx : x.setWidth 12 = Compressed.gather c 12 bits) (hmsb : x.msb = c.getLsbD k)

include hn hn' hx hmsb

theorem extended_eq (hk : c.getLsbD k = false) :
    (x.signExtend 12).signExtend 64 = Compressed.uimm c bits := by
  apply BitVec.eq_of_toNat_eq
  rw [signExtend_toNat x hn hn'.le, hmsb, hk, Compressed.uimm, ← hx,
    BitVec.toNat_setWidth_of_le (by decide), BitVec.toNat_setWidth_of_le hn'.le]
  simp

theorem extended_far (hk : c.getLsbD k = true) :
    (Compressed.uimm c bits - (x.signExtend 12).signExtend 64).toNat = 2 ^ n := by
  have hpow : 2 ^ n < 2 ^ 12 := Nat.pow_lt_pow_right (by decide) hn'
  have hlt : x.toNat < 2 ^ n := x.isLt
  rw [BitVec.toNat_sub, signExtend_toNat x hn hn'.le, hmsb, hk, Compressed.uimm, ← hx,
    BitVec.toNat_setWidth_of_le (by decide), BitVec.toNat_setWidth_of_le hn'.le]
  simp only [if_true]
  omega

theorem extended_ne (hk : c.getLsbD k = true) :
    (x.signExtend 12).signExtend 64 ≠ Compressed.uimm c bits := by
  intro heq
  have hfar := extended_far hn hn' hx hmsb hk
  rw [heq, BitVec.sub_self, BitVec.toNat_zero] at hfar
  exact (Nat.two_pow_pos n).ne hfar

end Offsets

/-! ## The expander against the table -/

namespace Compressed

variable (c : BitVec 16)

theorem msb_eq {n : ℕ} {x : BitVec n} {bits : List (ℕ × ℕ)} (hn : 0 < n) (hn' : n < 12)
    (hx : x.setWidth 12 = gather c 12 bits) (hb : ∀ p ∈ bits, p.1 < 12) :
    x.msb = bits.any fun p ↦ decide (p.1 = n - 1) && c.getLsbD p.2 := by
  rw [← getLsbD_gather c hb, ← hx, BitVec.getLsbD_setWidth, BitVec.msb_eq_getLsbD_last]
  simp [show n - 1 < 12 by omega]

/-- The encodings of quadrant 0 that the expander gets right: those whose offset has its top bit
clear. -/
def agrees0 : Bool :=
  if funct3 c = 0b010#3 ∨ funct3 c = 0b110#3 then !c.getLsbD 5
  else if funct3 c = 0b000#3 ∨ funct3 c = 0b100#3 then true
  else !c.getLsbD 6

/-- Quadrant 1: `c.lui` with `rd = x0` becomes illegal, `c.j` exchanges two offset bits. -/
def agrees1 : Bool :=
  if funct3 c = 0b011#3 then rd c != 0#5 || immLui c == 0
  else if funct3 c = 0b101#3 then c.getLsbD 9 == c.getLsbD 10
  else true

/-- Quadrant 2: `c.slli` with `rd = x0` becomes illegal; offsets as in quadrant 0. -/
def agrees2 : Bool :=
  if funct3 c = 0b000#3 then rd c != 0#5
  else if funct3 c = 0b001#3 then !c.getLsbD 4
  else if funct3 c = 0b010#3 then rd c == 0#5 || !c.getLsbD 3
  else if funct3 c = 0b011#3 then rd c == 0#5 || !c.getLsbD 4
  else if funct3 c = 0b100#3 then true
  else if funct3 c = 0b110#3 then !c.getLsbD 8
  else !c.getLsbD 9

/-- The encodings the expander gets right. -/
def agrees : Bool :=
  if c.extractLsb' 0 2 = 0b00#2 then agrees0 c
  else if c.extractLsb' 0 2 = 0b01#2 then agrees1 c
  else agrees2 c

theorem funct3_cases (f : BitVec 3) : f = 0b000#3 ∨ f = 0b001#3 ∨ f = 0b010#3 ∨ f = 0b011#3 ∨
    f = 0b100#3 ∨ f = 0b101#3 ∨ f = 0b110#3 ∨ f = 0b111#3 := by
  revert f
  decide

section Accesses

variable {n k : ℕ} {x : BitVec n} {bits : List (ℕ × ℕ)} (hn : 7 ≤ n) (hn' : n < 12)
  (hx : x.setWidth 12 = gather c 12 bits) (hmsb : x.msb = c.getLsbD k)

include hn hn' hx hmsb

theorem stands_load (t : Width) {d : BitVec 5} (a : BitVec 5) (hd : t = .fd ∨ d ≠ 0#5) :
    Stands (RvPipeline.Compressed.iWord (x.signExtend 12) a t.funct3 d t.loadOpcode)
      (some (.load t d a (uimm c bits))) ↔ (!c.getLsbD k) = true := by
  have hdec := decode_load (x.signExtend 12) a d t
  cases hk : c.getLsbD k with
  | false =>
    rw [extended_eq (by omega) hn' hx hmsb hk] at hdec
    simpa using stands_of_decode hdec
  | true =>
    simpa using not_stands_load hd hdec (extended_ne (by omega) hn' hx hmsb hk)

theorem stands_store (t : Width) (b a : BitVec 5) :
    Stands (RvPipeline.Compressed.sWord (x.signExtend 12) b a t.funct3 t.storeOpcode)
      (some (.store t b a (uimm c bits))) ↔ (!c.getLsbD k) = true := by
  have hdec := decode_store (x.signExtend 12) a b t
  cases hk : c.getLsbD k with
  | false =>
    rw [extended_eq (by omega) hn' hx hmsb hk] at hdec
    simpa using stands_of_decode hdec
  | true =>
    have hfar := extended_far (by omega) hn' hx hmsb hk
    have hpow : 2 ^ 7 ≤ 2 ^ n := Nat.pow_le_pow_right (by decide) hn
    simpa using not_stands_store hdec (by omega)

end Accesses

theorem msb_clLwImm : (RvPipeline.Compressed.clLwImm c).msb = c.getLsbD 5 := by
  rw [msb_eq c (by decide) (by decide) (clLwImm_eq c) (by decide)]
  simp

theorem msb_clLdImm : (RvPipeline.Compressed.clLdImm c).msb = c.getLsbD 6 := by
  rw [msb_eq c (by decide) (by decide) (clLdImm_eq c) (by decide)]
  simp

theorem addi4spn_zero : RvPipeline.Compressed.ciwImm c = 0 ↔ uimmAddi4spn c = 0 := by
  rw [uimmAddi4spn, uimm, ← ciwImm_eq, ← BitVec.toNat_inj, ← BitVec.toNat_inj,
    BitVec.toNat_setWidth_of_le (by decide), BitVec.toNat_setWidth_of_le (by decide)]
  simp

theorem addi4spn_eq :
    (0b00#2 ++ RvPipeline.Compressed.ciwImm c : BitVec 12).signExtend 64 = uimmAddi4spn c := by
  have hmsb : (0b00#2 ++ RvPipeline.Compressed.ciwImm c : BitVec 12).msb = false := by
    rw [BitVec.msb_append]
    rfl
  have hzero : (0b00#2 ++ RvPipeline.Compressed.ciwImm c : BitVec 12) =
      (RvPipeline.Compressed.ciwImm c).setWidth 12 := by
    apply BitVec.eq_of_toNat_eq
    rw [BitVec.toNat_append, BitVec.toNat_setWidth_of_le (by decide)]
    simp
  rw [BitVec.signExtend_eq_setWidth_of_msb_false hmsb, hzero, ciwImm_eq, uimmAddi4spn, uimm]

theorem stands_q0 : Stands (RvPipeline.Compressed.q0 c) (decode0 c) ↔ agrees0 c = true := by
  have hshort : ∀ f : BitVec 3, (0b01#2 ++ f : BitVec 5) ≠ 0#5 := by decide
  have hrs2 : RvPipeline.Compressed.rs2C c ≠ 0#5 := hshort _
  have hlw := stands_load c (by decide) (by decide) (clLwImm_eq c) (msb_clLwImm c)
  have hld := stands_load c (by decide) (by decide) (clLdImm_eq c) (msb_clLdImm c)
  have hsw := stands_store c (by decide) (by decide) (clLwImm_eq c) (msb_clLwImm c)
  have hsd := stands_store c (by decide) (by decide) (clLdImm_eq c) (msb_clLdImm c)
  unfold RvPipeline.Compressed.q0 decode0 agrees0
  obtain hf | hf | hf | hf | hf | hf | hf | hf := funct3_cases (funct3 c) <;>
    rw [show RvPipeline.Compressed.f3 c = _ from hf, hf]
  · simp +decide only [if_true, if_false, iff_true]
    by_cases hz : uimmAddi4spn c = 0
    · rw [if_pos ((addi4spn_zero c).2 hz), if_pos hz]
      rfl
    · rw [if_neg (mt (addi4spn_zero c).1 hz), if_neg hz, ← addi4spn_eq]
      exact stands_of_decode (decode_imm _ _ _ .addi)
  · exact hld .fd _ (.inl rfl)
  · exact hlw .w _ (.inr hrs2)
  · exact hld .d _ (.inr hrs2)
  · exact iff_of_true rfl rfl
  · exact hsd .fd _ _
  · exact hsw .w _ _
  · exact hsd .d _ _

theorem signExtend_eq_zero_iff {n k : ℕ} (x : BitVec n) (h : n ≤ k) :
    x.signExtend k = 0 ↔ x = 0 := by
  constructor
  · intro hx
    apply BitVec.eq_of_getLsbD_eq
    intro i hi
    have hbit : (x.signExtend k).getLsbD i = (0 : BitVec k).getLsbD i := by rw [hx]
    rw [BitVec.getLsbD_signExtend, if_pos hi, decide_eq_true (by omega : i < k)] at hbit
    simpa using hbit
  · rintro rfl
    rw [BitVec.signExtend_eq_setWidth_of_msb_false (by simp)]
    simp

theorem addi16sp_zero : RvPipeline.Compressed.c16spImm c = 0 ↔ immAddi16sp c = 0 := by
  rw [immAddi16sp, ← c16spImm_eq]
  exact (signExtend_eq_zero_iff _ (by decide)).symm

theorem lui_zero : RvPipeline.Compressed.ciImm6 c = 0 ↔ immLui c = 0 := by
  rw [immLui, ← lui_eq, ciImm6_eq, signExtend_eq_zero_iff _ (by decide), ← BitVec.toNat_inj,
    ← BitVec.toNat_inj, BitVec.toNat_append]
  simp

theorem signExtend_signExtend {n : ℕ} (x : BitVec n) (hn : 0 < n) (hn' : n ≤ 12) :
    (x.signExtend 12).signExtend 64 = x.signExtend 64 := by
  apply BitVec.eq_of_toNat_eq
  rw [signExtend_toNat x hn hn', BitVec.toNat_signExtend,
    BitVec.toNat_setWidth_of_le (hn'.trans (by decide))]

theorem imm6_eq :
    ((RvPipeline.Compressed.ciImm6 c).signExtend 12).signExtend 64 = imm6 c := by
  rw [signExtend_signExtend _ (by decide) (by decide), ciImm6_eq, imm6]

theorem stands_arith : Stands (RvPipeline.Compressed.expArith c) (decodeArith c) := by
  have hshamt := ciImm6_eq c
  have handi := decode_imm ((RvPipeline.Compressed.ciImm6 c).signExtend 12)
    (RvPipeline.Compressed.rdCRs1C c) (RvPipeline.Compressed.rdCRs1C c) .andi
  rw [imm6_eq] at handi
  unfold RvPipeline.Compressed.expArith decodeArith
  split_ifs
  · rw [hshamt]
    exact stands_of_decode (decode_shift _ _ .srli _)
  · rw [hshamt]
    exact stands_of_decode (decode_shift _ _ .srai _)
  · exact stands_of_decode handi
  · exact stands_of_decode (decode_reg _ _ _ .sub)
  · exact stands_of_decode (decode_reg _ _ _ .xor)
  · exact stands_of_decode (decode_reg _ _ _ .or)
  · exact stands_of_decode (decode_reg _ _ _ .and)
  · exact stands_of_decode (decode_reg _ _ _ .subw)
  · exact stands_of_decode (decode_reg _ _ _ .addw)
  · rfl

theorem stands_expJ : Stands (RvPipeline.Compressed.expJ c) (some (.jal 0#5 (immJ c))) ↔
    (c.getLsbD 9 == c.getLsbD 10) = true := by
  have hdec := decode_expJ c
  rw [cjOff_eq] at hdec
  by_cases hswap : c.getLsbD 9 = c.getLsbD 10
  · have hsame : gather c 12 [(11, 12), (4, 11), (8, 10), (9, 9), (10, 8), (6, 7), (7, 6), (3, 5),
        (2, 4), (1, 3), (5, 2)] = gather c 12 [(11, 12), (4, 11), (9, 10), (8, 9), (10, 8), (6, 7),
        (7, 6), (3, 5), (2, 4), (1, 3), (5, 2)] := by
      apply BitVec.eq_of_getLsbD_eq
      intro i hi
      rw [getLsbD_gather c (by decide), getLsbD_gather c (by decide)]
      simp only [List.any_cons, hswap, List.any_nil]
      interval_cases i <;> simp
    rw [hsame] at hdec
    exact iff_of_true (stands_of_decode hdec) (beq_iff_eq.2 hswap)
  · have hne : (gather c 12 [(11, 12), (4, 11), (8, 10), (9, 9), (10, 8), (6, 7), (7, 6), (3, 5),
        (2, 4), (1, 3), (5, 2)]).signExtend 64 ≠ immJ c := by
      intro heq
      have hbit := congrArg (fun y ↦ y.getLsbD 8) heq
      simp only [immJ, BitVec.getLsbD_signExtend, getLsbD_gather c (show ∀ p ∈ [(11, 12), (4, 11),
        (8, 10), (9, 9), (10, 8), (6, 7), (7, 6), (3, 5), (2, 4), (1, 3), (5, 2)], p.1 < 12 by
        decide), getLsbD_gather c (show ∀ p ∈ [(11, 12), (4, 11), (9, 10), (8, 9), (10, 8), (6, 7),
        (7, 6), (3, 5), (2, 4), (1, 3), (5, 2)], p.1 < 12 by decide)] at hbit
      exact hswap (by simpa using hbit.symm)
    exact iff_of_false (not_stands_jal hdec hne) (mt beq_iff_eq.1 hswap)

theorem stands_q1 : Stands (RvPipeline.Compressed.q1 c) (decode1 c) ↔ agrees1 c = true := by
  have himm : ∀ (t : ImmOp) (d a : BitVec 5), Stands
      (RvPipeline.Compressed.iWord ((RvPipeline.Compressed.ciImm6 c).signExtend 12) a t.funct3 d
        t.opcode) (some (.imm t d a (imm6 c))) := by
    intro t d a
    rw [← imm6_eq]
    exact stands_of_decode (decode_imm _ _ _ t)
  unfold RvPipeline.Compressed.q1 decode1 agrees1
  obtain hf | hf | hf | hf | hf | hf | hf | hf := funct3_cases (funct3 c) <;>
    rw [show RvPipeline.Compressed.f3 c = _ from hf, hf]
  · exact iff_of_true (himm .addi _ _) rfl
  · simp +decide only [if_true, if_false, iff_true]
    rw [show RvPipeline.Compressed.rdFull c = rd c from rfl]
    split_ifs
    · rfl
    · exact himm .addiw _ _
  · exact iff_of_true (himm .addi _ _) rfl
  · simp +decide only [if_true, if_false, RvPipeline.Compressed.expQ1High]
    rw [show RvPipeline.Compressed.rdFull c = rd c from rfl]
    by_cases hsp : rd c = 2#5
    · rw [if_pos hsp, if_pos hsp]
      refine iff_of_true ?_ (by simp [hsp])
      by_cases hz : immAddi16sp c = 0
      · rw [if_pos ((addi16sp_zero c).2 hz), if_pos hz]
        rfl
      · rw [if_neg (mt (addi16sp_zero c).1 hz), if_neg hz, immAddi16sp, ← c16spImm_eq,
          ← signExtend_signExtend _ (by decide) (by decide)]
        exact stands_of_decode (decode_imm _ _ _ .addi)
    · rw [if_neg hsp, if_neg hsp]
      by_cases hz : immLui c = 0
      · rw [if_pos (.inr (.inr ((lui_zero c).2 hz))), if_pos hz]
        exact iff_of_true rfl (by simp [hz])
      · rw [if_neg hz]
        by_cases hrd : rd c = 0#5
        · rw [if_pos (.inl hrd)]
          exact iff_of_false (not_stands_zero _) (by simpa [hrd] using hz)
        · rw [if_neg (by simpa [hrd, hsp] using mt (lui_zero c).1 hz)]
          refine iff_of_true ?_ (by simp [hrd])
          rw [immLui, ← lui_eq, ← ciImm6_eq]
          exact stands_of_decode (decode_lui _ _)
  · exact iff_of_true (stands_arith c) rfl
  · exact stands_expJ c
  · refine iff_of_true ?_ rfl
    rw [immB, ← cbOff_eq]
    exact stands_of_decode (decode_beqz c)
  · refine iff_of_true ?_ rfl
    rw [immB, ← cbOff_eq]
    exact stands_of_decode (decode_bnez c)

theorem stands_jumpMove : Stands (RvPipeline.Compressed.expQ2100 c) (decodeJumpMove c) := by
  unfold RvPipeline.Compressed.expQ2100 decodeJumpMove
  rw [show RvPipeline.Compressed.rdFull c = rd c from rfl,
    show RvPipeline.Compressed.crRs2 c = rs2 c from rfl]
  by_cases hhigh : c.getLsbD 12 = false
  · rw [if_pos hhigh, if_pos hhigh]
    split_ifs
    · rfl
    · exact stands_of_decode (decode_jalr _ _)
    · exact stands_of_decode (decode_reg _ _ _ .add)
  · rw [if_neg hhigh, if_neg hhigh]
    by_cases hrs2 : rs2 c = 0#5
    · by_cases hrd : rd c = 0#5
      · rw [if_pos ⟨hrd, hrs2⟩, if_pos hrs2, if_pos hrd]
        exact stands_of_decode rfl
      · rw [if_neg (by simp [hrd]), if_pos hrs2, if_pos hrs2, if_neg hrd]
        exact stands_of_decode (decode_jalr _ _)
    · rw [if_neg (by simp [hrs2]), if_neg hrs2, if_neg hrs2]
      exact stands_of_decode (decode_reg _ _ _ .add)

theorem msb_clwspImm : (RvPipeline.Compressed.clwspImm c).msb = c.getLsbD 3 := by
  rw [msb_eq c (by decide) (by decide) (clwspImm_eq c) (by decide)]
  simp

theorem msb_cldspImm : (RvPipeline.Compressed.cldspImm c).msb = c.getLsbD 4 := by
  rw [msb_eq c (by decide) (by decide) (cldspImm_eq c) (by decide)]
  simp

theorem msb_cswspImm : (RvPipeline.Compressed.cswspImm c).msb = c.getLsbD 8 := by
  rw [msb_eq c (by decide) (by decide) (cswspImm_eq c) (by decide)]
  simp

theorem msb_csdspImm : (RvPipeline.Compressed.csdspImm c).msb = c.getLsbD 9 := by
  rw [msb_eq c (by decide) (by decide) (csdspImm_eq c) (by decide)]
  simp

theorem stands_q2 : Stands (RvPipeline.Compressed.q2 c) (decode2 c) ↔ agrees2 c = true := by
  have hlw := stands_load c (by decide) (by decide) (clwspImm_eq c) (msb_clwspImm c)
  have hld := stands_load c (by decide) (by decide) (cldspImm_eq c) (msb_cldspImm c)
  have hsw := stands_store c (by decide) (by decide) (cswspImm_eq c) (msb_cswspImm c)
  have hsd := stands_store c (by decide) (by decide) (csdspImm_eq c) (msb_csdspImm c)
  unfold RvPipeline.Compressed.q2 decode2 agrees2
  rw [show RvPipeline.Compressed.rdFull c = rd c from rfl]
  obtain hf | hf | hf | hf | hf | hf | hf | hf := funct3_cases (funct3 c) <;>
    rw [show RvPipeline.Compressed.f3 c = _ from hf, hf]
  · simp +decide only [if_true]
    by_cases hrd : rd c = 0#5
    · rw [if_pos hrd]
      exact iff_of_false (not_stands_zero _) (by simp [hrd])
    · rw [if_neg hrd, ciImm6_eq]
      exact iff_of_true (stands_of_decode (decode_shift _ _ .slli _)) (by simp [hrd])
  · exact hld .fd _ (.inl rfl)
  · simp +decide only [if_true, if_false]
    by_cases hrd : rd c = 0#5
    · rw [if_pos hrd, if_pos hrd]
      exact iff_of_true rfl (by simp [hrd])
    · rw [if_neg hrd, if_neg hrd, beq_eq_false_iff_ne.2 hrd, Bool.false_or]
      exact hlw .w _ (.inr hrd)
  · simp +decide only [if_true, if_false]
    by_cases hrd : rd c = 0#5
    · rw [if_pos hrd, if_pos hrd]
      exact iff_of_true rfl (by simp [hrd])
    · rw [if_neg hrd, if_neg hrd, beq_eq_false_iff_ne.2 hrd, Bool.false_or]
      exact hld .d _ (.inr hrd)
  · exact iff_of_true (stands_jumpMove c) rfl
  · exact hsd .fd _ _
  · exact hsw .w _ _
  · exact hsd .d _ _

/-- The expander keeps the meaning of exactly these encodings; reserved ones become the illegal
word. -/
theorem expander_stands_iff (hc : c.extractLsb' 0 2 ≠ 0b11#2) :
    Stands (compressedExpander c) (decode c) ↔ agrees c = true := by
  unfold compressedExpander decode agrees
  by_cases h0 : c.extractLsb' 0 2 = 0b00#2
  · simp only [h0, if_true]
    exact stands_q0 c
  · by_cases h1 : c.extractLsb' 0 2 = 0b01#2
    · simp only [h1, if_true]
      exact stands_q1 c
    · have h2 : c.extractLsb' 0 2 = 0b10#2 := by
        have hall : ∀ q : BitVec 2, q ≠ 0b11#2 → q ≠ 0b00#2 → q ≠ 0b01#2 → q = 0b10#2 := by decide
        exact hall _ hc h0 h1
      simp only [h2]
      exact stands_q2 c

/-- `c.lw x8, 0(x8)` keeps its meaning. -/
theorem expander_stands_lw : agrees 0x4000#16 = true ∧
    Stands (compressedExpander 0x4000#16) (some (.load .w 8#5 8#5 0)) :=
  ⟨by decide, (expander_stands_iff 0x4000#16 (by decide)).2 (by decide)⟩

/-- `c.lw x8, 64(x8)` becomes `lw x8, -64(x8)`. -/
theorem expander_lw_fails : decode 0x4020#16 = some (.load .w 8#5 8#5 64) ∧
    Rv64.decode (compressedExpander 0x4020#16) = some (.load .w 8#5 8#5 (-64)) ∧
    ¬Stands (compressedExpander 0x4020#16) (decode 0x4020#16) :=
  ⟨by decide, by decide, mt (stands_q0 0x4020#16).1 (by decide)⟩

end Compressed

/-! ## What the expander refuses -/

/-- Arithmetic on words. -/
def Inst.isWord : Inst → Bool
  | .reg .addw _ _ _ | .reg .subw _ _ _ | .imm .addiw _ _ _ => true
  | _ => false

/-- Among the instructions of the table, `c.slli` and `c.lui` to `x0`. -/
def Inst.isHint : Inst → Bool
  | .shift .slli rd _ _ | .lui rd _ => rd == 0#5
  | _ => false

/-- The word encodes an instruction of this sort; for a hint or a reserved encoding it is the
illegal word. -/
def Encodes (word : BitVec 32) : Option Inst → Prop
  | some i => if i.isHint then word = 0 else ∃ j, decode word = some j ∧ j.isWord = i.isWord
  | none => word = 0

theorem encodes_of_decode {word : BitVec 32} {i j : Inst} (h : decode word = some j)
    (hhint : i.isHint = false) (b : Bool) (hj : j.isWord = b) (hi : i.isWord = b) :
    Encodes word (some i) := by
  rw [Encodes, hhint]
  exact ⟨j, h, hj.trans hi.symm⟩

theorem encodes_hint {i : Inst} (h : i.isHint = true) : Encodes 0 (some i) := by
  rw [Encodes, if_pos h]

theorem encodes_load (imm : BitVec 12) (t : Width) (d a : BitVec 5) (off : BitVec 64) :
    Encodes (RvPipeline.Compressed.iWord imm a t.funct3 d t.loadOpcode)
      (some (.load t d a off)) :=
  encodes_of_decode (decode_load imm a d t) rfl false rfl rfl

theorem encodes_store (imm : BitVec 12) (t : Width) (b a : BitVec 5) (off : BitVec 64) :
    Encodes (RvPipeline.Compressed.sWord imm b a t.funct3 t.storeOpcode)
      (some (.store t b a off)) :=
  encodes_of_decode (decode_store imm a b t) rfl false rfl rfl

theorem encodes_reg (t : RegOp) (d a b : BitVec 5) :
    Encodes (RvPipeline.Compressed.rWord t.funct7 b a t.funct3 d t.opcode)
      (some (.reg t d a b)) :=
  encodes_of_decode (decode_reg a b d t) rfl _ rfl rfl

theorem encodes_imm (imm : BitVec 12) (t : ImmOp) (d a : BitVec 5) (v : BitVec 64) :
    Encodes (RvPipeline.Compressed.iWord imm a t.funct3 d t.opcode) (some (.imm t d a v)) := by
  cases t with
  | addi => exact encodes_of_decode (decode_imm imm a d .addi) rfl false rfl rfl
  | andi => exact encodes_of_decode (decode_imm imm a d .andi) rfl false rfl rfl
  | addiw => exact encodes_of_decode (decode_imm imm a d .addiw) rfl true rfl rfl

theorem encodes_shift (t : ShiftOp) (d a : BitVec 5) (n m : BitVec 6)
    (h : (Inst.shift t d a m).isHint = false) :
    Encodes (RvPipeline.Compressed.iWord (t.funct6 ++ n) a t.funct3 d opcodeI)
      (some (.shift t d a m)) :=
  encodes_of_decode (decode_shift a d t n) h false rfl rfl

theorem encodes_jalr (d a : BitVec 5) :
    Encodes (RvPipeline.Compressed.iWord 0#12 a 0b000#3 d opcodeJalr) (some (.jalr d a 0)) :=
  encodes_of_decode (decode_jalr a d) rfl false rfl rfl

namespace Compressed

variable (c : BitVec 16)

theorem encodes_q0 : Encodes (RvPipeline.Compressed.q0 c) (decode0 c) := by
  unfold RvPipeline.Compressed.q0 decode0
  obtain hf | hf | hf | hf | hf | hf | hf | hf := funct3_cases (funct3 c) <;>
    rw [show RvPipeline.Compressed.f3 c = _ from hf, hf]
  · simp +decide only [if_true]
    by_cases hz : uimmAddi4spn c = 0
    · rw [if_pos ((addi4spn_zero c).2 hz), if_pos hz]
      rfl
    · rw [if_neg (mt (addi4spn_zero c).1 hz), if_neg hz]
      exact encodes_imm _ .addi _ _ _
  · exact encodes_load _ .fd _ _ _
  · exact encodes_load _ .w _ _ _
  · exact encodes_load _ .d _ _ _
  · rfl
  · exact encodes_store _ .fd _ _ _
  · exact encodes_store _ .w _ _ _
  · exact encodes_store _ .d _ _ _

theorem encodes_arith : Encodes (RvPipeline.Compressed.expArith c) (decodeArith c) := by
  unfold RvPipeline.Compressed.expArith decodeArith
  split_ifs
  · exact encodes_shift .srli _ _ _ _ rfl
  · exact encodes_shift .srai _ _ _ _ rfl
  · exact encodes_imm _ .andi _ _ _
  · exact encodes_reg .sub _ _ _
  · exact encodes_reg .xor _ _ _
  · exact encodes_reg .or _ _ _
  · exact encodes_reg .and _ _ _
  · exact encodes_reg .subw _ _ _
  · exact encodes_reg .addw _ _ _
  · rfl

theorem encodes_expJ : Encodes (RvPipeline.Compressed.expJ c) (some (.jal 0#5 (immJ c))) :=
  encodes_of_decode (decode_expJ c) rfl false rfl rfl

theorem encodes_beqz : Encodes (RvPipeline.Compressed.expBranchZ c 0b000#3)
    (some (.beq (rdShort c) 0#5 (immB c))) :=
  encodes_of_decode (decode_beqz c) rfl false rfl rfl

theorem encodes_bnez : Encodes (RvPipeline.Compressed.expBranchZ c 0b001#3)
    (some (.bne (rdShort c) 0#5 (immB c))) :=
  encodes_of_decode (decode_bnez c) rfl false rfl rfl

theorem encodes_q1 : Encodes (RvPipeline.Compressed.q1 c) (decode1 c) := by
  unfold RvPipeline.Compressed.q1 decode1
  obtain hf | hf | hf | hf | hf | hf | hf | hf := funct3_cases (funct3 c) <;>
    rw [show RvPipeline.Compressed.f3 c = _ from hf, hf]
  · exact encodes_imm _ .addi _ _ _
  · simp +decide only [if_true, if_false]
    rw [show RvPipeline.Compressed.rdFull c = rd c from rfl]
    split_ifs
    · rfl
    · exact encodes_imm _ .addiw _ _ _
  · exact encodes_imm _ .addi _ _ _
  · simp +decide only [if_true, if_false, RvPipeline.Compressed.expQ1High]
    rw [show RvPipeline.Compressed.rdFull c = rd c from rfl]
    by_cases hsp : rd c = 2#5
    · rw [if_pos hsp, if_pos hsp]
      by_cases hz : immAddi16sp c = 0
      · rw [if_pos ((addi16sp_zero c).2 hz), if_pos hz]
        rfl
      · rw [if_neg (mt (addi16sp_zero c).1 hz), if_neg hz]
        exact encodes_imm _ .addi _ _ _
    · rw [if_neg hsp, if_neg hsp]
      by_cases hz : immLui c = 0
      · rw [if_pos (.inr (.inr ((lui_zero c).2 hz))), if_pos hz]
        rfl
      · rw [if_neg hz]
        by_cases hrd : rd c = 0#5
        · rw [if_pos (.inl hrd)]
          exact encodes_hint (beq_iff_eq.2 hrd)
        · rw [if_neg (by simpa [hrd, hsp] using mt (lui_zero c).1 hz)]
          exact encodes_of_decode (decode_lui _ _) (beq_eq_false_iff_ne.2 hrd) false rfl rfl
  · exact encodes_arith c
  · exact encodes_expJ c
  · exact encodes_beqz c
  · exact encodes_bnez c

theorem encodes_jumpMove : Encodes (RvPipeline.Compressed.expQ2100 c) (decodeJumpMove c) := by
  unfold RvPipeline.Compressed.expQ2100 decodeJumpMove
  rw [show RvPipeline.Compressed.rdFull c = rd c from rfl,
    show RvPipeline.Compressed.crRs2 c = rs2 c from rfl]
  by_cases hhigh : c.getLsbD 12 = false
  · rw [if_pos hhigh, if_pos hhigh]
    split_ifs
    · rfl
    · exact encodes_jalr _ _
    · exact encodes_reg .add _ _ _
  · rw [if_neg hhigh, if_neg hhigh]
    by_cases hrs2 : rs2 c = 0#5
    · by_cases hrd : rd c = 0#5
      · rw [if_pos ⟨hrd, hrs2⟩, if_pos hrs2, if_pos hrd]
        exact encodes_of_decode (j := .ebreak) rfl rfl false rfl rfl
      · rw [if_neg (by simp [hrd]), if_pos hrs2, if_pos hrs2, if_neg hrd]
        exact encodes_jalr _ _
    · rw [if_neg (by simp [hrs2]), if_neg hrs2, if_neg hrs2]
      exact encodes_reg .add _ _ _

theorem encodes_q2 : Encodes (RvPipeline.Compressed.q2 c) (decode2 c) := by
  unfold RvPipeline.Compressed.q2 decode2
  rw [show RvPipeline.Compressed.rdFull c = rd c from rfl]
  obtain hf | hf | hf | hf | hf | hf | hf | hf := funct3_cases (funct3 c) <;>
    rw [show RvPipeline.Compressed.f3 c = _ from hf, hf]
  · simp +decide only [if_true]
    by_cases hrd : rd c = 0#5
    · rw [if_pos hrd]
      exact encodes_hint (beq_iff_eq.2 hrd)
    · rw [if_neg hrd]
      exact encodes_shift .slli _ _ _ _ (beq_eq_false_iff_ne.2 hrd)
  · exact encodes_load _ .fd _ _ _
  · simp +decide only [if_true, if_false]
    split_ifs
    · rfl
    · exact encodes_load _ .w _ _ _
  · simp +decide only [if_true, if_false]
    split_ifs
    · rfl
    · exact encodes_load _ .d _ _ _
  · exact encodes_jumpMove c
  · exact encodes_store _ .fd _ _ _
  · exact encodes_store _ .w _ _ _
  · exact encodes_store _ .d _ _ _

/-- The expander refuses the reserved encodings and the two hints; of every other one it makes
an instruction of the same sort. -/
theorem encodes_expander (hc : c.extractLsb' 0 2 ≠ 0b11#2) :
    Encodes (compressedExpander c) (decode c) := by
  unfold compressedExpander decode
  have hall : ∀ q : BitVec 2, q ≠ 0b11#2 → q = 0b00#2 ∨ q = 0b01#2 ∨ q = 0b10#2 := by decide
  obtain h | h | h := hall _ hc <;> simp +decide only [h, if_true, if_false]
  · exact encodes_q0 c
  · exact encodes_q1 c
  · exact encodes_q2 c

end Compressed

end Rv64
