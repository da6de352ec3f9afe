import Klc3.Model.Lexer
import Klc3.Verification.Machine.Isa

/-!
# Words that the assembler builds

An instruction is built by shifting its operands into place and joining them with the
opcode. The operands do not overlap, so the fields of the word are the operands again, and
`matchInst` finds the entry whose bits are set.
-/

namespace Klc3

/-- The entries of the table before `RTI` exclude each other, so any that matches is found. -/
theorem matchInst_eq {ir : Word} {d : InstDef} (hd : d ∈ instDefs.dropLast)
    (h : ir &&& d.mask = d.match_) : matchInst ir = some d := by
  have apart : ∀ e ∈ instDefs.dropLast, ∀ d ∈ instDefs.dropLast,
      e.match_ &&& d.mask = d.match_ &&& e.mask → e = d := by decide
  have hsplit : instDefs = instDefs.dropLast ++ [⟨.RTI, .none, 0x8000, 0x8000⟩] := rfl
  have hfound : (instDefs.dropLast.find? fun i => ir &&& i.mask == i.match_) = some d := by
    cases hfind : instDefs.dropLast.find? fun i => ir &&& i.mask == i.match_ with
    | none =>
      have hd' := List.find?_eq_none.1 hfind d hd
      simp [h] at hd'
    | some e =>
      have hmatch := List.find?_some hfind
      have he := eq_of_beq hmatch
      have hboth : e.match_ &&& d.mask = d.match_ &&& e.mask := by
        rw [← he, ← h, BitVec.and_assoc, BitVec.and_assoc, BitVec.and_comm d.mask]
      rw [apart e (List.mem_of_find?_eq_some hfind) d hd hboth]
  rw [matchInst, hsplit, List.find?_append, hfound]
  rfl

namespace InstValue

theorem instDef_eq {i : InstValue} {d : InstDef} (hd : d ∈ instDefs.dropLast)
    (h : i.ir &&& d.mask = d.match_) : i.instDef = d := by
  have hmatched := i.matched
  rw [matchInst_eq hd h] at hmatched
  exact (Option.some.inj hmatched).symm

end InstValue

namespace Lexer

/-! ## Operands in place -/

/-- The word of a register number. -/
def regWord (r : Fin 8) : Word :=
  word (r.val : Int)

theorem regWord_and (r : Fin 8) : regWord r &&& 7 = regWord r := by
  revert r
  decide

theorem reg_and {k : Nat} {m : Word} (h : (7 : Word) <<< k &&& m = 0) (r : Fin 8) :
    regWord r <<< k &&& m = 0 := by
  rw [← regWord_and, BitVec.shiftLeft_and_distrib, BitVec.and_assoc, h]
  exact BitVec.and_zero

theorem low_and {n m : Word} (h : n &&& m = 0) (v : Word) : v &&& n &&& m = 0 := by
  rw [BitVec.and_assoc, h]
  exact BitVec.and_zero

theorem reg_extract {k lsb width : Nat} (h : ((7 : Word) <<< k).extractLsb' lsb width = 0)
    (r : Fin 8) : (regWord r <<< k).extractLsb' lsb width = 0 := by
  rw [← regWord_and, BitVec.shiftLeft_and_distrib, BitVec.extractLsb'_and, h]
  exact BitVec.and_zero

theorem low_extract {n : Word} {lsb width : Nat} (h : n.extractLsb' lsb width = 0) (v : Word) :
    (v &&& n).extractLsb' lsb width = 0 := by
  rw [BitVec.extractLsb'_and, h]
  exact BitVec.and_zero

theorem regAt_nine (r : Fin 8) : (regWord r <<< 9).extractLsb' 9 3 = BitVec.ofFin r := by
  revert r
  decide

theorem regAt_six (r : Fin 8) : (regWord r <<< 6).extractLsb' 6 3 = BitVec.ofFin r := by
  revert r
  decide

theorem regAt_zero (r : Fin 8) : (regWord r).extractLsb' 0 3 = BitVec.ofFin r := by
  revert r
  decide

theorem low_extract_self {n : Word} {width : Nat} (hwidth : width ≤ 16)
    (h : n.extractLsb' 0 width = BitVec.allOnes width) (v : Word) :
    (v &&& n).extractLsb' 0 width = v.setWidth width := by
  rw [BitVec.extractLsb'_and, h, BitVec.and_allOnes, BitVec.setWidth_eq_extractLsb' hwidth]

/-- The low bits of a word that holds an `int`. -/
theorem setWidth_word {width : Nat} (h : width ≤ 16) (n : Int) :
    (word n).setWidth width = BitVec.ofInt width n := by
  apply BitVec.eq_of_toInt_eq
  rw [BitVec.toInt_setWidth, BitVec.toInt_ofInt, word, BitVec.toNat_ofInt]
  have hdvd : ((2 ^ width : Nat) : Int) ∣ ((2 ^ 16 : Nat) : Int) :=
    Int.natCast_dvd_natCast.2 (pow_dvd_pow 2 h)
  have hnonneg : 0 ≤ n % ((2 ^ 16 : Nat) : Int) := Int.emod_nonneg _ (by decide)
  rw [Int.toNat_of_nonneg hnonneg, ← Int.emod_bmod, Int.emod_emod_of_dvd _ hdvd, Int.emod_bmod]

/-! ## Instructions

Each encoding comes with the facts about its constants that keep the operands apart. They
are decided for every instruction. -/

section Fields

variable {i : InstValue} {base v n : Word} {r1 r2 r3 : Fin 8}

theorem regAt_eq_of {lsb : Nat} {r : Fin 8} {ir : Word} (h : ir.extractLsb' lsb 3 = BitVec.ofFin r) :
    Lc3.regAt ir lsb = r := by
  rw [Lc3.regAt, h]

theorem fields_RRR (d : InstDef)
    (h : i.ir = base ||| regWord r1 <<< 9 ||| regWord r2 <<< 6 ||| regWord r3)
    (hd : d ∈ instDefs.dropLast ∧ d.mask = 0xF038 ∧ base &&& 0xF038 = d.match_)
    (hbase : base.extractLsb' 9 3 = 0 ∧ base.extractLsb' 6 3 = 0 ∧ base.extractLsb' 0 3 = 0) :
    i.instID = d.id ∧ i.dr = r1 ∧ i.sr1 = r2 ∧ i.sr2 = r3 := by
  obtain ⟨hmem, hmask, hmatch⟩ := hd
  obtain ⟨h9, h6, h0⟩ := hbase
  have hr3 : regWord r3 = regWord r3 <<< 0 := by simp
  refine ⟨congrArg InstDef.id (InstValue.instDef_eq hmem ?_), ?_⟩
  · rw [hmask, h, hr3]
    simp (disch := decide) only [BitVec.and_or_distrib_right, reg_and]
    simpa using hmatch
  · rw [i.dr_eq, i.sr1_eq, i.sr2_eq, h]
    refine ⟨regAt_eq_of ?_, regAt_eq_of ?_, regAt_eq_of ?_⟩
    · rw [hr3]
      simp (disch := decide) only [BitVec.extractLsb'_or, h9, regAt_nine, reg_extract]
      simp
    · rw [hr3]
      simp (disch := decide) only [BitVec.extractLsb'_or, h6, regAt_six, reg_extract]
      simp
    · simp (disch := decide) only [BitVec.extractLsb'_or, h0, regAt_zero, reg_extract]
      simp

theorem fields_RRV (width : Nat) (d : InstDef)
    (h : i.ir = base ||| regWord r1 <<< 9 ||| regWord r2 <<< 6 ||| (v &&& n))
    (hd : d ∈ instDefs.dropLast ∧ base &&& d.mask = d.match_ ∧ (7 : Word) <<< 9 &&& d.mask = 0 ∧
      (7 : Word) <<< 6 &&& d.mask = 0 ∧ n &&& d.mask = 0)
    (hbase : base.extractLsb' 9 3 = 0 ∧ base.extractLsb' 6 3 = 0 ∧ base.extractLsb' 0 width = 0)
    (hn : n.extractLsb' 9 3 = 0 ∧ n.extractLsb' 6 3 = 0 ∧
      n.extractLsb' 0 width = BitVec.allOnes width)
    (hwidth : width ≤ 16 ∧ ((7 : Word) <<< 9).extractLsb' 0 width = 0 ∧
      ((7 : Word) <<< 6).extractLsb' 0 width = 0) :
    i.instID = d.id ∧ i.dr = r1 ∧ i.sr1 = r2 ∧
      Lc3.offset i.ir width = (v.setWidth width).signExtend 16 := by
  obtain ⟨hmem, hmatch, hm9, hm6, hmn⟩ := hd
  obtain ⟨h9, h6, h0⟩ := hbase
  refine ⟨congrArg InstDef.id (InstValue.instDef_eq hmem ?_), ?_⟩
  · rw [h]
    simp only [BitVec.and_or_distrib_right, reg_and hm9, reg_and hm6, low_and hmn]
    simpa using hmatch
  · rw [i.dr_eq, i.sr1_eq, Lc3.offset, h]
    refine ⟨regAt_eq_of ?_, regAt_eq_of ?_, congrArg _ ?_⟩
    · simp (disch := decide) only [BitVec.extractLsb'_or, h9, regAt_nine, reg_extract,
        low_extract hn.1]
      simp
    · simp (disch := decide) only [BitVec.extractLsb'_or, h6, regAt_six, reg_extract,
        low_extract hn.2.1]
      simp
    · simp only [BitVec.extractLsb'_or, h0, reg_extract hwidth.2.1, reg_extract hwidth.2.2,
        low_extract_self hwidth.1 hn.2.2]
      simp

theorem fields_RV (d : InstDef) (h : i.ir = base ||| regWord r1 <<< 9 ||| (v &&& 0x1FF))
    (hd : d ∈ instDefs.dropLast ∧ d.mask = 0xF000 ∧ base &&& 0xF000 = d.match_)
    (hbase : base.extractLsb' 9 3 = 0 ∧ base.extractLsb' 0 9 = 0) :
    i.instID = d.id ∧ i.dr = r1 ∧ i.imm9 = (v.setWidth 9).signExtend 16 := by
  obtain ⟨hmem, hmask, hmatch⟩ := hd
  refine ⟨congrArg InstDef.id (InstValue.instDef_eq hmem ?_), ?_⟩
  · rw [hmask, h]
    simp (disch := decide) only [BitVec.and_or_distrib_right, reg_and, low_and]
    simpa using hmatch
  · rw [i.dr_eq, i.imm9_eq, Lc3.offset, h]
    refine ⟨regAt_eq_of ?_, congrArg _ ?_⟩
    · simp (disch := decide) only [BitVec.extractLsb'_or, hbase.1, regAt_nine, low_extract]
      simp
    · simp (disch := decide) only [BitVec.extractLsb'_or, hbase.2, reg_extract, low_extract_self]
      simp

theorem fields_NOT (h : i.ir = 0x903F ||| regWord r1 <<< 9 ||| regWord r2 <<< 6) :
    i.instID = .NOT ∧ i.dr = r1 ∧ i.sr1 = r2 := by
  refine ⟨congrArg InstDef.id
    (InstValue.instDef_eq (d := ⟨.NOT, .RR, 0xF03F, 0x903F⟩) (by decide) ?_), ?_⟩
  · rw [h]
    simp (disch := decide) only [BitVec.and_or_distrib_right, reg_and]
    decide
  · rw [i.dr_eq, i.sr1_eq, h]
    refine ⟨regAt_eq_of ?_, regAt_eq_of ?_⟩
    · simp (disch := decide) only [BitVec.extractLsb'_or, regAt_nine, reg_extract]
      simp
    · simp (disch := decide) only [BitVec.extractLsb'_or, regAt_six, reg_extract]
      simp

theorem fields_R (d : InstDef) (h : i.ir = base ||| regWord r1 <<< 6)
    (hd : d ∈ instDefs.dropLast ∧ d.mask = 0xFE3F ∧ base &&& 0xFE3F = d.match_)
    (hbase : base.extractLsb' 6 3 = 0) : i.instID = d.id ∧ i.baseR = r1 := by
  obtain ⟨hmem, hmask, hmatch⟩ := hd
  refine ⟨congrArg InstDef.id (InstValue.instDef_eq hmem ?_), ?_⟩
  · rw [hmask, h]
    simp (disch := decide) only [BitVec.and_or_distrib_right, reg_and]
    simpa using hmatch
  · have hreg : i.baseR = Lc3.regAt i.ir 6 := i.sr1_eq
    rw [hreg, h]
    apply regAt_eq_of
    rw [BitVec.extractLsb'_or, hbase, regAt_six]
    simp

theorem fields_V (width : Nat) (d : InstDef) (h : i.ir = base ||| (v &&& n))
    (hd : d ∈ instDefs.dropLast ∧ base &&& d.mask = d.match_ ∧ n &&& d.mask = 0)
    (hwidth : width ≤ 16 ∧ base.extractLsb' 0 width = 0 ∧
      n.extractLsb' 0 width = BitVec.allOnes width) :
    i.instID = d.id ∧ i.ir.extractLsb' 0 width = v.setWidth width := by
  obtain ⟨hmem, hmatch, hmn⟩ := hd
  refine ⟨congrArg InstDef.id (InstValue.instDef_eq hmem ?_), ?_⟩
  · rw [h, BitVec.and_or_distrib_right, low_and hmn]
    simpa using hmatch
  · rw [h, BitVec.extractLsb'_or, hwidth.2.1, low_extract_self hwidth.1 hwidth.2.2]
    simp

/-- A branch, with its condition code in place. -/
theorem fields_BR (h : i.ir = regWord r1 <<< 9 ||| (v &&& 0x1FF)) :
    i.instID = .BR ∧ i.cc = regWord r1 ∧ i.imm9 = (v.setWidth 9).signExtend 16 := by
  refine ⟨congrArg InstDef.id
    (InstValue.instDef_eq (d := ⟨.BR, .CL, 0xF000, 0x0000⟩) (by decide) ?_), ?_, ?_⟩
  · rw [h]
    simp (disch := decide) only [BitVec.and_or_distrib_right, reg_and, low_and]
    decide
  · have hcc : ∀ r : Fin 8, (regWord r <<< 9 &&& 0x0E00) >>> 9 = regWord r := by decide
    have hlow : v &&& 0x1FF &&& 0x0E00 = 0 := low_and (by decide) v
    rw [InstValue.cc, h, BitVec.and_or_distrib_right, hlow]
    simpa using hcc r1
  · rw [i.imm9_eq, Lc3.offset, h]
    refine congrArg _ ?_
    simp (disch := decide) only [BitVec.extractLsb'_or, reg_extract, low_extract_self]
    simp

end Fields

end Lexer

end Klc3
