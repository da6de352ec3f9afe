import Klc3.Verification.Loader.Encoding
import Klc3.Verification.Loader.Scanner

/-!
# Decoding undoes assembling

The word that a line is assembled to is matched to the instruction of its mnemonic, and its
fields are the operands of the line.
-/

namespace Klc3

open Lexer

/-- The opcodes that stand for an instruction. -/
def OPCode.isInstruction : OPCode → Bool
  | NONE | FILL | STRINGZ | BLKW | END | ORIG => false
  | _ => true

/-- The condition code that the letters after `BR` ask for. -/
def conditionCode (letters : Text) : Word :=
  let has (c : Char) := letters.map Char.toLower |>.contains c
  let cc := (if has 'n' then 4 else 0) ||| (if has 'z' then 2 else 0) ||| (if has 'p' then 1 else 0)
  if cc = 0 then 7 else cc

/-- A literal that a field of the given width holds, extended to a word. -/
def Immediate (width : Nat) (w : Word) (s : Text) : Prop :=
  w = (BitVec.ofInt width (Text.literal s)).signExtend 16

/-- An offset from the next instruction, given as a number or by a label. -/
def Offset (find : Text → Option Int) (addr : Word) (width : Nat) (w : Word) : Operand → Prop
  | .imm s => Immediate width w s
  | .label s => ∃ a, find s = some a ∧ addr + 1 + w = word a
  | .reg _ => False

/-- The instruction that a mnemonic and its operands stand for. -/
def Decodes (find : Text → Option Int) (cc : Word) (i : InstValue) : OPCode → List Operand → Prop
  | .ADD, [.reg d, .reg s1, .reg s2] => i.instID = .ADD ∧ i.dr = d ∧ i.sr1 = s1 ∧ i.sr2 = s2
  | .ADD, [.reg d, .reg s, .imm n] =>
    i.instID = .ADDi ∧ i.dr = d ∧ i.sr1 = s ∧ Immediate 5 i.imm5 n
  | .AND, [.reg d, .reg s1, .reg s2] => i.instID = .AND ∧ i.dr = d ∧ i.sr1 = s1 ∧ i.sr2 = s2
  | .AND, [.reg d, .reg s, .imm n] =>
    i.instID = .ANDi ∧ i.dr = d ∧ i.sr1 = s ∧ Immediate 5 i.imm5 n
  | .BR, [o] => i.instID = .BR ∧ i.cc = cc ∧ Offset find i.addr 9 i.imm9 o
  | .JMP, [.reg b] => i.instID = .JMP ∧ i.baseR = b
  | .JSR, [o] => i.instID = .JSR ∧ Offset find i.addr 11 i.imm11 o
  | .JSRR, [.reg b] => i.instID = .JSRR ∧ i.baseR = b
  | .LD, [.reg d, o] => i.instID = .LD ∧ i.dr = d ∧ Offset find i.addr 9 i.imm9 o
  | .LDI, [.reg d, o] => i.instID = .LDI ∧ i.dr = d ∧ Offset find i.addr 9 i.imm9 o
  | .LDR, [.reg d, .reg b, .imm n] =>
    i.instID = .LDR ∧ i.dr = d ∧ i.baseR = b ∧ Immediate 6 i.imm6 n
  | .LEA, [.reg d, o] => i.instID = .LEA ∧ i.dr = d ∧ Offset find i.addr 9 i.imm9 o
  | .NOT, [.reg d, .reg s] => i.instID = .NOT ∧ i.dr = d ∧ i.sr1 = s
  | .RTI, [] => i.instID = .RTI
  | .ST, [.reg s, o] => i.instID = .ST ∧ i.sr = s ∧ Offset find i.addr 9 i.imm9 o
  | .STI, [.reg s, o] => i.instID = .STI ∧ i.sr = s ∧ Offset find i.addr 9 i.imm9 o
  | .STR, [.reg s, .reg b, .imm n] =>
    i.instID = .STR ∧ i.sr = s ∧ i.baseR = b ∧ Immediate 6 i.imm6 n
  | .TRAP, [.imm n] =>
    i.instID = .TRAP ∧ i.vec8 = (BitVec.ofInt 8 (Text.literal n)).setWidth 16
  | .GETC, [] => i.instID = .TRAP ∧ i.vec8 = 0x20
  | .OUT, [] => i.instID = .TRAP ∧ i.vec8 = 0x21
  | .PUTS, [] => i.instID = .TRAP ∧ i.vec8 = 0x22
  | .IN, [] => i.instID = .TRAP ∧ i.vec8 = 0x23
  | .PUTSP, [] => i.instID = .TRAP ∧ i.vec8 = 0x24
  | .HALT, [] => i.instID = .TRAP ∧ i.vec8 = 0x25
  | .RET, [] => i.instID = .JMP ∧ i.baseR = 7
  | _, _ => False

namespace Lexer

variable {L L' K P : Lexer} {t : Text} {bits : Nat} {v : Int}

/-! ## Reading without an error -/

theorem readInto_clean {s : Text} (h : L.readInto (some s) bits = .ok (L', v))
    (herr : L'.errCount ≤ L.errCount) : L' = L ∧ readVal s bits = some v := by
  unfold readInto at h
  dsimp only at h
  split at h
  · rename_i hread
    cases h
    exact ⟨rfl, hread⟩
  · cases h
    exact absurd herr (Nat.not_succ_le_self _)

theorem findLabel_clean {s : Text} (hpass : L.curPass = 2) (hbits : bits ≠ 16)
    (h : L.findLabel (some s) bits = .ok (L', v)) (herr : L'.errCount ≤ L.errCount) :
    L' = L ∧ ∃ a, L.findSymbol (symName s) = some a ∧ v = a - (L.curAddr + 1) ∧
      -(2 : Int) ^ (bits - 1) ≤ v ∧ v < (2 : Int) ^ (bits - 1) := by
  unfold findLabel at h
  dsimp only at h
  rw [if_neg (by rw [hpass]; decide)] at h
  split at h
  · cases h
    exact absurd herr (Nat.not_succ_le_self _)
  · rename_i a hfind
    rw [if_pos hbits] at h
    split at h
    · cases h
      exact absurd herr (Nat.not_succ_le_self _)
    · rename_i hrange
      cases h
      exact ⟨rfl, a, hfind, rfl, by omega, by omega⟩

theorem eq_semicolon_of_toLower {c : Char} (h : c.toLower = ';') : c = ';' := by
  unfold Char.toLower at h
  split at h
  · rename_i hupper
    have hval : c.val + ('a'.val - 'A'.val) = ';'.val := congrArg Char.val h
    have hnat := congrArg UInt32.toNat hval
    have hge : 65 ≤ c.toNat := hupper.1
    have hle : c.toNat ≤ 90 := hupper.2
    simp at hnat
    omega
  · exact h

theorem symName_append {s : Text} (hs : ∀ c ∈ s, c ≠ ':' ∧ Text.isspace c = false) (rest : Text) :
    symName (s ++ rest) = s ++ symName rest := by
  unfold symName
  rw [List.takeWhile_append_of_pos]
  intro c hc
  obtain ⟨hcolon, hspace⟩ := hs c hc
  simp [hcolon, hspace]

/-- A label operand is looked up under its own name: one that a comment follows without a
space is not in the table. -/
theorem findSymbol_label {s rest : Text} (hlabel : Pattern.LABEL.Matches s)
    (hrest : ∃ c u, rest = c :: u ∧ Pattern.EndsOperand c)
    (hnames : ∀ symbol ∈ L.lc3Symbols, ';' ∉ symbol.1) {a : Int}
    (h : L.findSymbol (symName (s ++ rest)) = some a) : L.findSymbol s = some a := by
  obtain ⟨-, hchars⟩ := Operand.LABEL_spec hlabel
  rw [symName_append fun c hc => ⟨(hchars c hc).2.2.1, (hchars c hc).2.2.2⟩] at h
  obtain ⟨c, u, rfl, hc⟩ := hrest
  by_cases hsemi : c = ';'
  · obtain ⟨symbol, hfind, -⟩ := Option.map_eq_some_iff.1 h
    have hfound := List.find?_some hfind
    have hsame := eq_of_beq hfound
    have hmem : ';' ∈ (s ++ symName (c :: u)).map Char.toLower := by
      rw [hsemi]
      exact List.mem_map.2 ⟨';', by simp [symName, Text.isspace], rfl⟩
    rw [← hsame] at hmem
    obtain ⟨d, hd, hlower⟩ := List.mem_map.1 hmem
    rw [eq_semicolon_of_toLower hlower] at hd
    exact absurd hd (hnames symbol (List.mem_of_find?_eq_some hfind))
  · have hspace : Text.isspace c = true := by
      rcases hc with (rfl | rfl) | rfl | rfl | rfl
      · rfl
      · rfl
      · exact absurd rfl hsemi
      · rfl
      · rfl
    have hempty : symName (c :: u) = [] := by
      simp [symName, hspace]
    rw [hempty, List.append_nil] at h
    exact h

theorem allocInst_spec {raw : Word} {content : Text} {i : InstValue}
    (h : L.allocInst raw content = .ok i) : i.addr = word L.curAddr ∧ i.ir = raw := by
  unfold allocInst at h
  split at h
  · rename_i j halloc
    cases h
    unfold InstValue.alloc at halloc
    split at halloc
    · cases halloc
      exact ⟨rfl, rfl⟩
    · cases halloc
  · cases h

theorem writeInst_emits {raw : Word} (hpass : L.curPass = 2) (h : L.writeInst raw = .ok L') :
    ∃ i : InstValue, L'.tables.mem (word L.curAddr) = some (.inst i) ∧
      i.addr = word L.curAddr ∧ i.ir = raw := by
  unfold writeInst at h
  rw [if_pos hpass] at h
  dsimp only at h
  have emit : ∀ {K : Lexer} {asked : Text}, K.core = L.core →
      (do let i ← K.allocInst raw (if asked.isEmpty then (splitComment L.curLineContent).1
            else asked)
          let K := K.addMemValue (.inst i)
          let K := if K.loadingInputFile then
              K.addVariable ⟨i.sourceContent.toList, word K.curAddr, 1, false, false, [raw], none⟩
            else K
          return K.advance 1) = .ok L' →
      ∃ i : InstValue, L'.tables.mem (word L.curAddr) = some (.inst i) ∧
        i.addr = word L.curAddr ∧ i.ir = raw := by
    intro K asked hcore h
    have haddr : K.curAddr = L.curAddr := congrArg Core.curAddr hcore
    obtain ⟨i, halloc, h⟩ := Except.bind_eq_ok_iff.1 h
    obtain ⟨hi, hir⟩ := allocInst_spec halloc
    rw [← haddr]
    refine ⟨i, ?_, hi, hir⟩
    dsimp only at h
    split at h
    · cases h
      exact if_pos rfl
    · cases h
      exact if_pos rfl
  split at h
  · exact emit rfl h
  · obtain ⟨⟨K, asked⟩, hcomment, h⟩ := Except.bind_eq_ok_iff.1 h
    exact emit (parseInstComment_core hcomment) h

/-! ## Offsets and immediates -/

/-- The word that a field of the given width makes of a value. -/
def fieldWord (width : Nat) (v : Int) : Word :=
  ((word v).setWidth width).signExtend 16

theorem immediate_of_read {s : Text} (hbits : bits ≤ 16) (ht : Operand.Listed [.imm s] t)
    (h : L.readInto (some t) bits = .ok (L', v)) (herr : L'.errCount ≤ L.errCount) :
    L' = L ∧ BitVec.ofInt bits v = BitVec.ofInt bits (Text.literal s) := by
  obtain ⟨hL, hread⟩ := readInto_clean h herr
  obtain ⟨rest, rfl, himm, hrest⟩ := ht.imm_spec
  exact ⟨hL, readVal_literal himm hrest hbits hread⟩

theorem fieldWord_immediate {s : Text} (hbits : bits ≤ 16)
    (h : BitVec.ofInt bits v = BitVec.ofInt bits (Text.literal s)) :
    Immediate bits (fieldWord bits v) s := by
  rw [Immediate, fieldWord, setWidth_word hbits, h]

/-- A value in the range of a field survives it. -/
theorem fieldWord_eq (hpos : 0 < bits) (hbits : bits ≤ 16) (hge : -(2 : Int) ^ (bits - 1) ≤ v)
    (hlt : v < (2 : Int) ^ (bits - 1)) : fieldWord bits v = word v := by
  have hint : (BitVec.ofInt bits v).toInt = v := by
    obtain ⟨k, rfl⟩ := Nat.exists_eq_add_of_lt hpos
    have hpow : ((2 ^ (0 + k + 1) : Nat) : Int) = 2 * (2 : Int) ^ (0 + k + 1 - 1) := by
      push_cast
      rw [pow_succ, mul_comm]
    rw [BitVec.toInt_ofInt]
    apply Int.bmod_eq_of_le_mul_two
    · omega
    · omega
  rw [fieldWord, setWidth_word hbits, BitVec.signExtend, hint]
  rfl

theorem offset_of_label {s : Text} (hpass : L.curPass = 2) (hpos : 0 < bits) (hbits : bits < 16)
    (hnames : ∀ symbol ∈ L.lc3Symbols, ';' ∉ symbol.1) (ht : Operand.Listed [.label s] t)
    (h : L.findLabel (some t) bits = .ok (L', v)) (herr : L'.errCount ≤ L.errCount) :
    L' = L ∧ Offset L.findSymbol (word L.curAddr) bits (fieldWord bits v) (.label s) := by
  obtain ⟨hL, a, hfind, hv, hge, hlt⟩ := findLabel_clean hpass hbits.ne h herr
  obtain ⟨rest, rfl, hlabel, hrest⟩ := ht.label_spec
  refine ⟨hL, a, findSymbol_label hlabel hrest hnames hfind, ?_⟩
  have hone : (1 : Word) = word 1 := rfl
  rw [fieldWord_eq hpos hbits.le hge hlt, hone, ← word_add, ← word_add, hv]
  congr 1
  omega

theorem offset_of_imm {s : Text} (hbits : bits ≤ 16) (ht : Operand.Listed [.imm s] t)
    (h : L.readInto (some t) bits = .ok (L', v)) (herr : L'.errCount ≤ L.errCount) :
    L' = L ∧ Offset L.findSymbol (word L.curAddr) bits (fieldWord bits v) (.imm s) := by
  obtain ⟨hL, hv⟩ := immediate_of_read hbits ht h herr
  exact ⟨hL, fieldWord_immediate hbits hv⟩

/-! ## One line -/

section Line

variable {K₁ K₂ : Lexer} {p : Parsed} {cc : Word} {r1 r2 r3 : Fin 8} {type : OperandType}
  {os : List Operand} {o1 : Text} {o2 o3 : Option Text}

theorem preParse_spec (h : K.preParse type o1 o2 o3 = .ok (K₁, p)) :
    preParseReg type .R1 (some o1) = .ok p.r1 ∧ preParseReg type .R2 o2 = .ok p.r2 ∧
      preParseReg type .R3 o3 = .ok p.r3 ∧ K.preParseVal type o2 = .ok (K₁, p.val) := by
  unfold preParse at h
  obtain ⟨r1, h1, h⟩ := Except.bind_eq_ok_iff.1 h
  obtain ⟨r2, h2, h⟩ := Except.bind_eq_ok_iff.1 h
  obtain ⟨r3, h3, h⟩ := Except.bind_eq_ok_iff.1 h
  obtain ⟨⟨K', v⟩, hval, h⟩ := Except.bind_eq_ok_iff.1 h
  cases h
  exact ⟨h1, h2, h3, hval⟩

theorem preParseReg_eq {which : PreParse} {r : Fin 8} {v : Int} (hmem : which ∈ type.preParse)
    (ht : Operand.Listed (.reg r :: os) t) (h : preParseReg type which (some t) = .ok v) :
    word v = regWord r := by
  rw [preParseReg, if_pos hmem, ht.readReg] at h
  cases h
  rfl

/-- The line has been assembled to the instruction that it stands for. -/
def Emitted (K L' : Lexer) (cc : Word) (os : List Operand) : Prop :=
  ∃ i : InstValue, L'.tables.mem (word K.curAddr) = some (.inst i) ∧ i.addr = word K.curAddr ∧
    Decodes K.findSymbol cc i K.op os

theorem Emitted.of_writeInst {raw : Word} (hpass : K.curPass = 2)
    (h : K.writeInst raw = .ok K₂)
    (hdecodes : ∀ i : InstValue, i.ir = raw → i.addr = word K.curAddr →
      Decodes K.findSymbol cc i K.op os) : Emitted K K₂ cc os := by
  obtain ⟨i, hmem, haddr, hir⟩ := writeInst_emits hpass h
  exact ⟨i, hmem, haddr, hdecodes i hir haddr⟩

theorem preParseVal_none (hI : .I2 ∉ type.preParse) (hL : .L2 ∉ type.preParse)
    (h : K.preParseVal type o2 = .ok (K₁, v)) : K₁ = K := by
  rw [preParseVal, if_neg hI, if_neg hL] at h
  simp only [Except.pure_eq_ok_iff, Prod.mk.injEq] at h
  exact h.1.symm

/-- The registers of a line with two registers in front. -/
theorem preParse_two {o : Operand} (h1 : Operand.Listed [.reg r1, .reg r2, o] o1)
    (hR : .R1 ∈ type.preParse ∧ .R2 ∈ type.preParse)
    (hparse : K.preParse type o1 (nextOperand o1) ((nextOperand o1).bind nextOperand) =
      .ok (K₁, p)) :
    word p.r1 = regWord r1 ∧ word p.r2 = regWord r2 ∧
      ∃ t3, (nextOperand o1).bind nextOperand = some t3 ∧ Operand.Listed [o] t3 := by
  obtain ⟨t2, hnext2, h2⟩ := h1.next
  obtain ⟨t3, hnext3, h3⟩ := h2.next
  obtain ⟨hr1, hr2, -, -⟩ := preParse_spec hparse
  rw [hnext2] at hr2
  refine ⟨preParseReg_eq hR.1 h1 hr1, preParseReg_eq hR.2 h2 hr2, t3, ?_, h3⟩
  rw [hnext2, Option.bind_some, hnext3]

theorem emitted_RRR (hpass : K.curPass = 2) (haccepts : K.op.accepts .RRR = true)
    (h1 : Operand.Listed [.reg r1, .reg r2, .reg r3] o1)
    (hparse : K.preParse .RRR o1 (nextOperand o1) ((nextOperand o1).bind nextOperand) =
      .ok (K₁, p))
    (hgenerate : K₁.generate .RRR o1 o3 p = .ok K₂) :
    Emitted K K₂ cc [.reg r1, .reg r2, .reg r3] := by
  obtain ⟨hw1, hw2, t3, hnext3, h3⟩ := preParse_two h1 (by decide) hparse
  obtain ⟨-, -, hr3, hval⟩ := preParse_spec hparse
  rw [hnext3] at hr3
  have hw3 := preParseReg_eq (by decide) h3 hr3
  obtain rfl := preParseVal_none (by decide) (by decide) hval
  unfold generate at hgenerate
  cases hop : K₁.op <;> rw [hop] at haccepts
  case ADD =>
    simp only [hop, hw1, hw2, hw3] at hgenerate
    refine Emitted.of_writeInst hpass hgenerate fun i hir _ => ?_
    rw [hop]
    exact fields_RRR ⟨.ADD, .RRR, 0xF038, 0x1000⟩ hir (by decide) (by decide)
  case AND =>
    simp only [hop, hw1, hw2, hw3] at hgenerate
    refine Emitted.of_writeInst hpass hgenerate fun i hir _ => ?_
    rw [hop]
    exact fields_RRR ⟨.AND, .RRR, 0xF038, 0x5000⟩ hir (by decide) (by decide)
  all_goals exact absurd haccepts (by decide)

theorem emitted_RRI {s : Text} (hpass : K.curPass = 2) (haccepts : K.op.accepts .RRI = true)
    (h1 : Operand.Listed [.reg r1, .reg r2, .imm s] o1)
    (hparse : K.preParse .RRI o1 (nextOperand o1) ((nextOperand o1).bind nextOperand) =
      .ok (K₁, p))
    (hgenerate : K₁.generate .RRI o1 ((nextOperand o1).bind nextOperand) p = .ok K₂)
    (herr : K₂.errCount ≤ K.errCount) :
    Emitted K K₂ cc [.reg r1, .reg r2, .imm s] := by
  obtain ⟨hw1, hw2, t3, hnext3, h3⟩ := preParse_two h1 (by decide) hparse
  obtain ⟨-, -, -, hval⟩ := preParse_spec hparse
  obtain rfl := preParseVal_none (by decide) (by decide) hval
  -- The immediate is read just before the instruction is written.
  have read : ∀ {bits : Nat} {K' : Lexer} {v : Int} {raw : Word}, bits ≤ 16 →
      K₁.readInto (some t3) bits = .ok (K', v) → K'.writeInst raw = .ok K₂ →
      K' = K₁ ∧ BitVec.ofInt bits v = BitVec.ofInt bits (Text.literal s) := by
    intro bits K' v raw hbits hread hwrite
    exact immediate_of_read hbits h3 hread ((writeInst_moved hwrite).keeps.errCount.trans herr)
  rw [hnext3] at hgenerate
  unfold generate at hgenerate
  cases hop : K₁.op <;> rw [hop] at haccepts
  case ADD =>
    simp only [hop, hw1, hw2, if_true] at hgenerate
    obtain ⟨⟨K', v⟩, hread, hwrite⟩ := Except.bind_eq_ok_iff.1 hgenerate
    obtain ⟨rfl, hv⟩ := read (by decide) hread hwrite
    refine Emitted.of_writeInst hpass hwrite fun i hir _ => ?_
    obtain ⟨hid, hdr, hsr1, himm⟩ := fields_RRV 5 ⟨.ADDi, .RRI, 0xF020, 0x1020⟩ hir
      (by decide) (by decide) (by decide) (by decide)
    rw [hop]
    exact ⟨hid, hdr, hsr1, (i.imm5_eq.trans himm).trans (fieldWord_immediate (by decide) hv)⟩
  case AND =>
    simp only [hop, hw1, hw2, if_true] at hgenerate
    obtain ⟨⟨K', v⟩, hread, hwrite⟩ := Except.bind_eq_ok_iff.1 hgenerate
    obtain ⟨rfl, hv⟩ := read (by decide) hread hwrite
    refine Emitted.of_writeInst hpass hwrite fun i hir _ => ?_
    obtain ⟨hid, hdr, hsr1, himm⟩ := fields_RRV 5 ⟨.ANDi, .RRI, 0xF020, 0x5020⟩ hir
      (by decide) (by decide) (by decide) (by decide)
    rw [hop]
    exact ⟨hid, hdr, hsr1, (i.imm5_eq.trans himm).trans (fieldWord_immediate (by decide) hv)⟩
  case LDR =>
    simp only [hop, hw1, hw2] at hgenerate
    obtain ⟨⟨K', v⟩, hread, hwrite⟩ := Except.bind_eq_ok_iff.1 hgenerate
    obtain ⟨rfl, hv⟩ := read (by decide) hread hwrite
    refine Emitted.of_writeInst hpass hwrite fun i hir _ => ?_
    obtain ⟨hid, hdr, hsr1, himm⟩ := fields_RRV 6 ⟨.LDR, .RRI6, 0xF000, 0x6000⟩ hir
      (by decide) (by decide) (by decide) (by decide)
    rw [hop]
    exact ⟨hid, hdr, hsr1, (i.imm6_eq.trans himm).trans (fieldWord_immediate (by decide) hv)⟩
  case STR =>
    simp only [hop, hw1, hw2] at hgenerate
    obtain ⟨⟨K', v⟩, hread, hwrite⟩ := Except.bind_eq_ok_iff.1 hgenerate
    obtain ⟨rfl, hv⟩ := read (by decide) hread hwrite
    refine Emitted.of_writeInst hpass hwrite fun i hir _ => ?_
    obtain ⟨hid, hdr, hsr1, himm⟩ := fields_RRV 6 ⟨.STR, .RRI6, 0xF000, 0x7000⟩ hir
      (by decide) (by decide) (by decide) (by decide)
    rw [hop]
    exact ⟨hid, hdr, hsr1, (i.imm6_eq.trans himm).trans (fieldWord_immediate (by decide) hv)⟩
  all_goals exact absurd haccepts (by decide)

theorem emitted_RR (hpass : K.curPass = 2) (haccepts : K.op.accepts .RR = true)
    (h1 : Operand.Listed [.reg r1, .reg r2] o1)
    (hparse : K.preParse .RR o1 (nextOperand o1) o3 = .ok (K₁, p))
    (hgenerate : K₁.generate .RR o1 o3 p = .ok K₂) :
    Emitted K K₂ cc [.reg r1, .reg r2] := by
  obtain ⟨t2, hnext2, h2⟩ := h1.next
  obtain ⟨hr1, hr2, -, hval⟩ := preParse_spec hparse
  rw [hnext2] at hr2
  have hw1 := preParseReg_eq (by decide) h1 hr1
  have hw2 := preParseReg_eq (by decide) h2 hr2
  obtain rfl := preParseVal_none (by decide) (by decide) hval
  unfold generate at hgenerate
  cases hop : K₁.op <;> rw [hop] at haccepts
  case NOT =>
    simp only [hop, hw1, hw2] at hgenerate
    refine Emitted.of_writeInst hpass hgenerate fun i hir _ => ?_
    rw [hop]
    exact fields_NOT hir
  all_goals exact absurd haccepts (by decide)

theorem emitted_R (hpass : K.curPass = 2) (haccepts : K.op.accepts .R = true)
    (h1 : Operand.Listed [.reg r1] o1) (hparse : K.preParse .R o1 o2 o3 = .ok (K₁, p))
    (hgenerate : K₁.generate .R o1 o3 p = .ok K₂) : Emitted K K₂ cc [.reg r1] := by
  obtain ⟨hr1, -, -, hval⟩ := preParse_spec hparse
  have hw1 := preParseReg_eq (by decide) h1 hr1
  obtain rfl := preParseVal_none (by decide) (by decide) hval
  unfold generate at hgenerate
  cases hop : K₁.op <;> rw [hop] at haccepts
  case JMP =>
    simp only [hop, hw1] at hgenerate
    refine Emitted.of_writeInst hpass hgenerate fun i hir _ => ?_
    rw [hop]
    exact fields_R ⟨.JMP, .R, 0xFE3F, 0xC000⟩ hir (by decide) (by decide)
  case JSRR =>
    simp only [hop, hw1] at hgenerate
    refine Emitted.of_writeInst hpass hgenerate fun i hir _ => ?_
    rw [hop]
    exact fields_R ⟨.JSRR, .R, 0xFE3F, 0x4000⟩ hir (by decide) (by decide)
  all_goals exact absurd haccepts (by decide)

/-- Loads and stores relative to the PC, with the offset already read. -/
theorem emitted_RO {o : Operand} (hpass : K.curPass = 2) (htype : type = .RI ∨ type = .RL)
    (haccepts : K.op.accepts type = true) (hw1 : word p.r1 = regWord r1)
    (hoffset : Offset K.findSymbol (word K.curAddr) 9 (fieldWord 9 p.val) o)
    (hgenerate : K.generate type o1 o3 p = .ok K₂) : Emitted K K₂ cc [.reg r1, o] := by
  have emit : ∀ {base : Word} (d : InstDef),
      K.writeInst (base ||| regWord r1 <<< 9 ||| (word p.val &&& 0x1FF)) = .ok K₂ →
      (d ∈ instDefs.dropLast ∧ d.mask = 0xF000 ∧ base &&& 0xF000 = d.match_) →
      (base.extractLsb' 9 3 = 0 ∧ base.extractLsb' 0 9 = 0) →
      (∀ i : InstValue, i.instID = d.id → i.dr = r1 → Offset K.findSymbol i.addr 9 i.imm9 o →
        Decodes K.findSymbol cc i K.op [.reg r1, o]) → Emitted K K₂ cc [.reg r1, o] := by
    intro base d hwrite hd hbase hdecodes
    refine Emitted.of_writeInst hpass hwrite fun i hir haddr => ?_
    obtain ⟨hid, hdr, himm⟩ := fields_RV d hir hd hbase
    refine hdecodes i hid hdr ?_
    rw [haddr, himm]
    exact hoffset
  unfold generate at hgenerate
  cases hop : K.op
  case LD =>
    simp only [hop, hw1] at hgenerate
    refine emit ⟨.LD, .RL, 0xF000, 0x2000⟩ hgenerate (by decide) (by decide) ?_
    rw [hop]
    exact fun i hid hdr hoff => ⟨hid, hdr, hoff⟩
  case LDI =>
    simp only [hop, hw1] at hgenerate
    refine emit ⟨.LDI, .RL, 0xF000, 0xA000⟩ hgenerate (by decide) (by decide) ?_
    rw [hop]
    exact fun i hid hdr hoff => ⟨hid, hdr, hoff⟩
  case LEA =>
    simp only [hop, hw1] at hgenerate
    refine emit ⟨.LEA, .RL, 0xF000, 0xE000⟩ hgenerate (by decide) (by decide) ?_
    rw [hop]
    exact fun i hid hdr hoff => ⟨hid, hdr, hoff⟩
  case ST =>
    simp only [hop, hw1] at hgenerate
    refine emit ⟨.ST, .RL, 0xF000, 0x3000⟩ hgenerate (by decide) (by decide) ?_
    rw [hop]
    exact fun i hid hdr hoff => ⟨hid, hdr, hoff⟩
  case STI =>
    simp only [hop, hw1] at hgenerate
    refine emit ⟨.STI, .RL, 0xF000, 0xB000⟩ hgenerate (by decide) (by decide) ?_
    rw [hop]
    exact fun i hid hdr hoff => ⟨hid, hdr, hoff⟩
  all_goals
    rw [hop] at haccepts
    rcases htype with rfl | rfl <;> exact absurd haccepts (by decide)

/-- Branches and calls. -/
theorem emitted_O {o : Operand} (hpass : K.curPass = 2) (htype : type = .I ∨ type = .L)
    (haccepts : K.op.accepts type = true) (hop : K.op.isInstruction = true)
    (hcc : K.op = .BR → ∃ r, cc = regWord r ∧ K.ccode = regWord r <<< 9)
    (htarget : ∀ {bits : Nat} {K' : Lexer} {v : Int}, 0 < bits → bits < 16 →
      K.readTarget type o1 bits = .ok (K', v) → K'.errCount ≤ K.errCount →
      K' = K ∧ Offset K.findSymbol (word K.curAddr) bits (fieldWord bits v) o)
    (htrap : ∀ {K' : Lexer} {v : Int}, type = .I → K.readInto (some o1) 8 = .ok (K', v) →
      K'.errCount ≤ K.errCount → K' = K ∧
        ∃ s, o = .imm s ∧ BitVec.ofInt 8 v = BitVec.ofInt 8 (Text.literal s))
    (hgenerate : K.generate type o1 o3 p = .ok K₂) (herr : K₂.errCount ≤ K.errCount) :
    Emitted K K₂ cc [o] := by
  unfold generate at hgenerate
  cases hop' : K.op <;> rw [hop'] at haccepts hop
  case BR =>
    simp only [hop'] at hgenerate
    obtain ⟨⟨K', v⟩, hread, hwrite⟩ := Except.bind_eq_ok_iff.1 hgenerate
    obtain ⟨rfl, hoffset⟩ := htarget (by decide) (by decide) hread
      ((writeInst_moved hwrite).keeps.errCount.trans herr)
    obtain ⟨r, hr, hccode⟩ := hcc hop'
    dsimp only at hwrite
    rw [hccode] at hwrite
    refine Emitted.of_writeInst hpass hwrite fun i hir haddr => ?_
    obtain ⟨hid, hicc, himm⟩ := fields_BR hir
    rw [hop']
    refine ⟨hid, hicc.trans hr.symm, ?_⟩
    rw [haddr, himm]
    exact hoffset
  case JSR =>
    simp only [hop'] at hgenerate
    obtain ⟨⟨K', v⟩, hread, hwrite⟩ := Except.bind_eq_ok_iff.1 hgenerate
    obtain ⟨rfl, hoffset⟩ := htarget (by decide) (by decide) hread
      ((writeInst_moved hwrite).keeps.errCount.trans herr)
    refine Emitted.of_writeInst hpass hwrite fun i hir haddr => ?_
    obtain ⟨hid, himm⟩ := fields_V 11 ⟨.JSR, .L, 0xF800, 0x4800⟩ hir (by decide) (by decide)
    rw [hop']
    refine ⟨hid, ?_⟩
    rw [haddr, i.imm11_eq, Lc3.offset, himm]
    exact hoffset
  case TRAP =>
    have hI : type = .I := by
      rcases htype with rfl | rfl
      · rfl
      · exact absurd haccepts (by decide)
    simp only [hop'] at hgenerate
    obtain ⟨⟨K', v⟩, hread, hwrite⟩ := Except.bind_eq_ok_iff.1 hgenerate
    obtain ⟨rfl, s, rfl, hv⟩ := htrap hI hread
      ((writeInst_moved hwrite).keeps.errCount.trans herr)
    refine Emitted.of_writeInst hpass hwrite fun i hir haddr => ?_
    obtain ⟨hid, hvec⟩ := fields_V 8 ⟨.TRAP, .V, 0xFF00, 0xF000⟩ hir (by decide) (by decide)
    rw [hop']
    refine ⟨hid, ?_⟩
    rw [i.vec8_eq, hvec, setWidth_word (by decide), hv]
  case FILL | BLKW | ORIG => exact absurd hop (by decide)
  all_goals rcases htype with rfl | rfl <;> exact absurd haccepts (by decide)

/-- Instructions without an operand. -/
theorem emitted_none (hpass : K.curPass = 2) (haccepts : K.op.accepts .none = true)
    (hop : K.op.isInstruction = true) (hgenerate : K.generate .none o1 o3 p = .ok K₂) :
    Emitted K K₂ cc [] := by
  have trap : ∀ {raw : Word}, K.writeInst raw = .ok K₂ → raw &&& 0xFF00 = 0xF000 →
      (∀ i : InstValue, i.instID = .TRAP → i.vec8 = raw &&& 0xFF →
        Decodes K.findSymbol cc i K.op []) → Emitted K K₂ cc [] := by
    intro raw hwrite hraw hdecodes
    refine Emitted.of_writeInst hpass hwrite fun i hir _ => ?_
    have hdef := InstValue.instDef_eq (d := ⟨.TRAP, .V, 0xFF00, 0xF000⟩) (by decide)
      (by rw [hir]; exact hraw)
    exact hdecodes i (congrArg InstDef.id hdef) (by rw [InstValue.vec8, hir])
  unfold generate at hgenerate
  cases hop' : K.op <;> rw [hop'] at haccepts hop
  case GETC | HALT | IN | OUT | PUTS | PUTSP =>
    simp only [hop'] at hgenerate
    refine trap hgenerate (by decide) ?_
    rw [hop']
    exact fun i hid hvec => ⟨hid, hvec⟩
  case RTI =>
    simp only [hop'] at hgenerate
    refine Emitted.of_writeInst hpass hgenerate fun i hir _ => ?_
    rw [hop']
    have hmatched := i.matched
    rw [hir] at hmatched
    exact congrArg InstDef.id (Option.some.inj hmatched).symm
  case RET =>
    simp only [hop'] at hgenerate
    refine Emitted.of_writeInst hpass hgenerate fun i hir _ => ?_
    rw [hop']
    have hdef := InstValue.instDef_eq (d := ⟨.JMP, .R, 0xFE3F, 0xC000⟩) (by decide)
      (by rw [hir]; decide)
    refine ⟨congrArg InstDef.id hdef, ?_⟩
    rw [InstValue.baseR, InstValue.sr1, hir]
    decide
  all_goals first
    | exact absurd haccepts (by decide)
    | exact absurd hop (by decide)

/-- A line whose operands are read without an error is assembled to its instruction. -/
theorem generateInstruction_emitted {text : Text} (hpass : K.curPass = 2)
    (hop : K.op.isInstruction = true)
    (hcc : K.op = .BR → ∃ r, cc = regWord r ∧ K.ccode = regWord r <<< 9)
    (hnames : ∀ symbol ∈ K.lc3Symbols, ';' ∉ symbol.1) (hfits : type.Fits os)
    (hline : Operand.LineText os text) (h : K.generateInstruction type text = .ok L')
    (herr : L'.errCount ≤ K.errCount) : Emitted K L' cc os := by
  unfold generateInstruction at h
  split at h
  · cases h
    exact absurd herr (Nat.not_succ_le_self _)
  · rename_i haccepts
    have haccepts : K.op.accepts type = true := by simpa using haccepts
    dsimp only at h
    rw [if_neg (by rintro horig; rw [horig] at hop; cases hop)] at h
    split at h
    · cases h
      exact absurd herr (Nat.not_succ_le_self _)
    · obtain ⟨⟨K₁, p⟩, hparse, h⟩ := Except.bind_eq_ok_iff.1 h
      obtain ⟨K₂, hgenerate, h⟩ := Except.bind_eq_ok_iff.1 h
      cases h
      have herr₂ : K₂.errCount ≤ K.errCount := herr
      have herr₁ : K₁.errCount ≤ K.errCount :=
        (keeps_effect.generate hgenerate).errCount.trans herr₂
      obtain ⟨hr1, -, -, hval⟩ := preParse_spec hparse
      suffices hemitted : Emitted K K₂ cc os from hemitted
      match type, os, hfits with
      | .RRR, [.reg r1, .reg r2, .reg r3], _ =>
        exact emitted_RRR hpass haccepts hline.skipSpace hparse hgenerate
      | .RRI, [.reg r1, .reg r2, .imm s], _ =>
        exact emitted_RRI hpass haccepts hline.skipSpace hparse hgenerate herr₂
      | .RR, [.reg r1, .reg r2], _ =>
        exact emitted_RR hpass haccepts hline.skipSpace hparse hgenerate
      | .R, [.reg r1], _ =>
        exact emitted_R hpass haccepts hline.skipSpace hparse hgenerate
      | .RI, [.reg r1, .imm s], _ =>
        have h1 := hline.skipSpace
        obtain ⟨t2, hnext2, h2⟩ := h1.next
        rw [hnext2] at hval
        obtain ⟨rfl, hoffset⟩ := offset_of_imm (by decide) h2 hval herr₁
        exact emitted_RO hpass (.inl rfl) haccepts (preParseReg_eq (by decide) h1 hr1) hoffset
          hgenerate
      | .RL, [.reg r1, .label s], _ =>
        have h1 := hline.skipSpace
        obtain ⟨t2, hnext2, h2⟩ := h1.next
        rw [hnext2] at hval
        obtain ⟨rfl, hoffset⟩ := offset_of_label hpass (by decide) (by decide) hnames h2 hval herr₁
        exact emitted_RO hpass (.inr rfl) haccepts (preParseReg_eq (by decide) h1 hr1) hoffset
          hgenerate
      | .I, [.imm s], _ =>
        have h1 := hline.skipSpace
        obtain rfl := preParseVal_none (by decide) (by decide) hval
        refine emitted_O hpass (.inl rfl) haccepts hop hcc ?_ ?_ hgenerate herr₂
        · intro bits K' v _ hbits hread herr'
          exact offset_of_imm hbits.le h1 hread herr'
        · intro K' v _ hread herr'
          obtain ⟨hK, hv⟩ := immediate_of_read (by decide) h1 hread herr'
          exact ⟨hK, s, rfl, hv⟩
      | .L, [.label s], _ =>
        have h1 := hline.skipSpace
        obtain rfl := preParseVal_none (by decide) (by decide) hval
        refine emitted_O hpass (.inr rfl) haccepts hop hcc ?_ ?_ hgenerate herr₂
        · intro bits K' v hpos hbits hread herr'
          exact offset_of_label hpass hpos hbits hnames h1 hread herr'
        · intro K' v hI
          cases hI
      | .none, [], _ =>
        obtain rfl := preParseVal_none (by decide) (by decide) hval
        exact emitted_none hpass haccepts hop hgenerate

end Line

/-! ## Condition letters -/

theorem parseCCode_spec {letters : Text} (h : Pattern.CCODE.Matches letters)
    (h0 : L.ccode = 0) :
    ∃ r, conditionCode letters = regWord r ∧ (L.parseCCode letters).ccode = regWord r <<< 9 := by
  obtain ⟨n, w, hn, ⟨z, w, hz, ⟨q, e, hq, he, rfl⟩, rfl⟩, rfl⟩ := h
  rw [Pattern.matches_seq_nil.1 he]
  have cases_letter : ∀ {c : Char} {s : Text}, Pattern.Matches (.opt (Pattern.letter c)) s →
      s = [] ∨ s = [c.toLower] ∨ s = [c.toUpper] := by
    intro c s hs
    rcases hs with hs | hs
    · exact .inl hs
    · exact .inr (Pattern.matches_letter.1 hs)
  have hn := cases_letter hn
  have hz := cases_letter hz
  have hq := cases_letter hq
  unfold parseCCode
  dsimp only
  rw [h0]
  rcases hn with rfl | rfl | rfl <;> rcases hz with rfl | rfl | rfl <;>
    rcases hq with rfl | rfl | rfl <;> decide

theorem branch_spec {text : Text}
    (h : Pattern.Matches (.cat (Pattern.lit "BR") Pattern.CCODE) text) :
    Pattern.CCODE.Matches (text.drop 2) := by
  obtain ⟨name, letters, hname, hletters, rfl⟩ := h
  obtain ⟨b, w, hb, ⟨r, e, hr, he, rfl⟩, rfl⟩ := hname
  obtain ⟨c, -, rfl⟩ := Pattern.matches_oneOf.1 hb
  obtain ⟨d, -, rfl⟩ := Pattern.matches_oneOf.1 hr
  rw [Pattern.matches_seq_nil.1 he]
  exact hletters

/-! ## Whole files -/

theorem foundLabel_symbols (L : Lexer) (s : Text) :
    (L.foundLabel s).lc3Symbols = L.lc3Symbols ∨
      (L.foundLabel s).lc3Symbols = L.lc3Symbols ++ [(symName s, L.curAddr)] := by
  unfold foundLabel
  dsimp only
  split
  · split
    · exact .inl rfl
    · cases hadd : L.addSymbol (symName s) with
      | none => exact .inl rfl
      | some K =>
        unfold addSymbol at hadd
        split at hadd
        · cases hadd
        · cases hadd
          exact .inr rfl
  · exact .inl rfl

theorem act_names {t : Token} (ht : ∀ text, t = .label text → ';' ∉ text)
    (hL : ∀ symbol ∈ L.lc3Symbols, ';' ∉ symbol.1) (h : L.act t = .ok L') :
    ∀ symbol ∈ L'.lc3Symbols, ';' ∉ symbol.1 := by
  by_cases hlabel : ∃ text, t = .label text
  · obtain ⟨text, rfl⟩ := hlabel
    cases h
    rcases foundLabel_symbols L text with heq | heq
    · rw [heq]
      exact hL
    · rw [heq]
      intro symbol hsymbol
      rcases List.mem_append.1 hsymbol with hsymbol | hsymbol
      · exact hL symbol hsymbol
      · rw [List.mem_singleton.1 hsymbol]
        exact fun hmem => ht text rfl ((List.takeWhile_subset _) hmem)
  · rw [(keeps_effect.act (fun text heq => hlabel ⟨text, heq⟩) h).symbols]
    exact hL

theorem acts_names {tokens : List Token} (hlabels : ∀ text, .label text ∈ tokens → ';' ∉ text)
    (hL : ∀ symbol ∈ L.lc3Symbols, ';' ∉ symbol.1) (h : tokens.foldlM act L = .ok L') :
    ∀ symbol ∈ L'.lc3Symbols, ';' ∉ symbol.1 := by
  induction tokens generalizing L with
  | nil =>
    cases h
    exact hL
  | cons t tokens ih =>
    obtain ⟨K, hact, hrest⟩ := Except.bind_eq_ok_iff.1 h
    have hK := act_names (fun text heq => hlabels text (heq ▸ List.mem_cons_self)) hL hact
    exact ih (fun text htext => hlabels text (List.mem_cons_of_mem t htext)) hK hrest

theorem acts_ignored {tokens : List Token} (htokens : ∀ t ∈ tokens, t = .ignored)
    (h : tokens.foldlM act L = .ok L') : L' = L := by
  induction tokens generalizing L with
  | nil =>
    cases h
    rfl
  | cons t tokens ih =>
    rw [htokens t List.mem_cons_self] at h
    exact ih (fun t ht => htokens t (List.mem_cons_of_mem _ ht)) h

theorem generateInstruction_accepts {type : OperandType} {text : Text}
    (h : K.generateInstruction type text = .ok L') (herr : L'.errCount ≤ K.errCount) :
    K.op.accepts type = true := by
  unfold generateInstruction at h
  split at h
  · cases h
    exact absurd herr (Nat.not_succ_le_self _)
  · rename_i haccepts
    simpa using haccepts

/-- An instruction takes no string. -/
theorem ne_string_of_accepts {op : OPCode} {type : OperandType} (hop : op.isInstruction = true)
    (h : op.accepts type = true) : type ≠ .S := by
  rintro rfl
  cases op <;> first
    | exact absurd h (by decide)
    | exact absurd hop (by decide)

theorem opcode_spec {op : OPCode} {text : Text} (h : P.act (.opcode op text) = .ok K) :
    K.op = op ∧ K.curAddr = P.curAddr ∧ K.curPass = P.curPass ∧ K.errCount = P.errCount ∧
      K.lc3Symbols = P.lc3Symbols ∧ (op = .BR → K.ccode = (P.parseCCode (text.drop 2)).ccode) := by
  cases h
  split
  · exact ⟨rfl, rfl, rfl, rfl, rfl, fun _ => rfl⟩
  · rename_i hne
    exact ⟨rfl, rfl, rfl, rfl, rfl, fun heq => absurd heq hne⟩

/-- For every file and every line of it that the second pass assembles without an error:
the instruction at the address of the line is the one that its mnemonic and its operands
stand for. -/
theorem decode_assembled {file : Text} {tables : LoaderTables} {commands : Commands}
    {filename : String} {isLC3OS allowInputFile ignoreKLC3Extension : Bool} {L₁ P P' : Lexer}
    {before echoed after : List Token} {op : OPCode} {mnemonic text : Text} {type : OperandType}
    (hfile : scanFile file =
      before ++ .opcode op mnemonic :: (echoed ++ .operands type text :: after))
    (hechoed : ∀ t ∈ echoed, t = .ignored)
    (hfirst : (Lexer.new tables commands filename isLC3OS allowInputFile
      ignoreKLC3Extension).runPass 1 (scanFile file) = .ok L₁)
    (hsecond : L₁.checkFirstPass.runPass 2 before = .ok P)
    (hline : (.opcode op mnemonic :: (echoed ++ [.operands type text])).foldlM act P = .ok P')
    (haccepted : P'.errCount = P.errCount) (hop : op.isInstruction = true) :
    ∃ i : InstValue, P'.tables.mem (word P.curAddr) = some (.inst i) ∧ i.addr = word P.curAddr ∧
      (∃ os, type.Fits os ∧ Operand.LineText os text) ∧
      ∀ os, type.Fits os → Operand.LineText os text →
        Decodes P.findSymbol (conditionCode (mnemonic.drop 2)) i op os := by
  have hscanned := scanFile_scanned file
  -- What the table of symbols and the condition code are before the line.
  have hnames : ∀ symbol ∈ P.lc3Symbols, ';' ∉ symbol.1 := by
    have hL₁ := acts_names (fun text => hscanned.label) (by simp [startPass, newInstLine, Lexer.new])
      hfirst
    rw [(acts_grow hsecond).fixed (by simp [startPass, newInstLine])]
    exact fun symbol hsymbol => hL₁ symbol (checkFirstPass_symbols L₁ ▸ hsymbol)
  rw [hfile] at hscanned
  have hccode : P.ccode = 0 := ccode_of_scanned hscanned (fun _ => rfl) hsecond
  have hpass : P.curPass = 2 := (acts_grow hsecond).curPass
  -- The state in which the operands are read.
  obtain ⟨K, hopcode, hrest⟩ := Except.bind_eq_ok_iff.1 hline
  obtain ⟨K', hskip, hoperands⟩ := acts_append hrest
  obtain rfl := acts_ignored hechoed hskip
  obtain ⟨K'', hact, hend⟩ := Except.bind_eq_ok_iff.1 hoperands
  cases hend
  obtain ⟨hKop, hKaddr, hKpass, hKerr, hKsymbols, hKcc⟩ := opcode_spec hopcode
  have hfind : (K'.appendLineContent text).findSymbol = P.findSymbol := by
    funext name
    exact congrArg (fun symbols : List (Text × Int) =>
      (symbols.find? fun s => Text.sameIgnoringCase s.1 name).map Prod.snd) hKsymbols
  have herr : P'.errCount ≤ (K'.appendLineContent text).errCount :=
    haccepted.le.trans hKerr.ge
  have hmem : .operands type text ∈ before ++ .opcode op mnemonic ::
      (echoed ++ .operands type text :: after) := by simp
  have hemitted : ∀ os, type.Fits os → Operand.LineText os text →
      Emitted (K'.appendLineContent text) P' (conditionCode (mnemonic.drop 2)) os := by
    intro os hfits htext
    refine generateInstruction_emitted (hKpass.trans hpass) (by rw [← hKop] at hop; exact hop) ?_ ?_ hfits htext
      hact herr
    · intro hBR
      obtain rfl : op = .BR := hKop.symm.trans hBR
      have hbranch : Token.opcode .BR mnemonic ∈ before ++ .opcode .BR mnemonic ::
          (echoed ++ .operands type text :: after) := by simp
      obtain ⟨r, hr, hparsed⟩ := parseCCode_spec (branch_spec (hscanned.branch hbranch)) hccode
      exact ⟨r, hr, (hKcc rfl).trans hparsed⟩
    · intro symbol hsymbol
      exact hnames symbol (hKsymbols ▸ hsymbol)
  have haccepts := generateInstruction_accepts hact herr
  have hS : type ≠ .S := ne_string_of_accepts (hKop ▸ hop) haccepts
  obtain ⟨os, hfits, htext⟩ := Operand.exists_lineText hS (hscanned.operands hmem)
  obtain ⟨i, hi, haddr, -⟩ := hemitted os hfits htext
  have hPaddr : word (K'.appendLineContent text).curAddr = word P.curAddr := congrArg word hKaddr
  rw [hPaddr] at hi haddr
  refine ⟨i, hi, haddr, ⟨os, hfits, htext⟩, ?_⟩
  intro os' hfits' htext'
  obtain ⟨j, hj, -, hdecodes⟩ := hemitted os' hfits' htext'
  rw [hPaddr, hi] at hj
  cases hj
  rw [hfind, show (K'.appendLineContent text).op = op from hKop] at hdecodes
  exact hdecodes

/-- A loop with a constant that is written as a word. -/
def loopFile : Text :=
  ".ORIG xFFFF\nLOOP add R1, r2 ,xFFF0;\n brNp LOOP\n.END\n".toList

def loopTokens : List Token :=
  [.opcode .ORIG ".ORIG".toList, .operands .I " xFFFF\n".toList, .label "LOOP".toList, .ignored,
    .opcode .ADD "add".toList, .operands .RRI " R1, r2 ,xFFF0;\n".toList, .ignored]

theorem loopFile_scanned : scanFile loopFile =
    loopTokens ++ .opcode .BR "brNp".toList :: ([] ++ .operands .L " LOOP\n".toList ::
      [.endDirective ".END".toList, .blankAfterEnd]) := by
  decide +kernel

theorem loop_decoded : ∃ L₁ P P' i, wrappingLexer.runPass 1 (scanFile loopFile) = .ok L₁ ∧
    L₁.checkFirstPass.runPass 2 loopTokens = .ok P ∧
    [.opcode .BR "brNp".toList, .operands .L " LOOP\n".toList].foldlM act P = .ok P' ∧
    P'.tables.mem (word P.curAddr) = some (.inst i) ∧
    ∀ os, OperandType.L.Fits os → Operand.LineText os " LOOP\n".toList →
      Decodes P.findSymbol (conditionCode "Np".toList) i .BR os := by
  obtain ⟨i, hi, -, -, hdecodes⟩ := @decode_assembled loopFile emptyTables noCommands
    "wrapping.asm" false false false _ _ _ loopTokens [] _ _ _ _ _ loopFile_scanned (by simp)
    ((congrArg (wrappingLexer.runPass 1) loopFile_scanned).trans rfl) rfl rfl rfl rfl
  exact ⟨_, _, _, i, (congrArg (wrappingLexer.runPass 1) loopFile_scanned).trans rfl, rfl, rfl, hi,
    hdecodes⟩

end Lexer

end Klc3
