import Klc3.Model.Scanner
import Klc3.Verification.Loader.Declarations

/-!
# The distance to a label

A lexer keeps its address as a signed integer: `.ORIG` extends the sign, and only the words
that follow mask the address. `findLabel` subtracts two such addresses.
-/

namespace Klc3.Lexer

variable {L L' L'' : Lexer}

/-! ## Addresses -/

/-- An address as a lexer keeps it. -/
def Located (addr : Int) : Prop :=
  -0x8000 ≤ addr ∧ addr < 0x10000

theorem word_toNat (addr : Int) : ((word addr).toNat : Int) = addr % 0x10000 := by
  unfold word
  rw [BitVec.toNat_ofInt]
  omega

theorem readVal_located {s : Text} {v : Int} (h : readVal s 16 = some v) : Located v := by
  unfold readVal at h
  extract_lets value extended at h
  clear_value extended
  unfold Located
  split at h
  · cases h
  · split at h <;> (cases h; omega)

theorem advance_located (L : Lexer) (n : Int) : Located (L.advance n).curAddr := by
  unfold advance Located
  dsimp only
  omega

/-- What an action does to the address: it stays, or a lexer keeps the new one. -/
def Addressed (L L' : Lexer) : Prop :=
  Located L.curAddr → Located L'.curAddr

theorem Addressed.of_eq (h : L'.curAddr = L.curAddr) : Addressed L L' :=
  fun hL => h ▸ hL

theorem Addressed.of_core (h : L'.core = L.core) : Addressed L L' :=
  .of_eq (congrArg Core.curAddr h)

theorem Addressed.trans (h : Addressed L L') (h' : Addressed L' L'') : Addressed L L'' :=
  fun hL => h' (h hL)

theorem writeCells_addressed (o : DataOptions) (values : List Word) (L : Lexer) :
    Addressed L (values.foldl (writeCell o) L) := by
  induction values generalizing L with
  | nil => exact id
  | cons value values ih =>
    have hcell : Addressed L (writeCell o L value) := fun _ => advance_located _ 1
    exact hcell.trans (ih _)

theorem writeFixed_addressed (L : Lexer) (o : DataOptions) (isString : Bool)
    (values : List Word) :
    Addressed L (values.foldl (writeCell o) (L.addFixedVariable o isString values)) :=
  (Addressed.of_core (addFixedVariable_core L o isString values)).trans
    (writeCells_addressed o values _)

theorem writeInst_addressed {raw : Word} (h : L.writeInst raw = .ok L') : Addressed L L' := by
  intro hL
  unfold writeInst at h
  split at h
  · dsimp only at h
    have emit : ∀ {K : Lexer} {asked : Text},
        (do let i ← K.allocInst raw (if asked.isEmpty then (splitComment L.curLineContent).1
              else asked)
            let K := K.addMemValue (.inst i)
            let K := if K.loadingInputFile then
                K.addVariable ⟨i.sourceContent.toList, word K.curAddr, 1, false, false, [raw], none⟩
              else K
            return K.advance 1) = .ok L' → Located L'.curAddr := by
      intro K asked h
      obtain ⟨i, -, h⟩ := Except.bind_eq_ok_iff.1 h
      cases h
      exact advance_located _ 1
    split at h
    · exact emit h
    · obtain ⟨⟨K, asked⟩, -, h⟩ := Except.bind_eq_ok_iff.1 h
      exact emit h
  · cases h
    exact advance_located L 1

theorem writeFILL_addressed {value : Word} (h : L.writeFILL value = .ok L') :
    Addressed L L' := by
  unfold writeFILL at h
  split at h
  · obtain ⟨⟨K, o⟩, hline, h⟩ := Except.bind_eq_ok_iff.1 h
    dsimp only at h
    split at h
    · cases h
      exact fun _ => advance_located _ 1
    · obtain ⟨K', hsymbolic, h⟩ := Except.bind_eq_ok_iff.1 h
      cases h
      exact fun _ => advance_located K' 1
  · cases h
    exact fun _ => advance_located L 1

theorem writeBLKW_addressed {count : Nat} (h : L.writeBLKW count = .ok L') :
    Addressed L L' := by
  unfold writeBLKW at h
  split at h
  · obtain ⟨⟨K, o⟩, hline, h⟩ := Except.bind_eq_ok_iff.1 h
    refine (Addressed.of_core (preProcessDataLine_core hline)).trans ?_
    dsimp only at h
    split at h
    · cases h
      exact writeFixed_addressed K o false _
    · obtain ⟨K', hsymbolic, h⟩ := Except.bind_eq_ok_iff.1 h
      cases h
      exact fun _ => advance_located K' count
  · cases h
    exact fun _ => advance_located L count

theorem writeSTRINGZ_addressed {o1 : Text} (h : L.writeSTRINGZ o1 = .ok L') :
    Addressed L L' := by
  unfold writeSTRINGZ at h
  obtain ⟨⟨values, lines⟩, hscan, h⟩ := Except.bind_eq_ok_iff.1 h
  dsimp only at h
  split at h
  · obtain ⟨⟨K, o⟩, hline, h⟩ := Except.bind_eq_ok_iff.1 h
    refine (Addressed.of_eq (congrArg Core.curAddr (preProcessDataLine_core hline))).trans ?_
    dsimp only at h
    split at h
    · cases h
      exact writeFixed_addressed K o true _
    · cases h
  · cases h
    exact fun _ => advance_located _ _

section

variable {s o1 o2 o3 : Option Text} {bits : Nat} {v : Int} {operands : OperandType} {p : Parsed}

theorem readInto_addressed (h : L.readInto s bits = .ok (L', v)) : Addressed L L' := by
  unfold readInto at h
  split at h
  · cases h
  · split at h <;> (cases h; exact id)

theorem readTarget_addressed {o1 : Text} (h : L.readTarget operands o1 bits = .ok (L', v)) :
    Addressed L L' := by
  obtain ⟨errors, errCount, rfl⟩ := readTarget_eq h
  exact id

theorem generate_addressed {o1 : Text} (h : L.generate operands o1 o3 p = .ok L') :
    Addressed L L' := by
  unfold generate at h
  dsimp only at h
  repeat' split at h
  all_goals first
    | exact writeInst_addressed h
    | exact writeSTRINGZ_addressed h
    | (cases h; exact id)
    | (obtain ⟨⟨K, v⟩, hread, h⟩ := Except.bind_eq_ok_iff.1 h
       first
         | exact (readInto_addressed hread).trans (writeInst_addressed h)
         | exact (readTarget_addressed hread).trans (writeInst_addressed h)
         | exact (readTarget_addressed hread).trans (writeFILL_addressed h)
         | exact (readInto_addressed hread).trans (writeBLKW_addressed h))

theorem generateORIG_addressed {o1 : Text} (h : L.generateORIG o1 = .ok L') :
    Addressed L L' := by
  unfold generateORIG at h
  split at h
  · obtain ⟨⟨K, addr⟩, hread, h⟩ := Except.bind_eq_ok_iff.1 h
    obtain ⟨rfl, -⟩ := readInto_eq hread
    cases h
    intro _
    cases hval : readVal o1 16 with
    | none => simp [Located]
    | some v => simpa using readVal_located hval
  · split at h <;> (cases h; exact id)

theorem generateInstruction_addressed {opstr : Text}
    (h : L.generateInstruction operands opstr = .ok L') : Addressed L L' := by
  unfold generateInstruction at h
  split at h
  · cases h
    exact id
  · dsimp only at h
    split at h
    · obtain ⟨K, horig, h⟩ := Except.bind_eq_ok_iff.1 h
      cases h
      have hK : Addressed L K := generateORIG_addressed horig
      exact hK
    · split at h
      · cases h
        exact id
      · obtain ⟨⟨K, p⟩, hparse, h⟩ := Except.bind_eq_ok_iff.1 h
        obtain ⟨K', hgenerate, h⟩ := Except.bind_eq_ok_iff.1 h
        cases h
        have hparsed : Addressed L K := by
          obtain ⟨errors, errCount, rfl⟩ := preParseVal_eq (preParse_val hparse)
          exact id
        have hK : Addressed K K' := generate_addressed hgenerate
        exact hparsed.trans hK

end

/-- The address of the lexer, and those of the labels that it has found. -/
structure Addresses (L : Lexer) : Prop where
  curAddr : Located L.curAddr
  symbols : ∀ s ∈ L.lc3Symbols, Located s.2

theorem foundLabel_addresses (hL : L.Addresses) (s : Text) : (L.foundLabel s).Addresses := by
  refine ⟨(foundLabel_curAddr L s).symm ▸ hL.curAddr, ?_⟩
  unfold foundLabel
  dsimp only
  split
  · split
    · exact hL.symbols
    · unfold addSymbol
      split
      · exact hL.symbols
      · rename_i K hadd
        split at hadd
        · cases hadd
        · cases hadd
          refine List.forall_mem_append.2 ⟨hL.symbols, ?_⟩
          intro s hs
          obtain rfl := List.mem_singleton.1 hs
          exact hL.curAddr
  · exact hL.symbols

theorem act_addresses (hL : L.Addresses) {token : Token} (h : L.act token = .ok L') :
    L'.Addresses := by
  by_cases hlabel : ∀ text, token ≠ .label text
  · refine ⟨?_, (keeps_effect.act hlabel h).symbols ▸ hL.symbols⟩
    cases token with
    | operands type text =>
      exact generateInstruction_addressed (L := L.appendLineContent text) h hL.curAddr
    | label text => exact absurd rfl (hlabel text)
    | _ =>
      rw [act_curAddr rfl h]
      exact hL.curAddr
  · push Not at hlabel
    obtain ⟨text, rfl⟩ := hlabel
    cases h
    exact foundLabel_addresses hL text

theorem acts_addresses (hL : L.Addresses) {tokens : List Token}
    (h : tokens.foldlM act L = .ok L') : L'.Addresses := by
  induction tokens generalizing L with
  | nil =>
    cases h
    exact hL
  | cons token tokens ih =>
    rw [List.foldlM_cons] at h
    obtain ⟨K, hact, hrest⟩ := Except.bind_eq_ok_iff.1 h
    exact ih (act_addresses hL hact) hrest

theorem startPass_addresses {pass : Nat} (hsymbols : ∀ s ∈ L.lc3Symbols, Located s.2) :
    (L.startPass pass).Addresses :=
  ⟨by simp [startPass, newInstLine, Located], hsymbols⟩

/-! ## Distances -/

/-- What the field of an instruction can hold. -/
def FitsField (bits : Nat) (distance : Int) : Prop :=
  -(2 : Int) ^ (bits - 1) ≤ distance ∧ distance < (2 : Int) ^ (bits - 1)

/-- A label is found when its distance fits the field, and else reported. -/
def FindsDistance (L : Lexer) (s : Text) (bits : Nat) (distance : Int) : Prop :=
  (FitsField bits distance → L.findLabel (some s) bits = .ok (L, distance)) ∧
    (¬FitsField bits distance → ∃ value, L.findLabel (some s) bits =
      .ok (L.error (.labelDistance (symName s) value (2 ^ (bits - 1))), 0))

theorem findLabel_finds (hpass : L.curPass ≠ 1) {s : Text} {addr : Int}
    (hlabel : L.findSymbol (symName s) = some addr) {bits : Nat} (hbits : bits ≠ 16) :
    L.FindsDistance s bits (addr - (L.curAddr + 1)) := by
  unfold FindsDistance findLabel FitsField
  dsimp only
  rw [if_neg hpass, hlabel]
  dsimp only
  rw [if_pos hbits]
  constructor
  · intro hfits
    rw [if_neg (by omega)]
    rfl
  · intro hfits
    rw [if_pos (by omega)]
    exact ⟨_, rfl⟩

/-- A lexer that finds one distance finds another one exactly when neither fits the field or
both are the same. -/
theorem FindsDistance.iff {s : Text} {bits : Nat} {distance distance' : Int}
    (h : L.FindsDistance s bits distance) :
    L.FindsDistance s bits distance' ↔
      distance' = distance ∨ ¬FitsField bits distance' ∧ ¬FitsField bits distance := by
  obtain ⟨hfound, hreported⟩ := h
  have hne : ∀ {v : Int} {e : CompileErr},
      (.ok (L, v) : Except Abort (Lexer × Int)) ≠ .ok (L.error e, 0) := by
    intro v e heq
    have hcount := congrArg Lexer.errCount (Prod.mk.inj (Except.ok.inj heq)).1
    exact absurd hcount (Nat.succ_ne_self L.errCount).symm
  constructor
  · rintro ⟨hfound', hreported'⟩
    by_cases hfits : FitsField bits distance <;> by_cases hfits' : FitsField bits distance'
    · have heq := (hfound' hfits').symm.trans (hfound hfits)
      exact .inl (Prod.mk.inj (Except.ok.inj heq)).2
    · obtain ⟨value, hvalue⟩ := hreported' hfits'
      exact absurd ((hfound hfits).symm.trans hvalue) hne
    · obtain ⟨value, hvalue⟩ := hreported hfits
      exact absurd ((hfound' hfits').symm.trans hvalue) hne
    · exact .inr ⟨hfits', hfits⟩
  · rintro (rfl | ⟨hfits', hfits⟩)
    · exact ⟨hfound, hreported⟩
    · exact ⟨fun hfits => absurd hfits hfits', fun _ => hreported hfits⟩

/-- The label is within reach on the circle of addresses. -/
def Near (bits : Nat) (addr curAddr : Int) : Prop :=
  FitsField bits ((addr - (curAddr + 1)).bmod 0x10000)

theorem bmod_word (n : Int) : n.bmod 0x10000 =
    if n % 0x10000 < 0x8000 then n % 0x10000 else n % 0x10000 - 0x10000 := by
  rw [Int.bmod_def]
  split <;> split <;> omega

/-- The distance from the next address, which is an address itself. -/
def wrappedDistance (addr curAddr : Int) : Int :=
  (word addr).toNat - (word (curAddr + 1)).toNat

/-- The distance from the number after the address. -/
def plainDistance (addr curAddr : Int) : Int :=
  (word addr).toNat - ((word curAddr).toNat + 1)

section

variable {bits : Nat} {addr curAddr : Int}

/-- The limits of a field of at most 15 bits. -/
theorem field_limit (hbits : bits < 16) :
    1 ≤ (2 : Int) ^ (bits - 1) ∧ (2 : Int) ^ (bits - 1) ≤ 0x4000 := by
  have hpow : 2 ^ (bits - 1) ≤ 2 ^ 14 := Nat.pow_le_pow_right Nat.two_pos (by omega)
  have hone : 1 ≤ 2 ^ (bits - 1) := Nat.one_le_two_pow
  exact ⟨by exact_mod_cast hone, by exact_mod_cast hpow⟩

theorem wrappedDistance_agrees_iff (hbits : bits < 16) (haddr : Located addr)
    (hcur : Located curAddr) :
    (wrappedDistance addr curAddr = addr - (curAddr + 1) ∨
      ¬FitsField bits (wrappedDistance addr curAddr) ∧ ¬FitsField bits (addr - (curAddr + 1))) ↔
    (if curAddr = 0xFFFF then addr < 0 else (addr < 0 ↔ curAddr + 1 < 0)) ∨
      ¬Near bits addr curAddr := by
  obtain ⟨hone, hmax⟩ := field_limit hbits
  unfold wrappedDistance Near FitsField
  rw [word_toNat, word_toNat, bmod_word]
  unfold Located at haddr hcur
  generalize (2 : Int) ^ (bits - 1) = limit at *
  split <;> split <;> omega

theorem plainDistance_agrees_iff (hbits : bits < 16) (haddr : Located addr)
    (hcur : Located curAddr) :
    (plainDistance addr curAddr = addr - (curAddr + 1) ∨
      ¬FitsField bits (plainDistance addr curAddr) ∧ ¬FitsField bits (addr - (curAddr + 1))) ↔
    (addr < 0 ↔ curAddr < 0) ∨ ¬Near bits addr curAddr := by
  obtain ⟨hone, hmax⟩ := field_limit hbits
  unfold plainDistance Near FitsField
  rw [word_toNat, word_toNat, bmod_word]
  unfold Located at haddr hcur
  generalize (2 : Int) ^ (bits - 1) = limit at *
  split <;> omega

end

/-- The second pass finds the distance of a label when the lexer keeps both addresses on the
same side of zero, or the label is out of reach anyway. A negative address stands for the
origin of a program at `x8000` or above, before its first word. -/
theorem label_distance_iff {c : IssueCommands} {t : LoaderTables} {f : SourceFile}
    {before after : List Token} {L P : Lexer}
    (hfirst : (f.lexer c t).runPass 1 (before ++ after) = .ok L)
    (hsecond : L.checkFirstPass.runPass 2 before = .ok P) {text s : Text} {addr : Int}
    (hlabel : P.findSymbol (symName s) = some addr) {bits : Nat} (hbits : bits < 16) :
    ((P.appendLineContent text).FindsDistance s bits (wrappedDistance addr P.curAddr) ↔
      (if P.curAddr = 0xFFFF then addr < 0 else (addr < 0 ↔ P.curAddr + 1 < 0)) ∨
        ¬Near bits addr P.curAddr) ∧
    ((P.appendLineContent text).FindsDistance s bits (plainDistance addr P.curAddr) ↔
      (addr < 0 ↔ P.curAddr < 0) ∨ ¬Near bits addr P.curAddr) := by
  have hL : L.Addresses := acts_addresses (startPass_addresses (by simp [SourceFile.lexer, new]))
    hfirst
  have hP : P.Addresses := by
    refine acts_addresses (startPass_addresses ?_) hsecond
    rw [checkFirstPass_symbols]
    exact hL.symbols
  have haddr : Located addr := by
    obtain ⟨p, hp, rfl⟩ := Option.map_eq_some_iff.1 hlabel
    exact hP.symbols p (List.mem_of_find?_eq_some hp)
  have hpass : P.curPass = 2 := (acts_grow hsecond).curPass
  have hfinds : (P.appendLineContent text).FindsDistance s bits (addr - (P.curAddr + 1)) :=
    findLabel_finds (L := P.appendLineContent text)
      (fun h => absurd (hpass.symm.trans h) (by decide)) hlabel (by omega)
  rw [hfinds.iff, hfinds.iff]
  exact ⟨wrappedDistance_agrees_iff hbits haddr hP.curAddr,
    plainDistance_agrees_iff hbits haddr hP.curAddr⟩

end Klc3.Lexer

namespace Klc3

/-! ## A program in the upper half -/

namespace UpperHalf

open Lexer

def tokens (origin : Text) : List Token :=
  scanFile (".ORIG ".toList ++ origin ++ "\nA ADD R0,R0,#0\nBR A\n.END\n".toList)

def file (origin : Text) : SourceFile where
  filename := "upper.asm"
  isLC3OS := false
  allowInputFile := false
  collectCompileIssues := false
  ignoreKLC3Extension := false
  tokens := tokens origin

/-- In the lower half the branch finds its label. -/
theorem lower_label_found : ∃ L P,
    ((file "x3000".toList).lexer issueCommands emptyTables).runPass 1
        ((tokens "x3000".toList).take 7 ++ (tokens "x3000".toList).drop 7) = .ok L ∧
      L.checkFirstPass.runPass 2 ((tokens "x3000".toList).take 7) = .ok P ∧
      P.findSymbol (symName "A\n".toList) = some 0x3000 ∧
      (P.appendLineContent " A\n".toList).FindsDistance "A\n".toList 9 (-2) := by
  refine ⟨_, _, rfl, rfl, rfl, ?_⟩
  exact (@label_distance_iff issueCommands emptyTables (file "x3000".toList)
    ((tokens "x3000".toList).take 7) ((tokens "x3000".toList).drop 7) _ _ rfl rfl
    " A\n".toList "A\n".toList 0x3000 rfl 9 (by decide)).2.2
    (.inl (iff_of_false (by decide) (show ¬(0x3001 : Int) < 0 by decide)))

/-- In the upper half the label of the first line is out of reach. -/
theorem upper_label_reported : ∃ L P,
    ((file "x8000".toList).lexer issueCommands emptyTables).runPass 1
        ((tokens "x8000".toList).take 7 ++ (tokens "x8000".toList).drop 7) = .ok L ∧
      L.checkFirstPass.runPass 2 ((tokens "x8000".toList).take 7) = .ok P ∧
      P.findSymbol (symName "A\n".toList) = some (-0x8000) ∧ P.curAddr = 0x8001 ∧
      wrappedDistance (-0x8000) P.curAddr = -2 ∧ plainDistance (-0x8000) P.curAddr = -2 ∧
      ¬(P.appendLineContent " A\n".toList).FindsDistance "A\n".toList 9 (-2) := by
  refine ⟨_, _, rfl, rfl, rfl, rfl, rfl, rfl, ?_⟩
  rintro ⟨hfound, -⟩
  have hvalue := congrArg (fun r => r.toOption.map Prod.snd) (hfound ⟨by decide, by decide⟩)
  exact absurd hvalue (by decide)

end UpperHalf

end Klc3
