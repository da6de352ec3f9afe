import Klc3.Verification.Loader.Passes

/-!
# What only comments change

Labels, instructions and data change neither the settings of a lexer nor the constraints,
the issues and the comparisons among its tables.
-/

namespace Klc3.Lexer

variable {L L' : Lexer}

/-- The part of a lexer and its tables that belongs to the comments. -/
structure Settings where
  commands : Commands
  filename : String
  allowInputFile : Bool
  ignoreKLC3Extension : Bool
  loadingLC3OS : Bool
  curPass : Nat
  dataDefaultReadOnly : Bool
  dataDefaultUninitialized : Bool
  charPreferenceLowerBound : Nat
  constraints : List BoolExpr
  preferences : List BoolExpr
  issuePackage : IssuePackage
  crossChecker : Option CrossChecker

def settings (L : Lexer) : Settings :=
  ⟨L.commands, L.filename, L.allowInputFile, L.ignoreKLC3Extension, L.loadingLC3OS, L.curPass,
    L.dataDefaultReadOnly, L.dataDefaultUninitialized, L.charPreferenceLowerBound,
    L.tables.constraints, L.tables.preferences, L.tables.issuePackage, L.tables.crossChecker⟩

/-! ## Data and instructions -/

theorem preProcessDataLine_settings {o : DataOptions} (h : L.preProcessDataLine = .ok (L', o)) :
    L'.settings = L.settings := by
  unfold preProcessDataLine at h
  split at h
  · obtain ⟨⟨K, o'⟩, hnone, h⟩ := Except.bind_eq_ok_iff.1 h
    cases hnone
    dsimp only at h
    split at h
    · cases h
    · cases h
      rfl
  · obtain ⟨⟨K, o'⟩, hcomment, h⟩ := Except.bind_eq_ok_iff.1 h
    dsimp only at h
    split at h
    · cases h
    · cases h
      unfold parseDataComment at hcomment
      split at hcomment
      · cases hcomment
        rfl
      · split at hcomment
        · cases hcomment
          rfl
        · obtain ⟨⟨o', seen⟩, -, hcomment⟩ := Except.bind_eq_ok_iff.1 hcomment
          cases hcomment
          rfl

theorem writeSymbolic_settings {o : DataOptions} {count : Int}
    (h : L.writeSymbolic o count = .ok L') : L'.settings = L.settings := by
  unfold writeSymbolic defineMemSymbol at h
  obtain ⟨⟨K, info⟩, hdefine, h⟩ := Except.bind_eq_ok_iff.1 h
  obtain ⟨⟨name, size⟩, -, hdefine⟩ := Except.bind_eq_ok_iff.1 hdefine
  dsimp only at hdefine h
  split at hdefine
  · cases hdefine
  · obtain ⟨mem, -, hdefine⟩ := Except.bind_eq_ok_iff.1 hdefine
    cases hdefine
    split at h
    · cases h
    · cases h
      rfl

theorem addFixedVariable_settings (L : Lexer) (o : DataOptions) (isString : Bool)
    (values : List Word) : (L.addFixedVariable o isString values).settings = L.settings := by
  unfold addFixedVariable
  split <;> rfl

theorem writeCells_settings (o : DataOptions) (values : List Word) (L : Lexer) :
    (values.foldl (writeCell o) L).settings = L.settings := by
  induction values generalizing L with
  | nil => rfl
  | cons value values ih => exact (ih (writeCell o L value)).trans rfl

theorem writeFILL_settings {value : Word} (h : L.writeFILL value = .ok L') :
    L'.settings = L.settings := by
  unfold writeFILL at h
  split at h
  · obtain ⟨⟨K, o⟩, hline, h⟩ := Except.bind_eq_ok_iff.1 h
    refine Eq.trans ?_ (preProcessDataLine_settings hline)
    dsimp only at h
    split at h
    · cases h
      exact addFixedVariable_settings K o false [value]
    · obtain ⟨K', hsymbolic, h⟩ := Except.bind_eq_ok_iff.1 h
      cases h
      exact (writeSymbolic_settings hsymbolic : K'.settings = K.settings)
  · cases h
    rfl

theorem writeSTRINGZ_settings {o1 : Text} (h : L.writeSTRINGZ o1 = .ok L') :
    L'.settings = L.settings := by
  unfold writeSTRINGZ at h
  obtain ⟨⟨values, lines⟩, hscan, h⟩ := Except.bind_eq_ok_iff.1 h
  dsimp only at h
  split at h
  · obtain ⟨⟨K, o⟩, hline, h⟩ := Except.bind_eq_ok_iff.1 h
    refine Eq.trans ?_ ((preProcessDataLine_settings hline).trans rfl)
    dsimp only at h
    split at h
    · cases h
      exact (writeCells_settings o _ _).trans (addFixedVariable_settings K o true _)
    · cases h
  · cases h
    rfl

theorem writeBLKW_settings {count : Nat} (h : L.writeBLKW count = .ok L') :
    L'.settings = L.settings := by
  unfold writeBLKW at h
  split at h
  · obtain ⟨⟨K, o⟩, hline, h⟩ := Except.bind_eq_ok_iff.1 h
    refine Eq.trans ?_ (preProcessDataLine_settings hline)
    dsimp only at h
    split at h
    · cases h
      exact (writeCells_settings o _ _).trans (addFixedVariable_settings K o false _)
    · obtain ⟨K', hsymbolic, h⟩ := Except.bind_eq_ok_iff.1 h
      cases h
      exact (writeSymbolic_settings hsymbolic : K'.settings = K.settings)
  · cases h
    rfl

theorem writeInst_settings {raw : Word} (h : L.writeInst raw = .ok L') :
    L'.settings = L.settings := by
  unfold writeInst at h
  split at h
  · dsimp only at h
    have emit : ∀ {K : Lexer} {asked : Text}, K.settings = L.settings →
        (do let i ← K.allocInst raw (if asked.isEmpty then (splitComment L.curLineContent).1
              else asked)
            let K := K.addMemValue (.inst i)
            let K := if K.loadingInputFile then
                K.addVariable ⟨i.sourceContent.toList, word K.curAddr, 1, false, false, [raw], none⟩
              else K
            return K.advance 1) = .ok L' → L'.settings = L.settings := by
      intro K asked hK h
      obtain ⟨i, -, h⟩ := Except.bind_eq_ok_iff.1 h
      refine Eq.trans ?_ hK
      dsimp only at h
      split at h <;> (cases h; rfl)
    split at h
    · exact emit rfl h
    · obtain ⟨⟨K, asked⟩, hcomment, h⟩ := Except.bind_eq_ok_iff.1 h
      refine emit ?_ h
      unfold parseInstComment at hcomment
      split at hcomment
      · cases hcomment
        rfl
      · obtain ⟨content, -, hcomment⟩ := Except.bind_eq_ok_iff.1 hcomment
        cases hcomment
        rfl
  · cases h
    rfl

/-! ## Tokens -/

section

variable {s o1 o2 o3 : Option Text} {bits : Nat} {v : Int} {operands : OperandType} {p : Parsed}

theorem readInto_settings (h : L.readInto s bits = .ok (L', v)) : L'.settings = L.settings := by
  unfold readInto at h
  split at h
  · cases h
  · split at h <;> (cases h; rfl)

theorem findLabel_settings (h : L.findLabel s bits = .ok (L', v)) :
    L'.settings = L.settings := by
  unfold findLabel at h
  split at h
  · cases h
  · dsimp only at h
    repeat' split at h
    all_goals
      cases h
      rfl

theorem readTarget_settings {o1 : Text} (h : L.readTarget operands o1 bits = .ok (L', v)) :
    L'.settings = L.settings := by
  unfold readTarget at h
  split at h
  · exact readInto_settings h
  · exact findLabel_settings h

theorem preParseVal_settings (h : L.preParseVal operands o2 = .ok (L', v)) :
    L'.settings = L.settings := by
  unfold preParseVal at h
  split at h
  · exact readInto_settings h
  · split at h
    · exact findLabel_settings h
    · cases h
      rfl

theorem generate_settings {o1 : Text} (h : L.generate operands o1 o3 p = .ok L') :
    L'.settings = L.settings := by
  unfold generate at h
  dsimp only at h
  repeat' split at h
  all_goals first
    | exact writeInst_settings h
    | exact writeSTRINGZ_settings h
    | (cases h; rfl)
    | (obtain ⟨⟨K, v⟩, hread, h⟩ := Except.bind_eq_ok_iff.1 h
       first
         | exact (writeInst_settings h).trans (readInto_settings hread)
         | exact (writeInst_settings h).trans (readTarget_settings hread)
         | exact (writeFILL_settings h).trans (readTarget_settings hread)
         | exact (writeBLKW_settings h).trans (readInto_settings hread))

theorem generateORIG_settings {o1 : Text} (h : L.generateORIG o1 = .ok L') :
    L'.settings = L.settings := by
  unfold generateORIG at h
  split at h
  · obtain ⟨⟨K, addr⟩, hread, h⟩ := Except.bind_eq_ok_iff.1 h
    cases h
    exact (readInto_settings hread : K.settings = L.settings)
  · split at h <;> (cases h; rfl)

theorem generateInstruction_settings {opstr : Text}
    (h : L.generateInstruction operands opstr = .ok L') : L'.settings = L.settings := by
  unfold generateInstruction at h
  split at h
  · cases h
    rfl
  · dsimp only at h
    split at h
    · obtain ⟨K, horig, h⟩ := Except.bind_eq_ok_iff.1 h
      cases h
      exact (generateORIG_settings horig : K.settings = L.settings)
    · split at h
      · cases h
        rfl
      · obtain ⟨⟨K, p⟩, hparse, h⟩ := Except.bind_eq_ok_iff.1 h
        obtain ⟨K', hgenerate, h⟩ := Except.bind_eq_ok_iff.1 h
        cases h
        have hK : K.settings = L.settings := preParseVal_settings (preParse_val hparse)
        exact (generate_settings hgenerate : K'.settings = K.settings).trans hK

end

theorem foundLabel_settings (L : Lexer) (s : Text) : (L.foundLabel s).settings = L.settings := by
  unfold foundLabel
  dsimp only
  split
  · split
    · rfl
    · unfold addSymbol
      split
      · rfl
      · rename_i K hadd
        split at hadd
        · cases hadd
        · cases hadd
          rfl
  · rfl

/-- Only a comment on a line of its own changes what belongs to the comments. -/
theorem act_settings {token : Token} (htoken : ∀ text, token ≠ .commentLine text)
    (h : L.act token = .ok L') : L'.settings = L.settings := by
  cases token with
  | opcode op text =>
    cases h
    split <;> rfl
  | operands type text =>
    exact (generateInstruction_settings h).trans rfl
  | commentLine text => exact absurd rfl (htoken text)
  | label text =>
    cases h
    exact foundLabel_settings L text
  | endDirective _ | blankLine | unterminatedString | badOperands | badLine | blankAfterEnd |
    ignored =>
    cases h
    rfl

end Klc3.Lexer
