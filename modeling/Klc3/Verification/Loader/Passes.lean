import Klc3.Lib.Except
import Klc3.Model.Lexer

/-!
# The two passes agree

Both passes run over the same tokens. As long as the first one finds no error, they agree
on the location counter, on the line, and on every constant that is read.
-/

namespace Klc3

/-- Whether a token ends a line that may occupy memory. -/
def Token.emits : Token → Bool
  | .operands _ _ => true
  | _ => false

namespace Lexer

variable {L L' L₁ L₂ L₁' L₂' : Lexer}

/-! ## What the tables do not show -/

/-- The part of a lexer that the comments and the tables have no influence on. -/
structure Core where
  curPass : Nat
  curLine : Nat
  errCount : Nat
  sawORIG : Nat
  curAddr : Int
  op : OPCode
  lc3Symbols : List (Text × Int)
  errors : List CompileErr

def core (L : Lexer) : Core :=
  ⟨L.curPass, L.curLine, L.errCount, L.sawORIG, L.curAddr, L.op, L.lc3Symbols, L.errors⟩

theorem parseInstComment_core {comment content : Text}
    (h : L.parseInstComment comment = .ok (L', content)) : L'.core = L.core := by
  unfold parseInstComment at h
  split at h
  · cases h
    rfl
  · obtain ⟨content', -, h⟩ := Except.bind_eq_ok_iff.1 h
    cases h
    rfl

theorem parseDataComment_core {comment : Text} {o : DataOptions}
    (h : L.parseDataComment comment = .ok (L', o)) : L'.core = L.core := by
  unfold parseDataComment at h
  split at h
  · cases h
    rfl
  · split at h
    · cases h
      rfl
    · obtain ⟨⟨o', seen⟩, -, h⟩ := Except.bind_eq_ok_iff.1 h
      cases h
      rfl

theorem preProcessDataLine_core {o : DataOptions} (h : L.preProcessDataLine = .ok (L', o)) :
    L'.core = L.core := by
  unfold preProcessDataLine at h
  split at h
  · obtain ⟨⟨K, o'⟩, hnone, h⟩ := Except.bind_eq_ok_iff.1 h
    cases hnone
    dsimp only at h
    split at h
    · cases h
    · cases h
      rfl
  · obtain ⟨⟨K, o'⟩, hcomment, h⟩ := Except.bind_eq_ok_iff.1 h
    dsimp only at h
    split at h
    · cases h
    · cases h
      exact parseDataComment_core hcomment

theorem writeSymbolic_core {o : DataOptions} {count : Int}
    (h : L.writeSymbolic o count = .ok L') : L'.core = L.core := by
  unfold writeSymbolic defineMemSymbol at h
  obtain ⟨⟨K, info⟩, hdefine, h⟩ := Except.bind_eq_ok_iff.1 h
  obtain ⟨⟨name, size⟩, -, hdefine⟩ := Except.bind_eq_ok_iff.1 hdefine
  dsimp only at hdefine h
  split at hdefine
  · cases hdefine
  · obtain ⟨mem, -, hdefine⟩ := Except.bind_eq_ok_iff.1 hdefine
    cases hdefine
    split at h
    · cases h
    · cases h
      rfl

theorem addFixedVariable_core (L : Lexer) (o : DataOptions) (isString : Bool)
    (values : List Word) : (L.addFixedVariable o isString values).core = L.core := by
  unfold addFixedVariable
  split <;> rfl

theorem parseCommands_core {fuel : Nat} {s : Text} (h : parseCommands fuel s L = .ok L') :
    L'.core = L.core := by
  induction fuel generalizing s L with
  | zero => cases h
  | succ fuel ih =>
    unfold parseCommands at h
    repeat' split at h
    all_goals first
      | (cases h; done)
      | (cases h; rfl)
      | exact (ih h).trans rfl
      | (obtain ⟨⟨_, tables⟩, -, h⟩ := Except.bind_eq_ok_iff.1 h
         first
           | (cases h; rfl)
           | exact (ih h).trans rfl)

theorem parseComment_core {comment : Text} (h : L.parseComment comment = .ok L') :
    L'.core = L.core := by
  unfold parseComment at h
  split at h
  · cases h
    rfl
  · split at h
    · cases h
      rfl
    · dsimp only at h
      split at h
      · cases h
        rfl
      · exact (parseCommands_core h).trans rfl

/-! ## The location counter -/

@[simp] theorem word_add (a b : Int) : word (a + b) = word a + word b :=
  BitVec.ofInt_add a b

theorem word_emod (a : Int) : word (a % 0x10000) = word a := by
  apply BitVec.eq_of_toInt_eq
  rw [word, word, BitVec.toInt_ofInt, BitVec.toInt_ofInt]
  exact Int.emod_bmod a 65536

/-- Nothing but the location counter moves, by `n` locations. -/
def Moved (n : Int) (L L' : Lexer) : Prop :=
  L'.core = { L.core with curAddr := L'.curAddr } ∧ word L'.curAddr = word L.curAddr + word n

theorem Moved.of_core (h : L'.core = (L.advance n).core) : Moved n L L' := by
  have haddr : L'.curAddr = (L.advance n).curAddr := congrArg Core.curAddr h
  refine ⟨?_, ?_⟩
  · rw [h, haddr]
    rfl
  · rw [haddr]
    exact (word_emod _).trans (word_add _ _)

theorem Moved.trans (h : Moved n L L') (h' : Moved k L' L'') : Moved (n + k) L L'' := by
  refine ⟨?_, ?_⟩
  · rw [h'.1, h.1]
  · rw [h'.2, h.2, word_add, BitVec.add_assoc]

theorem Moved.of_core_left (h : L'.core = L.core) (hm : Moved n L' L'') : Moved n L L'' := by
  have haddr : L'.curAddr = L.curAddr := congrArg Core.curAddr h
  exact ⟨by rw [hm.1, h], by rw [hm.2, haddr]⟩

theorem writeCells_moved (o : DataOptions) (values : List Word) (L : Lexer) :
    Moved values.length L (values.foldl (writeCell o) L) := by
  induction values generalizing L with
  | nil => exact ⟨rfl, by simp [word]⟩
  | cons value values ih =>
    have hcell : Moved 1 L (writeCell o L value) := Moved.of_core rfl
    have hlength : ((value :: values).length : Int) = 1 + values.length := by
      simp [Int.add_comm]
    rw [hlength]
    exact hcell.trans (ih _)

theorem writeInst_moved (h : L.writeInst raw = .ok L') : Moved 1 L L' := by
  unfold writeInst at h
  split at h
  · dsimp only at h
    have emit : ∀ {K : Lexer} {asked : Text}, K.core = L.core →
        (do let i ← K.allocInst raw (if asked.isEmpty then (splitComment L.curLineContent).1
              else asked)
            let K := K.addMemValue (.inst i)
            let K := if K.loadingInputFile then
                K.addVariable ⟨i.sourceContent.toList, word K.curAddr, 1, false, false, [raw], none⟩
              else K
            return K.advance 1) = .ok L' → Moved 1 L L' := by
      intro K asked hcore h
      obtain ⟨i, -, h⟩ := Except.bind_eq_ok_iff.1 h
      refine Moved.of_core_left hcore (Moved.of_core ?_)
      dsimp only at h
      split at h <;> (cases h; rfl)
    split at h
    · exact emit rfl h
    · obtain ⟨⟨K, asked⟩, hcomment, h⟩ := Except.bind_eq_ok_iff.1 h
      exact emit (parseInstComment_core hcomment) h
  · cases h
    exact Moved.of_core rfl

theorem writeFILL_moved (h : L.writeFILL value = .ok L') : Moved 1 L L' := by
  unfold writeFILL at h
  split at h
  · obtain ⟨⟨K, o⟩, hline, h⟩ := Except.bind_eq_ok_iff.1 h
    refine Moved.of_core_left (preProcessDataLine_core hline) ?_
    dsimp only at h
    split at h
    · cases h
      exact Moved.of_core_left (addFixedVariable_core K o false [value]) (Moved.of_core rfl)
    · obtain ⟨K', hsymbolic, h⟩ := Except.bind_eq_ok_iff.1 h
      cases h
      exact Moved.of_core_left (writeSymbolic_core hsymbolic) (Moved.of_core rfl)
  · cases h
    exact Moved.of_core rfl

theorem writeBLKW_moved (h : L.writeBLKW count = .ok L') : Moved count L L' := by
  unfold writeBLKW at h
  split at h
  · obtain ⟨⟨K, o⟩, hline, h⟩ := Except.bind_eq_ok_iff.1 h
    refine Moved.of_core_left (preProcessDataLine_core hline) ?_
    dsimp only at h
    split at h
    · cases h
      have hcells := writeCells_moved o (List.replicate count (0 : Word))
        (K.addFixedVariable o false (List.replicate count 0))
      rw [List.length_replicate] at hcells
      exact Moved.of_core_left (addFixedVariable_core K o false _) hcells
    · obtain ⟨K', hsymbolic, h⟩ := Except.bind_eq_ok_iff.1 h
      cases h
      exact Moved.of_core_left (writeSymbolic_core hsymbolic) (Moved.of_core rfl)
  · cases h
    exact Moved.of_core rfl

/-- The lines of a string count, and so does its terminator. -/
theorem writeSTRINGZ_moved {o1 : Text} (h : L.writeSTRINGZ o1 = .ok L') :
    ∃ values lines, scanString (o1.drop 1) = .ok (values, lines) ∧
      Moved (values.length + 1) { L with curLine := L.curLine + lines } L' := by
  unfold writeSTRINGZ at h
  obtain ⟨⟨values, lines⟩, hscan, h⟩ := Except.bind_eq_ok_iff.1 h
  refine ⟨values, lines, hscan, ?_⟩
  have hlength : ((values ++ [0]).length : Int) = values.length + 1 := by simp
  rw [← hlength]
  dsimp only at h
  split at h
  · obtain ⟨⟨K, o⟩, hline, h⟩ := Except.bind_eq_ok_iff.1 h
    refine Moved.of_core_left (preProcessDataLine_core hline) ?_
    dsimp only at h
    split at h
    · cases h
      exact Moved.of_core_left (addFixedVariable_core K o true _) (writeCells_moved o _ _)
    · cases h
  · cases h
    exact Moved.of_core rfl

/-! ## Errors and symbols only grow -/

/-- A relation that holds of whatever an action other than a label does to the errors and the
symbols. -/
structure Effect (R : Lexer → Lexer → Prop) : Prop where
  trans : ∀ {L L' L''}, R L L' → R L' L'' → R L L''
  frame : ∀ {L L'}, L'.curPass = L.curPass → L'.lc3Symbols = L.lc3Symbols →
    L'.errCount = L.errCount → L'.errors = L.errors → R L L'
  error : ∀ L e, e ≠ .multipleORIG → R L (L.error e)
  multipleORIG : ∀ L, R L { L with errors := L.errors ++ [.multipleORIG], sawORIG := 2 }

namespace Effect

variable {R : Lexer → Lexer → Prop}

theorem refl (hR : Effect R) (L : Lexer) : R L L :=
  hR.frame rfl rfl rfl rfl

theorem of_core (hR : Effect R) (h : L'.core = L.core) : R L L' :=
  hR.frame (congrArg Core.curPass h) (congrArg Core.lc3Symbols h) (congrArg Core.errCount h)
    (congrArg Core.errors h)

theorem of_moved (hR : Effect R) (h : Moved n L L') : R L L' :=
  hR.frame (congrArg Core.curPass h.1) (congrArg Core.lc3Symbols h.1)
    (congrArg Core.errCount h.1) (congrArg Core.errors h.1)

theorem readInto (hR : Effect R) (h : L.readInto s bits = .ok (L', v)) : R L L' := by
  unfold Lexer.readInto at h
  split at h
  · cases h
  · split at h
    · cases h
      exact hR.refl L
    · cases h
      exact hR.error L _ (by simp)

theorem findLabel (hR : Effect R) (h : L.findLabel s bits = .ok (L', v)) : R L L' := by
  unfold Lexer.findLabel at h
  split at h
  · cases h
  · dsimp only at h
    repeat' split at h
    all_goals
      cases h
      first
        | exact hR.refl L
        | exact hR.error L _ (by simp)

theorem readTarget (hR : Effect R) (h : L.readTarget operands o1 bits = .ok (L', v)) :
    R L L' := by
  unfold Lexer.readTarget at h
  split at h
  · exact hR.readInto h
  · exact hR.findLabel h

theorem preParseVal (hR : Effect R) (h : L.preParseVal operands o2 = .ok (L', v)) : R L L' := by
  unfold Lexer.preParseVal at h
  split at h
  · exact hR.readInto h
  · split at h
    · exact hR.findLabel h
    · cases h
      exact hR.refl L

theorem writeSTRINGZ (hR : Effect R) (h : L.writeSTRINGZ o1 = .ok L') : R L L' := by
  obtain ⟨values, lines, -, hmoved⟩ := writeSTRINGZ_moved h
  refine hR.trans ?_ (hR.of_moved hmoved)
  exact hR.frame rfl rfl rfl rfl

theorem generate (hR : Effect R) (h : L.generate operands o1 o3 p = .ok L') : R L L' := by
  unfold Lexer.generate at h
  dsimp only at h
  repeat' split at h
  all_goals first
    | exact hR.of_moved (writeInst_moved h)
    | exact hR.writeSTRINGZ h
    | (cases h; exact hR.refl L)
    | (obtain ⟨⟨K, v⟩, hread, h⟩ := Except.bind_eq_ok_iff.1 h
       first
         | exact hR.trans (hR.readInto hread) (hR.of_moved (writeInst_moved h))
         | exact hR.trans (hR.readTarget hread) (hR.of_moved (writeInst_moved h))
         | exact hR.trans (hR.readTarget hread) (hR.of_moved (writeFILL_moved h))
         | exact hR.trans (hR.readInto hread) (hR.of_moved (writeBLKW_moved h)))

theorem generateORIG (hR : Effect R) (h : L.generateORIG o1 = .ok L') : R L L' := by
  unfold Lexer.generateORIG at h
  split at h
  · obtain ⟨⟨K, addr⟩, hread, h⟩ := Except.bind_eq_ok_iff.1 h
    cases h
    exact hR.trans (hR.readInto hread) (hR.frame rfl rfl rfl rfl)
  · split at h
    · cases h
      exact hR.multipleORIG L
    · cases h
      exact hR.refl L

end Effect

theorem preParse_val (h : L.preParse operands o1 o2 o3 = .ok (L', p)) :
    L.preParseVal operands o2 = .ok (L', p.val) := by
  unfold preParse at h
  obtain ⟨r1, -, h⟩ := Except.bind_eq_ok_iff.1 h
  obtain ⟨r2, -, h⟩ := Except.bind_eq_ok_iff.1 h
  obtain ⟨r3, -, h⟩ := Except.bind_eq_ok_iff.1 h
  obtain ⟨⟨K, v⟩, hval, h⟩ := Except.bind_eq_ok_iff.1 h
  cases h
  exact hval

namespace Effect

variable {R : Lexer → Lexer → Prop}

theorem errorLine (hR : Effect R) (L : Lexer) {e : CompileErr} (he : e ≠ .multipleORIG) :
    R L (L.error e).newInstLine :=
  hR.trans (hR.error L e he) (hR.frame rfl rfl rfl rfl)

theorem generateInstruction (hR : Effect R)
    (h : L.generateInstruction operands opstr = .ok L') : R L L' := by
  unfold Lexer.generateInstruction at h
  split at h
  · cases h
    exact hR.errorLine L (by simp)
  · dsimp only at h
    split at h
    · obtain ⟨K, horig, h⟩ := Except.bind_eq_ok_iff.1 h
      cases h
      exact hR.trans (hR.generateORIG horig) (hR.frame rfl rfl rfl rfl)
    · split at h
      · cases h
        exact hR.trans (hR.error L .beforeORIG (by simp)) (hR.frame rfl rfl rfl rfl)
      · obtain ⟨⟨K, p⟩, hparse, h⟩ := Except.bind_eq_ok_iff.1 h
        obtain ⟨K', hgenerate, h⟩ := Except.bind_eq_ok_iff.1 h
        cases h
        have hparsed := hR.preParseVal (preParse_val hparse)
        exact hR.trans (hR.trans hparsed (hR.generate hgenerate)) (hR.frame rfl rfl rfl rfl)

theorem act (hR : Effect R) {t : Token} (ht : ∀ text, t ≠ .label text) (h : L.act t = .ok L') :
    R L L' := by
  cases t with
  | opcode op text =>
    cases h
    split <;> exact hR.frame rfl rfl rfl rfl
  | operands type text =>
    have hline : R L (L.appendLineContent text) := hR.frame rfl rfl rfl rfl
    exact hR.trans hline (hR.generateInstruction h)
  | commentLine text =>
    obtain ⟨K, hcomment, h⟩ := Except.bind_eq_ok_iff.1 h
    cases h
    have hline : R L (L.appendLineContent text) := hR.frame rfl rfl rfl rfl
    exact hR.trans (hR.trans hline (hR.of_core (parseComment_core hcomment)))
      (hR.frame rfl rfl rfl rfl)
  | label text => exact absurd rfl (ht text)
  | unterminatedString | badOperands | badLine =>
    cases h
    exact hR.errorLine L (by simp)
  | endDirective _ | blankLine | blankAfterEnd | ignored =>
    cases h
    exact hR.frame rfl rfl rfl rfl

end Effect

/-- What all but labels keep. -/
structure Keeps (L L' : Lexer) : Prop where
  curPass : L'.curPass = L.curPass
  errCount : L.errCount ≤ L'.errCount
  symbols : L'.lc3Symbols = L.lc3Symbols

theorem error_keeps (L : Lexer) (e : CompileErr) : Keeps L (L.error e) :=
  ⟨rfl, Nat.le_succ _, rfl⟩

theorem keeps_effect : Effect Keeps where
  trans h h' :=
    ⟨h'.curPass.trans h.curPass, h.errCount.trans h'.errCount, h'.symbols.trans h.symbols⟩
  frame hpass hsymbols herrCount _ := ⟨hpass, herrCount.ge, hsymbols⟩
  error L e _ := error_keeps L e
  multipleORIG _ := ⟨rfl, le_rfl, rfl⟩

theorem Keeps.refl (L : Lexer) : Keeps L L :=
  keeps_effect.refl L

theorem Moved.keeps (h : Moved n L L') : Keeps L L' :=
  keeps_effect.of_moved h

/-- What a later state of the same pass keeps. Only the first pass adds symbols. -/
structure Grows (L L' : Lexer) : Prop where
  curPass : L'.curPass = L.curPass
  errCount : L.errCount ≤ L'.errCount
  symbols : L.lc3Symbols <+: L'.lc3Symbols
  fixed : L.curPass ≠ 1 → L'.lc3Symbols = L.lc3Symbols

theorem Keeps.grows (h : Keeps L L') : Grows L L' :=
  ⟨h.curPass, h.errCount, by rw [h.symbols], fun _ => h.symbols⟩

theorem Grows.trans (h : Grows L L') (h' : Grows L' L'') : Grows L L'' where
  curPass := h'.curPass.trans h.curPass
  errCount := h.errCount.trans h'.errCount
  symbols := h.symbols.trans h'.symbols
  fixed := by
    intro hpass
    have hpass' : L'.curPass ≠ 1 := by rw [h.curPass]; exact hpass
    exact (h'.fixed hpass').trans (h.fixed hpass)

theorem foundLabel_grows (L : Lexer) (s : Text) : Grows L (L.foundLabel s) := by
  unfold foundLabel
  dsimp only
  split
  · rename_i hpass
    split
    · exact (error_keeps L _).grows
    · split
      · exact (error_keeps L _).grows
      · rename_i K hadd
        unfold addSymbol at hadd
        split at hadd
        · cases hadd
        · cases hadd
          exact ⟨rfl, le_rfl, List.prefix_append _ _, fun h => absurd hpass h⟩
  · exact (Keeps.refl L).grows

theorem act_grows {t : Token} (h : L.act t = .ok L') : Grows L L' := by
  by_cases ht : ∃ text, t = .label text
  · obtain ⟨text, rfl⟩ := ht
    cases h
    exact foundLabel_grows L text
  · exact (keeps_effect.act (fun text heq => ht ⟨text, heq⟩) h).grows

/-- A pass may be cut anywhere. -/
theorem acts_grow {tokens : List Token} (h : tokens.foldlM act L = .ok L') : Grows L L' := by
  induction tokens generalizing L with
  | nil =>
    cases h
    exact (Keeps.refl _).grows
  | cons t tokens ih =>
    obtain ⟨K, hact, hrest⟩ := Except.bind_eq_ok_iff.1 h
    exact (act_grows hact).trans (ih hrest)

/-! ## Both passes side by side -/

/-- The first pass at `L₁` and the second one at `L₂` have come to the same place. -/
structure Aligned (L₁ L₂ : Lexer) : Prop where
  first : L₁.curPass = 1
  second : L₂.curPass = 2
  curLine : L₂.curLine = L₁.curLine
  curAddr : word L₂.curAddr = word L₁.curAddr
  op : L₂.op = L₁.op
  sawORIG : L₂.sawORIG = L₁.sawORIG
  constants : .constantOutside ∉ L₂.errors

theorem Aligned.of_core (h : Aligned L₁ L₂) (h₁ : L₁'.core = L₁.core) (h₂ : L₂'.core = L₂.core) :
    Aligned L₁' L₂' := by
  obtain ⟨first, second, curLine, curAddr, op, sawORIG, constants⟩ := h
  simp only [core, Core.mk.injEq] at h₁ h₂
  constructor <;> simp_all

theorem Aligned.moved (h : Aligned L₁ L₂) (h₁ : Moved n L₁ L₁') (h₂ : Moved n L₂ L₂') :
    Aligned L₁' L₂' := by
  obtain ⟨first, second, curLine, curAddr, op, sawORIG, constants⟩ := h
  obtain ⟨hcore₁, hmove₁⟩ := h₁
  obtain ⟨hcore₂, hmove₂⟩ := h₂
  simp only [core, Core.mk.injEq] at hcore₁ hcore₂
  constructor <;> simp_all

theorem Aligned.newInstLine (h : Aligned L₁ L₂) : Aligned L₁.newInstLine L₂.newInstLine where
  first := h.first
  second := h.second
  curLine := congrArg (· + 1) h.curLine
  curAddr := h.curAddr
  op := rfl
  sawORIG := h.sawORIG
  constants := h.constants

/-- An error of the second pass that is not about a constant. -/
theorem Aligned.error_right (h : Aligned L₁ L₂) {e : CompileErr} (he : e ≠ .constantOutside) :
    Aligned L₁ (L₂.error e) where
  first := h.first
  second := h.second
  curLine := h.curLine
  curAddr := h.curAddr
  op := h.op
  sawORIG := h.sawORIG
  constants := by
    intro hmem
    rcases List.mem_append.1 hmem with hmem | hmem
    · exact h.constants hmem
    · exact he (List.mem_singleton.1 hmem).symm

/-- A constant that the first pass accepts is read by both. -/
theorem readInto_both (h₁ : L₁.readInto s bits = .ok (L₁', v₁))
    (h₂ : L₂.readInto s bits = .ok (L₂', v₂)) (hclean : L₁'.errCount = 0) :
    L₁' = L₁ ∧ L₂' = L₂ ∧ v₁ = v₂ := by
  unfold readInto at h₁ h₂
  split at h₁
  · cases h₁
  · split at h₁
    · rename_i v hread
      simp only [hread] at h₂
      cases h₁
      cases h₂
      exact ⟨rfl, rfl, rfl⟩
    · cases h₁
      exact absurd hclean (Nat.succ_ne_zero _)

theorem Aligned.readInto (h : Aligned L₁ L₂) (h₁ : L₁.readInto s bits = .ok (L₁', v₁))
    (h₂ : L₂.readInto s bits = .ok (L₂', v₂)) (hclean : L₁'.errCount = 0) :
    Aligned L₁' L₂' := by
  obtain ⟨rfl, rfl, -⟩ := readInto_both h₁ h₂ hclean
  exact h

theorem Aligned.findLabel (h : Aligned L₁ L₂) (h₁ : L₁.findLabel s bits = .ok (L₁', v₁))
    (h₂ : L₂.findLabel s bits = .ok (L₂', v₂)) : Aligned L₁' L₂' := by
  have hfirst : L₁' = L₁ := by
    unfold Lexer.findLabel at h₁
    split at h₁
    · cases h₁
    · rw [if_pos h.first] at h₁
      cases h₁
      rfl
  rw [hfirst]
  unfold Lexer.findLabel at h₂
  split at h₂
  · cases h₂
  · dsimp only at h₂
    repeat' split at h₂
    all_goals
      cases h₂
      first
        | exact h
        | exact h.error_right (by simp)

theorem Aligned.readTarget (h : Aligned L₁ L₂)
    (h₁ : L₁.readTarget operands o1 bits = .ok (L₁', v₁))
    (h₂ : L₂.readTarget operands o1 bits = .ok (L₂', v₂)) (hclean : L₁'.errCount = 0) :
    Aligned L₁' L₂' := by
  unfold Lexer.readTarget at h₁ h₂
  split at h₁
  · rename_i hI
    rw [if_pos hI] at h₂
    exact h.readInto h₁ h₂ hclean
  · rename_i hI
    rw [if_neg hI] at h₂
    exact h.findLabel h₁ h₂

theorem Aligned.preParse (h : Aligned L₁ L₂)
    (h₁ : L₁.preParse operands o1 o2 o3 = .ok (L₁', p₁))
    (h₂ : L₂.preParse operands o1 o2 o3 = .ok (L₂', p₂)) (hclean : L₁'.errCount = 0) :
    Aligned L₁' L₂' := by
  have h₁ := preParse_val h₁
  have h₂ := preParse_val h₂
  unfold Lexer.preParseVal at h₁ h₂
  split at h₁
  · rename_i hI
    rw [if_pos hI] at h₂
    exact h.readInto h₁ h₂ hclean
  · rename_i hI
    rw [if_neg hI] at h₂
    split at h₁
    · rename_i hL
      rw [if_pos hL] at h₂
      exact h.findLabel h₁ h₂
    · rename_i hL
      rw [if_neg hL] at h₂
      simp only [Except.pure_eq_ok_iff, Prod.mk.injEq] at h₁ h₂
      rw [← h₁.1, ← h₂.1]
      exact h

theorem Aligned.writeInst (h : Aligned L₁ L₂) (h₁ : L₁.writeInst raw₁ = .ok L₁')
    (h₂ : L₂.writeInst raw₂ = .ok L₂') : Aligned L₁' L₂' :=
  h.moved (writeInst_moved h₁) (writeInst_moved h₂)

theorem Aligned.writeSTRINGZ (h : Aligned L₁ L₂) (h₁ : L₁.writeSTRINGZ o1 = .ok L₁')
    (h₂ : L₂.writeSTRINGZ o1 = .ok L₂') : Aligned L₁' L₂' := by
  obtain ⟨values, lines, hscan, hmoved₁⟩ := writeSTRINGZ_moved h₁
  obtain ⟨values', lines', hscan', hmoved₂⟩ := writeSTRINGZ_moved h₂
  rw [hscan] at hscan'
  cases hscan'
  refine Aligned.moved ?_ hmoved₁ hmoved₂
  exact ⟨h.first, h.second, congrArg (· + lines) h.curLine, h.curAddr, h.op, h.sawORIG,
    h.constants⟩

theorem Aligned.generate (h : Aligned L₁ L₂) (h₁ : L₁.generate operands o1 o3 p₁ = .ok L₁')
    (h₂ : L₂.generate operands o1 o3 p₂ = .ok L₂') (hclean : L₁'.errCount = 0) :
    Aligned L₁' L₂' := by
  unfold Lexer.generate at h₁ h₂
  have hop := h.op
  -- The constant is read before anything is written, so its pass is clean as well.
  have read : ∀ {s bits K₁ v₁ K₂ v₂}, L₁.readInto s bits = .ok (K₁, v₁) →
      L₂.readInto s bits = .ok (K₂, v₂) → Keeps K₁ L₁' →
      Aligned K₁ K₂ ∧ v₁ = v₂ := by
    intro s bits K₁ v₁ K₂ v₂ hread₁ hread₂ hkeeps
    have hclean' : K₁.errCount = 0 := Nat.le_zero.1 (hclean ▸ hkeeps.errCount)
    exact ⟨h.readInto hread₁ hread₂ hclean', (readInto_both hread₁ hread₂ hclean').2.2⟩
  have target : ∀ {bits K₁ v₁ K₂ v₂}, L₁.readTarget operands o1 bits = .ok (K₁, v₁) →
      L₂.readTarget operands o1 bits = .ok (K₂, v₂) → Keeps K₁ L₁' → Aligned K₁ K₂ := by
    intro bits K₁ v₁ K₂ v₂ hread₁ hread₂ hkeeps
    exact h.readTarget hread₁ hread₂ (Nat.le_zero.1 (hclean ▸ hkeeps.errCount))
  cases hop₁ : L₁.op
  case NONE | ORIG | END =>
    simp only [hop₁, hop.trans hop₁] at h₁ h₂
    cases h₁
    cases h₂
    exact h
  case STRINGZ =>
    simp only [hop₁, hop.trans hop₁] at h₁ h₂
    exact h.writeSTRINGZ h₁ h₂
  case FILL =>
    simp only [hop₁, hop.trans hop₁] at h₁ h₂
    obtain ⟨⟨K₁, v₁⟩, hread₁, h₁⟩ := Except.bind_eq_ok_iff.1 h₁
    obtain ⟨⟨K₂, v₂⟩, hread₂, h₂⟩ := Except.bind_eq_ok_iff.1 h₂
    have hK := target hread₁ hread₂ (writeFILL_moved h₁).keeps
    exact hK.moved (writeFILL_moved h₁) (writeFILL_moved h₂)
  case BLKW =>
    simp only [hop₁, hop.trans hop₁] at h₁ h₂
    obtain ⟨⟨K₁, v₁⟩, hread₁, h₁⟩ := Except.bind_eq_ok_iff.1 h₁
    obtain ⟨⟨K₂, v₂⟩, hread₂, h₂⟩ := Except.bind_eq_ok_iff.1 h₂
    obtain ⟨hK, rfl⟩ := read hread₁ hread₂ (writeBLKW_moved h₁).keeps
    exact hK.moved (writeBLKW_moved h₁) (writeBLKW_moved h₂)
  case BR | JSR =>
    simp only [hop₁, hop.trans hop₁] at h₁ h₂
    obtain ⟨⟨K₁, v₁⟩, hread₁, h₁⟩ := Except.bind_eq_ok_iff.1 h₁
    obtain ⟨⟨K₂, v₂⟩, hread₂, h₂⟩ := Except.bind_eq_ok_iff.1 h₂
    exact (target hread₁ hread₂ (writeInst_moved h₁).keeps).writeInst h₁ h₂
  case LDR | STR | TRAP =>
    simp only [hop₁, hop.trans hop₁] at h₁ h₂
    obtain ⟨⟨K₁, v₁⟩, hread₁, h₁⟩ := Except.bind_eq_ok_iff.1 h₁
    obtain ⟨⟨K₂, v₂⟩, hread₂, h₂⟩ := Except.bind_eq_ok_iff.1 h₂
    exact (read hread₁ hread₂ (writeInst_moved h₁).keeps).1.writeInst h₁ h₂
  case ADD | AND =>
    simp only [hop₁, hop.trans hop₁] at h₁ h₂
    split at h₁
    · rename_i hRRI
      rw [if_pos hRRI] at h₂
      obtain ⟨⟨K₁, v₁⟩, hread₁, h₁⟩ := Except.bind_eq_ok_iff.1 h₁
      obtain ⟨⟨K₂, v₂⟩, hread₂, h₂⟩ := Except.bind_eq_ok_iff.1 h₂
      exact (read hread₁ hread₂ (writeInst_moved h₁).keeps).1.writeInst h₁ h₂
    · rename_i hRRI
      rw [if_neg hRRI] at h₂
      exact h.writeInst h₁ h₂
  all_goals
    simp only [hop₁, hop.trans hop₁] at h₁ h₂
    exact h.writeInst h₁ h₂

theorem Aligned.generateORIG (h : Aligned L₁ L₂) (h₁ : L₁.generateORIG o1 = .ok L₁')
    (h₂ : L₂.generateORIG o1 = .ok L₂') (hclean : L₁'.errCount = 0) : Aligned L₁' L₂' := by
  unfold Lexer.generateORIG at h₁ h₂
  rw [h.sawORIG] at h₂
  split at h₁
  · rename_i hsaw
    rw [if_pos hsaw] at h₂
    obtain ⟨⟨K₁, addr₁⟩, hread₁, h₁⟩ := Except.bind_eq_ok_iff.1 h₁
    obtain ⟨⟨K₂, addr₂⟩, hread₂, h₂⟩ := Except.bind_eq_ok_iff.1 h₂
    cases h₁
    cases h₂
    obtain ⟨rfl, rfl, rfl⟩ := readInto_both hread₁ hread₂ hclean
    exact ⟨h.first, h.second, h.curLine, rfl, h.op, rfl, h.constants⟩
  · rename_i hsaw
    rw [if_neg hsaw] at h₂
    split at h₁
    · rename_i hsaw'
      rw [if_pos hsaw'] at h₂
      cases h₁
      cases h₂
      exact ⟨h.first, h.second, h.curLine, h.curAddr, h.op, rfl, by
        simpa using h.constants⟩
    · rename_i hsaw'
      rw [if_neg hsaw'] at h₂
      cases h₁
      cases h₂
      exact h

theorem Aligned.generateInstruction (h : Aligned L₁ L₂)
    (h₁ : L₁.generateInstruction operands opstr = .ok L₁')
    (h₂ : L₂.generateInstruction operands opstr = .ok L₂') (hclean : L₁'.errCount = 0) :
    Aligned L₁' L₂' := by
  unfold Lexer.generateInstruction at h₁ h₂
  rw [h.op, h.sawORIG] at h₂
  split at h₁
  · cases h₁
    exact absurd hclean (Nat.succ_ne_zero _)
  · rename_i haccepts
    rw [if_neg haccepts] at h₂
    dsimp only at h₁ h₂
    split at h₁
    · rename_i horig
      rw [if_pos horig] at h₂
      obtain ⟨K₁, horig₁, h₁⟩ := Except.bind_eq_ok_iff.1 h₁
      obtain ⟨K₂, horig₂, h₂⟩ := Except.bind_eq_ok_iff.1 h₂
      cases h₁
      cases h₂
      exact (h.generateORIG horig₁ horig₂ hclean).newInstLine
    · rename_i horig
      rw [if_neg horig] at h₂
      split at h₁
      · cases h₁
        exact absurd hclean (Nat.succ_ne_zero _)
      · rename_i hsaw
        rw [if_neg hsaw] at h₂
        obtain ⟨⟨K₁, p₁⟩, hparse₁, h₁⟩ := Except.bind_eq_ok_iff.1 h₁
        obtain ⟨⟨K₂, p₂⟩, hparse₂, h₂⟩ := Except.bind_eq_ok_iff.1 h₂
        obtain ⟨K₁', hgenerate₁, h₁⟩ := Except.bind_eq_ok_iff.1 h₁
        obtain ⟨K₂', hgenerate₂, h₂⟩ := Except.bind_eq_ok_iff.1 h₂
        cases h₁
        cases h₂
        have hclean' : K₁.errCount = 0 :=
          Nat.le_zero.1 (hclean ▸ (keeps_effect.generate hgenerate₁).errCount)
        have hK := h.preParse hparse₁ hparse₂ hclean'
        exact (hK.generate hgenerate₁ hgenerate₂ hclean).newInstLine

/-- A label without an error is new, and it gets the current address. -/
theorem foundLabel_eq (hpass : L.curPass = 1) (hclean : (L.foundLabel s).errCount = 0) :
    L.findSymbol (symName s) = none ∧
      L.foundLabel s = { L with
        lc3Symbols := L.lc3Symbols ++ [(symName s, L.curAddr)]
        lc3LabelStrings := L.lc3LabelStrings ++ [(word L.curAddr, symName s)] } := by
  unfold foundLabel at hclean ⊢
  dsimp only at hclean ⊢
  rw [if_pos hpass] at hclean ⊢
  split at hclean
  · exact absurd hclean (Nat.succ_ne_zero _)
  · rename_i hsaw
    rw [if_neg hsaw]
    unfold addSymbol at hclean ⊢
    split at hclean
    · exact absurd hclean (Nat.succ_ne_zero _)
    · rename_i K hadd
      by_cases hsome : (L.findSymbol (symName s)).isSome
      · rw [if_pos hsome] at hadd
        cases hadd
      · rw [if_neg hsome] at hadd
        cases hadd
        exact ⟨by simpa using hsome, rfl⟩

/-- One token keeps the passes aligned, unless the first one reports an error for it. -/
theorem Aligned.act {t : Token} (h : Aligned L₁ L₂) (h₁ : L₁.act t = .ok L₁')
    (h₂ : L₂.act t = .ok L₂') (hclean : L₁'.errCount = 0) : Aligned L₁' L₂' := by
  cases t with
  | opcode op text =>
    cases h₁
    cases h₂
    split <;> exact ⟨h.first, h.second, h.curLine, h.curAddr, rfl, h.sawORIG, h.constants⟩
  | operands type text =>
    have hline : Aligned (L₁.appendLineContent text) (L₂.appendLineContent text) :=
      h.of_core rfl rfl
    exact hline.generateInstruction h₁ h₂ hclean
  | commentLine text =>
    obtain ⟨K₁, hcomment₁, h₁⟩ := Except.bind_eq_ok_iff.1 h₁
    obtain ⟨K₂, hcomment₂, h₂⟩ := Except.bind_eq_ok_iff.1 h₂
    cases h₁
    cases h₂
    have hline : Aligned (L₁.appendLineContent text) (L₂.appendLineContent text) :=
      h.of_core rfl rfl
    exact (hline.of_core (parseComment_core hcomment₁) (parseComment_core hcomment₂)).newInstLine
  | label text =>
    cases h₁
    cases h₂
    have hsecond : L₂.foundLabel text = L₂ := by
      simp [Lexer.foundLabel, h.second]
    rw [hsecond, (foundLabel_eq h.first hclean).2]
    exact ⟨h.first, h.second, h.curLine, h.curAddr, h.op, h.sawORIG, h.constants⟩
  | unterminatedString | badOperands | badLine =>
    cases h₁
    exact absurd hclean (Nat.succ_ne_zero _)
  | endDirective _ =>
    cases h₁
    cases h₂
    exact h.of_core rfl rfl
  | ignored =>
    cases h₁
    cases h₂
    exact h
  | blankLine | blankAfterEnd =>
    cases h₁
    cases h₂
    exact h.newInstLine

theorem Aligned.acts {tokens : List Token} (h : Aligned L₁ L₂)
    (h₁ : tokens.foldlM Lexer.act L₁ = .ok L₁') (h₂ : tokens.foldlM Lexer.act L₂ = .ok L₂')
    (hclean : L₁'.errCount = 0) : Aligned L₁' L₂' := by
  induction tokens generalizing L₁ L₂ with
  | nil =>
    cases h₁
    cases h₂
    exact h
  | cons t tokens ih =>
    obtain ⟨K₁, hact₁, hrest₁⟩ := Except.bind_eq_ok_iff.1 h₁
    obtain ⟨K₂, hact₂, hrest₂⟩ := Except.bind_eq_ok_iff.1 h₂
    have hclean' : K₁.errCount = 0 := Nat.le_zero.1 (hclean ▸ (acts_grow hrest₁).errCount)
    exact ih (h.act hact₁ hact₂ hclean') hrest₁ hrest₂

theorem startPass_aligned (L L' : Lexer) : Aligned (L.startPass 1) (L'.startPass 2) :=
  ⟨rfl, rfl, rfl, rfl, rfl, rfl, List.not_mem_nil⟩

/-! ## Labels -/

theorem checkFirstPass_symbols (L : Lexer) : L.checkFirstPass.lc3Symbols = L.lc3Symbols := by
  unfold checkFirstPass
  repeat' split
  all_goals rfl

theorem foundLabel_curAddr (L : Lexer) (s : Text) : (L.foundLabel s).curAddr = L.curAddr := by
  unfold foundLabel
  dsimp only
  split
  · split
    · rfl
    · cases hadd : L.addSymbol (symName s) with
      | none => rfl
      | some K =>
        unfold addSymbol at hadd
        split at hadd
        · cases hadd
        · cases hadd
          rfl
  · rfl

/-- Only operands make a line that occupies memory. -/
theorem act_curAddr {t : Token} (ht : t.emits = false) (h : L.act t = .ok L') :
    L'.curAddr = L.curAddr := by
  cases t with
  | opcode op text =>
    cases h
    split <;> rfl
  | operands type text => cases ht
  | commentLine text =>
    obtain ⟨K, hcomment, h⟩ := Except.bind_eq_ok_iff.1 h
    cases h
    exact congrArg Core.curAddr (parseComment_core hcomment)
  | label text =>
    cases h
    exact foundLabel_curAddr L text
  | unterminatedString | badOperands | badLine | endDirective _ | blankLine | blankAfterEnd
  | ignored =>
    cases h
    rfl

theorem acts_curAddr {tokens : List Token} (htokens : ∀ t ∈ tokens, t.emits = false)
    (h : tokens.foldlM act L = .ok L') : L'.curAddr = L.curAddr := by
  induction tokens generalizing L with
  | nil =>
    cases h
    rfl
  | cons t tokens ih =>
    obtain ⟨K, hact, hrest⟩ := Except.bind_eq_ok_iff.1 h
    rw [ih (fun t ht => htokens t (List.mem_cons_of_mem _ ht)) hrest]
    exact act_curAddr (htokens t List.mem_cons_self) hact

/-- A label is found again in every table that continues the one it is put in. -/
theorem findSymbol_of_prefix {name : Text} {addr : Int} (hnew : L.findSymbol name = none)
    (h : L.lc3Symbols ++ [(name, addr)] <+: L'.lc3Symbols) : L'.findSymbol name = some addr := by
  obtain ⟨rest, hrest⟩ := h
  unfold findSymbol at hnew ⊢
  rw [← hrest, List.find?_append, List.find?_append, Option.map_eq_none_iff.1 hnew]
  simp [Text.sameIgnoringCase]

theorem acts_append {before after : List Token}
    (h : (before ++ after).foldlM act L = .ok L') :
    ∃ K, before.foldlM act L = .ok K ∧ after.foldlM act K = .ok L' := by
  rw [List.foldlM_append] at h
  exact Except.bind_eq_ok_iff.1 h

/-- As far as the second pass comes, it is at the address and in the line at which the first
one was, no constant has been rejected, and a label stands for the address of the next line
that occupies memory. -/
theorem passes_agree {L L₁ P₂ : Lexer} {before after : List Token}
    (hfirst : L.runPass 1 (before ++ after) = .ok L₁) (hclean : L₁.errCount = 0)
    (hsecond : L₁.checkFirstPass.runPass 2 before = .ok P₂) :
    ∃ P₁, L.runPass 1 before = .ok P₁ ∧
      word P₂.curAddr = word P₁.curAddr ∧ P₂.curLine = P₁.curLine ∧
      .constantOutside ∉ P₂.errors ∧
      ∀ done text rest, before = done ++ .label text :: rest → (∀ t ∈ rest, t.emits = false) →
        ∃ addr, (symName text, addr) ∈ L₁.lc3Symbols ∧
          P₂.findSymbol (symName text) = some addr ∧ word addr = word P₂.curAddr := by
  obtain ⟨P₁, hbefore, hafter⟩ := acts_append hfirst
  have hclean' : P₁.errCount = 0 := Nat.le_zero.1 (hclean ▸ (acts_grow hafter).errCount)
  have haligned : Aligned P₁ P₂ :=
    (startPass_aligned L L₁.checkFirstPass).acts hbefore hsecond hclean'
  refine ⟨P₁, hbefore, haligned.curAddr, haligned.curLine, haligned.constants, ?_⟩
  rintro done text rest rfl hrest
  obtain ⟨K, hdone, hlabel⟩ := acts_append hbefore
  obtain ⟨K', hfound, hbetween⟩ := Except.bind_eq_ok_iff.1 hlabel
  cases hfound
  have hpass : K.curPass = 1 := (acts_grow hdone).curPass
  have hcleanK : (K.foundLabel text).errCount = 0 :=
    Nat.le_zero.1 (hclean' ▸ (acts_grow hbetween).errCount)
  obtain ⟨hnew, heq⟩ := foundLabel_eq hpass hcleanK
  -- The symbol stays in the table until the end of the first pass and all of the second.
  have hsymbols : K.lc3Symbols ++ [(symName text, K.curAddr)] <+: L₁.lc3Symbols := by
    have hlater := ((acts_grow hbetween).trans (acts_grow hafter)).symbols
    rw [heq] at hlater
    exact hlater
  have htable : P₂.lc3Symbols = L₁.lc3Symbols := by
    have hfixed := (acts_grow hsecond).fixed (by simp [startPass, newInstLine])
    exact hfixed.trans (checkFirstPass_symbols L₁)
  refine ⟨K.curAddr, hsymbols.subset (by simp), ?_, ?_⟩
  · exact findSymbol_of_prefix hnew (by rw [htable]; exact hsymbols)
  · rw [haligned.curAddr, acts_curAddr hrest hbetween, heq]

/-- Two labels, the first one on a string that runs over the end of the memory. -/
def wrappingTokens : List Token :=
  [.opcode .ORIG ['.', 'O', 'R', 'I', 'G'], .operands .I [' ', 'x', 'F', 'F', 'F', 'E', '\n'],
    .label ['A'], .opcode .STRINGZ ['.', 'S', 'T', 'R', 'I', 'N', 'G', 'Z'],
    .operands .S [' ', '"', 'a', '\n', '\\', 'n', '"', '\n'], .label ['B']]

def emptyTables : LoaderTables where
  symbols := []
  mem := fun _ => none
  constraints := []
  preferences := []
  initPC := 0
  loadedPrograms := []
  inputFiles := []
  issuePackage := .empty
  crossChecker := none

def noCommands : Commands where
  symbolic _ _ _ := throw .progExit
  issue _ _ := throw .progExit
  check _ _ := throw .progExit

def wrappingLexer : Lexer :=
  Lexer.new emptyTables noCommands "wrapping.asm" false false false

theorem wrapping_passes_agree :
    ∃ L₁ P₁ P₂, wrappingLexer.runPass 1 (wrappingTokens ++
        [.opcode .BLKW [], .operands .I [' ', '2', '\n'], .endDirective []]) = .ok L₁ ∧
      L₁.errCount = 0 ∧ L₁.checkFirstPass.runPass 2 wrappingTokens = .ok P₂ ∧
      wrappingLexer.runPass 1 wrappingTokens = .ok P₁ ∧
      word P₂.curAddr = word P₁.curAddr := by
  obtain ⟨P₁, hP₁, haddr, -⟩ := @passes_agree wrappingLexer _ _ wrappingTokens
    [.opcode .BLKW [], .operands .I [' ', '2', '\n'], .endDirective []] rfl rfl rfl
  exact ⟨_, P₁, _, rfl, rfl, rfl, hP₁, haddr⟩

end Lexer

end Klc3
