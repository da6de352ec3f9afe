import Klc3.Model.Executor
import Klc3.Verification.Constraints.Semantics
import Klc3.Verification.Loader.CommandLog
import Klc3.Verification.Loader.Constraints

/-!
# The initial constraints

The constraints that loading a list of files leaves are those of its symbolic lines, in the
order in which the second pass over each file comes to them.
-/

namespace Klc3

namespace Lexer

variable {L L' : Lexer}

/-! ## Declared variables -/

/-- Free cells get the elements of the array. -/
theorem defineCells_spec {array : SymArray} {start : Word} {forRead forWrite : Bool}
    {offsets : List Nat} {mem mem' : Word → Option MemValue}
    (h : defineCells array start forRead forWrite offsets mem = .ok mem')
    (hnodup : offsets.Nodup) (hlt : ∀ i ∈ offsets, i < 0x10000)
    (hfree : ∀ i ∈ offsets, mem (start + BitVec.ofNat 16 i) = none) :
    (∀ i ∈ offsets, mem' (start + BitVec.ofNat 16 i) =
      some (.data ⟨some (.read array i), forRead, forWrite⟩)) ∧
    ∀ addr, (∀ i ∈ offsets, addr ≠ start + BitVec.ofNat 16 i) → mem' addr = mem addr := by
  induction offsets generalizing mem with
  | nil =>
    cases h
    exact ⟨by simp, fun _ _ => rfl⟩
  | cons i offsets ih =>
    obtain ⟨hnot, hnodup⟩ := List.nodup_cons.1 hnodup
    have hne : ∀ j ∈ offsets, start + BitVec.ofNat 16 j ≠ start + BitVec.ofNat 16 i := by
      intro j hj heq
      have hword := congrArg BitVec.toNat (BitVec.add_right_inj start |>.1 heq)
      rw [BitVec.toNat_ofNat, BitVec.toNat_ofNat,
        Nat.mod_eq_of_lt (hlt j (List.mem_cons_of_mem i hj)),
        Nat.mod_eq_of_lt (hlt i List.mem_cons_self)] at hword
      exact hnot (hword ▸ hj)
    unfold defineCells at h
    dsimp only at h
    rw [hfree i List.mem_cons_self] at h
    obtain ⟨hcells, hother⟩ := ih h hnodup (fun j hj => hlt j (List.mem_cons_of_mem i hj))
      fun j hj => by rw [if_neg (hne j hj)]; exact hfree j (List.mem_cons_of_mem i hj)
    refine ⟨List.forall_mem_cons.2 ⟨?_, hcells⟩, fun addr haddr => ?_⟩
    · rw [hother _ fun j hj => (hne j hj).symm, if_pos rfl]
    · obtain ⟨hi, hrest⟩ := List.forall_mem_cons.1 haddr
      rw [hother addr hrest, if_neg hi]

end Lexer

/-! ## Files -/

namespace SourceFile

variable (c : IssueCommands)

/-- The symbolic lines of a file, in the order in which they are processed. There are none
when the first pass finds an error. -/
def symbolicLines (t : LoaderTables) (f : SourceFile) : List (LoaderTables × Text) :=
  match (f.lexer c t).runPass 1 f.tokens with
  | .error _ => []
  | .ok L =>
    if L.checkFirstPass.errCount > 0 then []
    else ((L.checkFirstPass.startPass 2).commandLog f.tokens).filterMap Command.symbolicLine

/-- The symbolic lines of files that are loaded one after another. -/
def allSymbolicLines : LoaderTables → List SourceFile → List (LoaderTables × Text)
  | _, [] => []
  | t, f :: files =>
    f.symbolicLines c t ++
      match t.load c.commands f with
      | .ok (t', _) => allSymbolicLines t' files
      | .error _ => []

end SourceFile

namespace LoaderTables

variable {c : IssueCommands} {t t' : LoaderTables}

theorem load_accumulates {f : SourceFile} {accepted : Bool}
    (h : t.load c.commands f = .ok (t', accepted)) :
    Lexer.Accumulates c.commands (f.symbolicLines c t) t.constraints t'.constraints := by
  unfold load at h
  obtain ⟨⟨L, b⟩, hload, h⟩ := Except.bind_eq_ok_iff.1 h
  cases h
  have push_constraints : ∀ L : Lexer, L.pushProgram.tables.constraints = L.tables.constraints := by
    intro L
    unfold Lexer.pushProgram
    split <;> rfl
  have reject_constraints : ∀ {L L' : Lexer} {collect b : Bool},
      L.reject collect = .ok (L', b) → L'.tables.constraints = L.tables.constraints := by
    intro L L' collect b hreject
    unfold Lexer.reject at hreject
    split at hreject
    · cases hreject
      exact push_constraints L
    · cases hreject
  unfold Lexer.load at hload
  obtain ⟨L₁, hfirst, hload⟩ := Except.bind_eq_ok_iff.1 hload
  replace hfirst : (f.lexer c t).runPass 1 f.tokens = .ok L₁ := hfirst
  unfold SourceFile.symbolicLines
  rw [hfirst]
  dsimp only at hload ⊢
  split at hload
  · rename_i herr
    have hlog := (Lexer.acts_logged rfl hfirst).constraints
    rw [Lexer.commandLog_first rfl] at hlog
    have hcheck : L₁.checkFirstPass.tables.constraints = L₁.tables.constraints :=
      congrArg Lexer.Settings.constraints (Lexer.checkFirstPass_settings L₁)
    rw [if_pos herr, reject_constraints hload, hcheck]
    exact hlog
  · rename_i herr
    obtain ⟨L₂, hsecond, hload⟩ := Except.bind_eq_ok_iff.1 hload
    have hend : L.tables.constraints = L₂.tables.constraints := by
      split at hload
      · exact reject_constraints hload
      · cases hload
        exact push_constraints _
    rw [if_neg herr, hend]
    exact (Lexer.runPass_logged hfirst hsecond).constraints

theorem loadAll_accumulates {files : List SourceFile}
    (h : t.loadAll c.commands files = .ok t') :
    Lexer.Accumulates c.commands (SourceFile.allSymbolicLines c t files) t.constraints
      t'.constraints := by
  induction files generalizing t with
  | nil =>
    cases h
    exact .nil _
  | cons f files ih =>
    unfold loadAll at h
    rw [List.foldlM_cons] at h
    obtain ⟨t₁, hfile, hrest⟩ := Except.bind_eq_ok_iff.1 h
    obtain ⟨⟨t₁, accepted⟩, hload, hfile⟩ := Except.bind_eq_ok_iff.1 hfile
    cases hfile
    unfold SourceFile.allSymbolicLines
    rw [hload]
    exact (load_accumulates hload).append (ih hrest)

/-- Well-formed lines leave constraints that hold together exactly when the lines do. -/
theorem Accumulates_meaning {lines : List (LoaderTables × SymbolicLine)}
    (hlines : ∀ p ∈ lines, p.2.WellFormed p.1) {log : List (LoaderTables × Text)}
    (hlog : log = lines.map fun p => (p.1, p.2.text)) {cs cs' : List BoolExpr}
    (h : Lexer.Accumulates c.commands log cs cs') :
    ∃ pushed, cs' = cs ++ pushed ∧
      ∀ a, (∀ e ∈ pushed, e.eval a = true) ↔ ∀ p ∈ lines, p.2.Holds Literal.saturated p.1 a := by
  induction h generalizing lines with
  | nil cs =>
    obtain rfl : lines = [] := List.map_eq_nil_iff.1 hlog.symm
    exact ⟨[], (List.append_nil cs).symm, fun a => by simp⟩
  | @cons t t' line bound bound' log cs' hline hrest ih =>
    obtain ⟨p, lines, rfl, hp, hlines'⟩ := List.map_eq_cons_iff.1 hlog.symm
    obtain ⟨rfl, rfl⟩ := Prod.mk.inj hp
    obtain ⟨pushed, hconstraints, heval⟩ :=
      ih (fun q hq => hlines q (List.mem_cons_of_mem p hq)) hlines'.symm
    obtain ⟨bound₁, t₁, hprocess, added, hadded, hmeaning, -, -⟩ :=
      processConstraintLine_text (hlines p List.mem_cons_self) bound
    have hsame : (bound₁, t₁) = (bound', t') := Except.ok.inj (hprocess.symm.trans hline)
    cases hsame
    refine ⟨added ++ pushed, ?_, fun a => ?_⟩
    · rw [hconstraints, hadded, List.append_assoc]
    · rw [List.forall_mem_append, List.forall_mem_cons, hmeaning, heval]

end LoaderTables

/-- The initial state has exactly the constraints of the program. -/
theorem Executor.createInitState_sat {ex ex' : Executor} {constraints : List BoolExpr}
    {initPC : Word} {s : State} (h : ex.createInitState constraints initPC = .ok (ex', s))
    (a : Assignment) : s.constraints.Sat a ↔ ∀ c ∈ constraints, c.eval a = true := by
  obtain ⟨s', hfold, h⟩ := Except.bind_eq_ok_iff.1 h
  cases h
  refine Except.foldlM_ok_induction (motive := fun (done : List BoolExpr) (s : State) =>
    s.constraints.Sat a ↔ ∀ c ∈ done, c.eval a = true) ?_ ?_ hfold
  · simp [State.init, ConstraintSet.Sat]
  · intro done c s s' hsat hstep
    split at hstep
    · cases hstep
    · obtain ⟨cs', hadd, hstep⟩ := Except.bind_eq_ok_iff.1 hstep
      cases hstep
      rw [ConstraintSet.addConstraint_sat_iff hadd, hsat, List.forall_mem_append,
        List.forall_mem_singleton]

/-- A line of the command `SYMBOLIC` adds constraints that hold exactly when the line does,
with its literals saturated at 64 bits before they are reduced, and the initial constraints
are those of the lines in all files. -/
theorem symbolic_lines_meaning (c : IssueCommands) :
    (∀ (t : LoaderTables) (line : SymbolicLine) (bound : Nat), line.WellFormed t →
      ∃ bound' t', t.processConstraintLine line.text bound = .ok (bound', t') ∧
        LoaderTables.Pushes t t' fun a => line.Holds Literal.saturated t a) ∧
    (∀ l : Literal, -0x8000000000000000 ≤ l.value → l.value < 0x8000000000000000 →
      l.saturated = l.reduced) ∧
    (∀ (t t' : LoaderTables) (files : List SourceFile) (lines : List (LoaderTables × SymbolicLine))
      (ex ex' : Executor) (initPC : Word) (s : State), t.constraints = [] →
      t.loadAll c.commands files = .ok t' →
      SourceFile.allSymbolicLines c t files = (lines.map fun p => (p.1, p.2.text)) →
      (∀ p ∈ lines, p.2.WellFormed p.1) →
      ex.createInitState t'.constraints initPC = .ok (ex', s) →
      ∀ a, s.constraints.Sat a ↔ ∀ p ∈ lines, p.2.Holds Literal.saturated p.1 a) := by
  refine ⟨fun t line bound h => LoaderTables.processConstraintLine_text h bound,
    fun l => l.saturated_eq_reduced, ?_⟩
  intro t t' files lines ex ex' initPC s hnone hload hlog hlines hinit a
  obtain ⟨pushed, hconstraints, heval⟩ :=
    LoaderTables.Accumulates_meaning hlines hlog (LoaderTables.loadAll_accumulates hload)
  rw [Executor.createInitState_sat hinit, hconstraints, hnone, List.nil_append, heval]

/-! ## A positive number and a string -/

namespace PositiveInput

def file : SourceFile where
  filename := "positive.asm"
  isLC3OS := false
  allowInputFile := true
  collectCompileIssues := false
  ignoreKLC3Extension := false
  tokens :=
    [.opcode .ORIG ".ORIG".toList, .operands .I " x3000\n".toList,
      .commentLine "; KLC3: INPUT_FILE\n".toList, .opcode .FILL ".FILL".toList,
      .operands .I " #0 ; KLC3: SYMBOLIC as A\n".toList, .opcode .BLKW ".BLKW".toList,
      .operands .I " #3 ; KLC3: SYMBOLIC as B[3]\n".toList,
      .commentLine "; KLC3: SYMBOLIC A > #0 & A < #9 | A == x14\n".toList,
      .commentLine "; KLC3: SYMBOLIC B is var-length-string\n".toList,
      .endDirective ".END".toList]

def element : Element where
  name := "A".toList
  index := none
  name_ne := by decide
  isName := by decide
  isIndex := by simp

def letters : Element where
  name := "B".toList
  index := none
  name_ne := by decide
  isName := by decide
  isIndex := by simp

/-- A single blank on each side. -/
def gap : Gap where
  before := [' ']
  after := [' ']
  before_blank := by decide
  after_blank := by decide

def line : SymbolicLine :=
  .numerical ⟨⟨⟨element, .gt, ⟨false, false, "0".toList, by decide, by decide⟩⟩,
      [(gap, ⟨element, .lt, ⟨false, false, "9".toList, by decide, by decide⟩⟩)]⟩,
    [(gap, ⟨⟨element, .eq, ⟨true, false, "14".toList, by decide, by decide⟩⟩, []⟩)]⟩

def stringLine : SymbolicLine :=
  .string letters true

def array : SymArray := ⟨"A", 1⟩

def string : SymArray := ⟨"B", 3⟩

/-- The tables when the lines are processed. -/
structure Declared (t : LoaderTables) : Prop where
  symbols : t.symbols =
    [("A".toList, ⟨"A".toList, 1, 0x3000, array⟩), ("B".toList, ⟨"B".toList, 3, 0x3001, string⟩)]
  number : t.mem 0x3000 = some (.data ⟨some (.read array 0), false, false⟩)
  first : t.mem 0x3001 = some (.data ⟨some (.read string 0), false, false⟩)
  second : t.mem 0x3002 = some (.data ⟨some (.read string 1), false, false⟩)
  third : t.mem 0x3003 = some (.data ⟨some (.read string 2), false, false⟩)

/-- A solver that refutes nothing, as the constraints have a solution. -/
def solver : Solver where
  computeTruth _ _ := false
  computeValidity _ _ := .unknown
  computeInitialValues _ := none

theorem file_loads : ∃ t₁ t₂ t' ex' s,
    Lexer.emptyTables.loadAll issueCommands.commands [file] = .ok t' ∧
    SourceFile.allSymbolicLines issueCommands Lexer.emptyTables [file] =
      [(t₁, line.text), (t₂, stringLine.text)] ∧ Declared t₁ ∧ Declared t₂ ∧
    (Executor.new solver 0 t'.mem).createInitState t'.constraints t'.initPC = .ok (ex', s) :=
  ⟨_, _, _, _, _, rfl, rfl, ⟨rfl, rfl, rfl, rfl, rfl⟩, ⟨rfl, rfl, rfl, rfl, rfl⟩, rfl⟩

theorem Declared.element_wellFormed {t : LoaderTables} (h : Declared t) : element.WellFormed t := by
  refine ⟨⟨"A".toList, 1, 0x3000, array⟩, ⟨by rw [h.symbols]; rfl, by decide, ?_⟩, by decide⟩
  intro i hi
  obtain rfl : i = 0 := Nat.lt_one_iff.1 hi
  exact congrArg (·.bind MemValue.e) h.number

theorem Declared.letters_wellFormed {t : LoaderTables} (h : Declared t) : letters.WellFormed t := by
  refine ⟨⟨"B".toList, 3, 0x3001, string⟩, ⟨by rw [h.symbols]; rfl, by decide, ?_⟩, by decide⟩
  intro i hi
  have hi : i = 0 ∨ i = 1 ∨ i = 2 := by
    change i < 3 at hi
    omega
  rcases hi with rfl | rfl | rfl
  · exact congrArg (·.bind MemValue.e) h.first
  · exact congrArg (·.bind MemValue.e) h.second
  · exact congrArg (·.bind MemValue.e) h.third

theorem Declared.line_wellFormed {t : LoaderTables} (h : Declared t) : line.WellFormed t := by
  unfold line SymbolicLine.WellFormed
  simp only [Spaced.all, List.map_cons, List.map_nil, List.forall_mem_cons, List.not_mem_nil,
    false_imp_iff, implies_true, and_true]
  exact ⟨⟨h.element_wellFormed, h.element_wellFormed⟩, h.element_wellFormed⟩

theorem Declared.valueOf {t : LoaderTables} (h : Declared t) (a : Assignment) (i : Nat) :
    t.valueOf a element.name i = a array i ∧ t.valueOf a letters.name i = a string i := by
  unfold LoaderTables.valueOf
  rw [h.symbols]
  exact ⟨rfl, rfl⟩

theorem Declared.line_holds {t : LoaderTables} (h : Declared t) (a : Assignment) :
    line.Holds Literal.saturated t a ↔
      (0 < (a array 0).toInt ∧ (a array 0).toInt < 9) ∨ (a array 0).toInt = 20 := by
  have hvalue : t.valueOf a element.name element.position = a array 0 := (h.valueOf a 0).1
  unfold line SymbolicLine.Holds
  simp only [Spaced.all, List.map_cons, List.map_nil, List.exists_mem_cons_iff,
    List.forall_mem_cons, List.not_mem_nil, false_imp_iff, implies_true, and_true, false_and,
    exists_false, or_false, SingleConstraint.Holds, Comparator.Holds, hvalue]
  exact Iff.rfl

theorem Declared.stringLine_holds {t : LoaderTables} (h : Declared t) (a : Assignment) :
    stringLine.Holds Literal.saturated t a ↔
      a string 2 = 0 ∧ ∀ i < 2, IsCharacter true (a string i) := by
  have hsize : t.sizeOf letters.name = 3 := by
    unfold LoaderTables.sizeOf
    rw [h.symbols]
    rfl
  unfold stringLine SymbolicLine.Holds
  dsimp only
  simp only [hsize, (h.valueOf a _).2]

theorem file_lines_meaning : ∃ t' ex' s,
    Lexer.emptyTables.loadAll issueCommands.commands [file] = .ok t' ∧
    (Executor.new solver 0 t'.mem).createInitState t'.constraints t'.initPC = .ok (ex', s) ∧
    ∀ a, s.constraints.Sat a ↔
      ((0 < (a array 0).toInt ∧ (a array 0).toInt < 9) ∨ (a array 0).toInt = 20) ∧
      a string 2 = 0 ∧ ∀ i < 2, IsCharacter true (a string i) := by
  obtain ⟨t₁, t₂, t', ex', s, hload, hlog, h₁, h₂, hinit⟩ := file_loads
  refine ⟨t', ex', s, hload, hinit, fun a => ?_⟩
  have hlines : ∀ p ∈ [(t₁, line), (t₂, stringLine)], p.2.WellFormed p.1 := by
    simp only [List.forall_mem_cons, List.not_mem_nil, false_imp_iff, implies_true, and_true]
    exact ⟨h₁.line_wellFormed, h₂.letters_wellFormed⟩
  have hmeaning := (symbolic_lines_meaning issueCommands).2.2 Lexer.emptyTables t' [file]
    [(t₁, line), (t₂, stringLine)] _ ex' _ s rfl hload hlog hlines hinit a
  rw [hmeaning, ← h₁.line_holds a, ← h₂.stringLine_holds a]
  simp only [List.forall_mem_cons, List.not_mem_nil, false_imp_iff, implies_true, and_true]

/-- The tables in which the lines below are processed. -/
def tables : LoaderTables where
  symbols := [("A".toList, ⟨"A".toList, 1, 0x3000, array⟩)]
  mem addr := if addr = 0x3000 then some (.data ⟨some (.read array 0), false, false⟩) else none
  constraints := []
  preferences := []
  initPC := 0
  loadedPrograms := []
  inputFiles := [⟨"positive.asm", [], 0x3000,
    [⟨"A".toList, 0x3000, 1, true, false, [], some array⟩]⟩]
  issuePackage := .empty
  crossChecker := none

theorem element_wellFormed : element.WellFormed tables := by
  refine ⟨⟨"A".toList, 1, 0x3000, array⟩, ⟨rfl, by decide, ?_⟩, by decide⟩
  intro i hi
  obtain rfl : i = 0 := Nat.lt_one_iff.1 hi
  rfl

/-- A literal of more than 64 bits. -/
def wideLiteral : Literal where
  hexadecimal := true
  negative := false
  digits := "10000000000000000".toList
  digits_ne := by decide
  areDigits := by decide

def wideLine : SymbolicLine :=
  .numerical ⟨⟨⟨element, .eq, wideLiteral⟩, []⟩, []⟩

theorem wideLine_wellFormed : wideLine.WellFormed tables := by
  intro g hg c hc
  obtain rfl := List.mem_singleton.1 hg
  obtain rfl := List.mem_singleton.1 hc
  exact element_wellFormed

/-- The literal is 0 modulo `2 ^ 16`, but the variable is compared with `xFFFF`. -/
theorem wideLine_meaning :
    ¬∃ bound' t', tables.processConstraintLine wideLine.text 0x41 = .ok (bound', t') ∧
      LoaderTables.Pushes tables t' fun a => wideLine.Holds Literal.reduced tables a := by
  rintro ⟨bound', t', hprocess, pushed, hpushed, hmeaning, -⟩
  obtain ⟨bound₁, t₁, hprocess₁, pushed₁, hpushed₁, hmeaning₁, -⟩ :=
    LoaderTables.processConstraintLine_text wideLine_wellFormed 0x41
  obtain rfl : t₁ = t' := (Prod.mk.inj (Except.ok.inj (hprocess₁.symm.trans hprocess))).2
  obtain rfl : pushed₁ = pushed := List.append_cancel_left (hpushed₁.symm.trans hpushed)
  have hzero : wideLine.Holds Literal.reduced tables fun _ _ => 0 :=
    ⟨_, List.mem_cons_self, fun c hc => by
      obtain rfl := List.mem_singleton.1 hc
      rfl⟩
  obtain ⟨g, hg, hall⟩ := (hmeaning₁ _).1 ((hmeaning _).2 hzero)
  obtain rfl := List.mem_singleton.1 hg
  have hsaturated : (0 : Word).toInt = wideLiteral.saturated.toInt := hall _ List.mem_cons_self
  exact absurd hsaturated (by decide)

end PositiveInput

end Klc3
