import Klc3.Model.SymbolicCommand
import Klc3.Verification.Loader.Frame

/-!
# The commands of a pass

The commands that the second pass executes, in order. The constraints and the default flags
of data depend on them alone.
-/

namespace Klc3

/-- A command that `parseCommands` executes. `SYMBOLIC` keeps the tables that it finds. -/
inductive Command where
  | readOnlyDefault
  | uninitializedDefault
  | inputFile
  | comment
  | symbolic (tables : LoaderTables) (line : Text)
  | issue
  | check

namespace Command

def symbolicLine : Command → Option (LoaderTables × Text)
  | symbolic tables line => some (tables, line)
  | _ => none

def setsReadOnly : Command → Bool
  | readOnlyDefault => true
  | _ => false

def setsUninitialized : Command → Bool
  | uninitializedDefault => true
  | _ => false

end Command

/-! ## Constraint lines -/

namespace LoaderTables

variable {t t' : LoaderTables} {bound bound' : Nat}

theorem addCharacter_eq {symbol : SymbolInfo} {variableLength : Bool} {index : Nat}
    (h : addCharacter symbol variableLength bound t index = .ok t') :
    ∃ cs ps, t' = { t with constraints := cs, preferences := ps } := by
  obtain ⟨entry, -, h⟩ := Except.bind_eq_ok_iff.1 h
  cases h
  exact ⟨_, _, rfl⟩

theorem addCharacters_eq {symbol : SymbolInfo} {variableLength : Bool} {indices : List Nat}
    (h : indices.foldlM (addCharacter symbol variableLength bound) t = .ok t') :
    ∃ cs ps, t' = { t with constraints := cs, preferences := ps } := by
  induction indices generalizing t with
  | nil =>
    cases h
    exact ⟨_, _, rfl⟩
  | cons index indices ih =>
    rw [List.foldlM_cons] at h
    obtain ⟨u, hu, h⟩ := Except.bind_eq_ok_iff.1 h
    obtain ⟨cs, ps, rfl⟩ := addCharacter_eq hu
    obtain ⟨cs', ps', hall⟩ := ih h
    exact ⟨cs', ps', hall⟩

/-- The tables that a line of the command `SYMBOLIC` changes. -/
theorem processConstraintLine_eq {line : Text}
    (h : t.processConstraintLine line bound = .ok (bound', t')) :
    ∃ cs ps files, t' = { t with constraints := cs, preferences := ps, inputFiles := files } := by
  have numerical : (do
      let t ← t.processNumericalConstraint line
      return (bound, t)) = .ok (bound', t') →
        ∃ cs ps files, t' = { t with constraints := cs, preferences := ps, inputFiles := files } := by
    intro h
    obtain ⟨u, hu, h⟩ := Except.bind_eq_ok_iff.1 h
    cases h
    obtain ⟨constraint, -, hu⟩ := Except.bind_eq_ok_iff.1 hu
    split at hu
    · cases hu
    · cases hu
      exact ⟨_, _, _, rfl⟩
  unfold processConstraintLine at h
  split at h
  · split at h
    · obtain ⟨⟨symbol, index⟩, -, h⟩ := Except.bind_eq_ok_iff.1 h
      dsimp only at h
      split at h
      · obtain ⟨u, hu, h⟩ := Except.bind_eq_ok_iff.1 h
        obtain ⟨last, -, h⟩ := Except.bind_eq_ok_iff.1 h
        cases h
        obtain ⟨cs, ps, rfl⟩ := addCharacters_eq hu
        exact ⟨_, _, _, rfl⟩
      · cases h
    · exact numerical h
  · exact numerical h

end LoaderTables

/-! ## The commands `ISSUE` and `CHECK` -/

/-- The tables that these commands do not change. -/
theorem IssueCommand.run_eq {command : IssueCommand} {t t' : LoaderTables}
    (h : command.run t = .ok t') :
    ∃ pkg checker, t' = { t with issuePackage := pkg, crossChecker := checker } := by
  cases command with
  | deleteDefaultOutputCompare =>
    unfold run at h
    dsimp only at h
    split at h
    · cases h
    · cases h
      exact ⟨_, _, rfl⟩
  | registerIssue name level =>
    cases h
    exact ⟨_, _, rfl⟩
  | setIssueTypeLevel type level =>
    obtain ⟨pkg, -, h⟩ := Except.bind_eq_ok_iff.1 h
    cases h
    exact ⟨_, _, rfl⟩
  | setIssueTypeText =>
    cases h
    exact ⟨_, _, rfl⟩

section

variable {c : IssueCommands} {s s' : Text} {t t' : LoaderTables}

theorem IssueCommands.issue_constraints (h : c.commands.issue s t = .ok (s', t')) :
    t'.constraints = t.constraints := by
  obtain ⟨⟨s₁, command⟩, -, h⟩ := Except.bind_eq_ok_iff.1 h
  obtain ⟨t₁, hrun, h⟩ := Except.bind_eq_ok_iff.1 h
  cases h
  obtain ⟨pkg, checker, rfl⟩ := IssueCommand.run_eq hrun
  rfl

theorem IssueCommands.check_constraints (h : c.commands.check s t = .ok (s', t')) :
    t'.constraints = t.constraints := by
  obtain ⟨⟨s₁, issue, thing⟩, -, h⟩ := Except.bind_eq_ok_iff.1 h
  cases h
  rfl

end

namespace Lexer

variable {L L' L'' : Lexer} {c : IssueCommands}

/-- The commands that `parseCommands` executes. -/
def commandsIn : Nat → Text → Lexer → List Command
  | 0, _, _ => []
  | fuel + 1, s, L =>
    if s.isEmpty then []
    else match Text.matchStartAndTrim s "SET_DATA_DEFAULT_FLAG READ_ONLY".toList with
    | some s => .readOnlyDefault :: commandsIn fuel s { L with dataDefaultReadOnly := true }
    | none =>
      match Text.matchStartAndTrim s "SET_DATA_DEFAULT_FLAG UNINITIALIZED".toList with
      | some s =>
        .uninitializedDefault :: commandsIn fuel s { L with dataDefaultUninitialized := true }
      | none =>
        match Text.matchStartAndTrim s "INPUT_FILE".toList with
        | some s => .inputFile :: commandsIn fuel s { L with
            loadingInputFile := true
            tables := { L.tables with
              inputFiles := L.tables.inputFiles ++ [⟨L.filename, [], L.fileStartAddr, []⟩] } }
        | none =>
          match Text.matchStartAndTrim s "COMMENT ".toList with
          | some _ => [.comment]
          | none =>
            match Text.matchStartAndTrim s "SYMBOLIC ".toList with
            | some s => [.symbolic L.tables s]
            | none =>
              match Text.matchStartAndTrim s "ISSUE ".toList with
              | some s => .issue ::
                match L.commands.issue s L.tables with
                | .ok (s, tables) => commandsIn fuel s { L with tables := tables }
                | .error _ => []
              | none =>
                match Text.matchStartAndTrim s "CHECK ".toList with
                | some s => .check ::
                  match L.commands.check s L.tables with
                  | .ok (s, tables) => commandsIn fuel s { L with tables := tables }
                  | .error _ => []
                | none => []

/-- The commands of a token. The first pass executes none. -/
def commandsOf (L : Lexer) : Token → List Command
  | .commentLine text =>
    if L.ignoreKLC3Extension ∨ L.curPass = 1 then []
    else match Text.matchStartAndTrim (Text.strip (text.drop 1)) "KLC3: ".toList with
      | none => []
      | some s =>
        commandsIn (s.length + 1) s { L.appendLineContent text with sawKLC3Command := true }
  | _ => []

def commandLog (L : Lexer) : List Token → List Command
  | [] => []
  | token :: tokens =>
    L.commandsOf token ++
      match L.act token with
      | .ok L' => commandLog L' tokens
      | .error _ => []

/-- `cs'` are the constraints `cs` with those of the symbolic lines `lines` after them. -/
inductive Accumulates (c : Commands) : List (LoaderTables × Text) → List BoolExpr →
    List BoolExpr → Prop where
  | nil (cs : List BoolExpr) : Accumulates c [] cs cs
  | cons {t t' : LoaderTables} {line : Text} {bound bound' : Nat}
      {lines : List (LoaderTables × Text)} {cs' : List BoolExpr}
      (hline : c.symbolic line bound t = .ok (bound', t'))
      (hrest : Accumulates c lines t'.constraints cs') :
      Accumulates c ((t, line) :: lines) t.constraints cs'

theorem Accumulates.append {c : Commands} {lines lines' : List (LoaderTables × Text)}
    {cs cs' cs'' : List BoolExpr} (h : Accumulates c lines cs cs')
    (h' : Accumulates c lines' cs' cs'') : Accumulates c (lines ++ lines') cs cs'' := by
  induction h with
  | nil cs => exact h'
  | cons hline hrest ih => exact .cons hline (ih h')

/-- What the commands of a log change. -/
structure Logged (c : IssueCommands) (log : List Command) (L L' : Lexer) : Prop where
  commands : L'.commands = L.commands
  ignoreKLC3Extension : L'.ignoreKLC3Extension = L.ignoreKLC3Extension
  constraints : Accumulates c.commands (log.filterMap Command.symbolicLine)
    L.tables.constraints L'.tables.constraints
  readOnly : L'.dataDefaultReadOnly = (L.dataDefaultReadOnly || log.any Command.setsReadOnly)
  uninitialized : L'.dataDefaultUninitialized =
    (L.dataDefaultUninitialized || log.any Command.setsUninitialized)

theorem Logged.of_settings (h : L'.settings = L.settings) : Logged c [] L L' where
  commands := congrArg Settings.commands h
  ignoreKLC3Extension := congrArg Settings.ignoreKLC3Extension h
  constraints := by
    rw [show L'.tables.constraints = L.tables.constraints from congrArg Settings.constraints h]
    exact .nil _
  readOnly := (congrArg Settings.dataDefaultReadOnly h).trans (Bool.or_false _).symm
  uninitialized := (congrArg Settings.dataDefaultUninitialized h).trans (Bool.or_false _).symm

theorem Logged.append {log log' : List Command} (h : Logged c log L L')
    (h' : Logged c log' L' L'') : Logged c (log ++ log') L L'' where
  commands := h'.commands.trans h.commands
  ignoreKLC3Extension := h'.ignoreKLC3Extension.trans h.ignoreKLC3Extension
  constraints := by
    rw [List.filterMap_append]
    exact h.constraints.append h'.constraints
  readOnly := by rw [h'.readOnly, h.readOnly, List.any_append, Bool.or_assoc]
  uninitialized := by rw [h'.uninitialized, h.uninitialized, List.any_append, Bool.or_assoc]

/-- A command that is neither symbolic nor sets a default. -/
theorem Logged.of_command {command : Command} (hsymbolic : command.symbolicLine = none)
    (hreadOnly : command.setsReadOnly = false) (huninitialized : command.setsUninitialized = false)
    (hcommands : L'.commands = L.commands)
    (hignore : L'.ignoreKLC3Extension = L.ignoreKLC3Extension)
    (hconstraints : L'.tables.constraints = L.tables.constraints)
    (hdefaults : L'.dataDefaultReadOnly = L.dataDefaultReadOnly ∧
      L'.dataDefaultUninitialized = L.dataDefaultUninitialized) : Logged c [command] L L' where
  commands := hcommands
  ignoreKLC3Extension := hignore
  constraints := by
    rw [List.filterMap_cons_none hsymbolic, hconstraints]
    exact .nil _
  readOnly := by simp [hdefaults.1, hreadOnly]
  uninitialized := by simp [hdefaults.2, huninitialized]

theorem parseCommands_logged (hc : L.commands = c.commands) {fuel : Nat} {s : Text}
    (h : parseCommands fuel s L = .ok L') : Logged c (commandsIn fuel s L) L L' := by
  induction fuel generalizing s L with
  | zero => cases h
  | succ fuel ih =>
    unfold parseCommands at h
    unfold commandsIn
    split at h
    · cases h
      rename_i hempty
      rw [if_pos hempty]
      exact .of_settings rfl
    · rename_i hempty
      rw [if_neg hempty]
      have next : ∀ (K : Lexer) (command : Command) (s : Text), parseCommands fuel s K = .ok L' →
          Logged c [command] L K → Logged c (command :: commandsIn fuel s K) L L' := by
        intro K command s h hcommand
        exact hcommand.append (ih (hcommand.commands.trans hc) h)
      -- One case for each command, in the order of the tests.
      cases hreadOnly : Text.matchStartAndTrim s "SET_DATA_DEFAULT_FLAG READ_ONLY".toList with
      | some s =>
        rw [hreadOnly] at h
        refine next _ _ _ h ⟨rfl, rfl, .nil _, ?_, ?_⟩
        · simp [Command.setsReadOnly]
        · simp [Command.setsUninitialized]
      | none =>
        rw [hreadOnly] at h
        dsimp only at h ⊢
        cases huninitialized :
            Text.matchStartAndTrim s "SET_DATA_DEFAULT_FLAG UNINITIALIZED".toList with
        | some s =>
          rw [huninitialized] at h
          refine next _ _ _ h ⟨rfl, rfl, .nil _, ?_, ?_⟩
          · simp [Command.setsReadOnly]
          · simp [Command.setsUninitialized]
        | none =>
          rw [huninitialized] at h
          dsimp only at h ⊢
          cases hinput : Text.matchStartAndTrim s "INPUT_FILE".toList with
          | some s =>
            rw [hinput] at h
            dsimp only at h
            split at h
            · exact next _ _ _ h (.of_command rfl rfl rfl rfl rfl rfl ⟨rfl, rfl⟩)
            · cases h
          | none =>
            rw [hinput] at h
            dsimp only at h ⊢
            cases hcomment : Text.matchStartAndTrim s "COMMENT ".toList with
            | some s =>
              rw [hcomment] at h
              dsimp only at h
              split at h
              · cases h
                exact .of_command rfl rfl rfl rfl rfl rfl ⟨rfl, rfl⟩
              · cases h
            | none =>
              rw [hcomment] at h
              dsimp only at h ⊢
              cases hsymbolic : Text.matchStartAndTrim s "SYMBOLIC ".toList with
              | some s =>
                rw [hsymbolic] at h
                obtain ⟨⟨bound, t⟩, hline, h⟩ := Except.bind_eq_ok_iff.1 h
                cases h
                rw [hc] at hline
                refine ⟨rfl, rfl, .cons hline (.nil _), ?_, ?_⟩
                · simp [Command.setsReadOnly]
                · simp [Command.setsUninitialized]
              | none =>
                rw [hsymbolic] at h
                dsimp only at h ⊢
                cases hissue : Text.matchStartAndTrim s "ISSUE ".toList with
                | some s =>
                  rw [hissue] at h
                  dsimp only at h ⊢
                  obtain ⟨⟨s', t⟩, hrun, h⟩ := Except.bind_eq_ok_iff.1 h
                  rw [hrun]
                  rw [hc] at hrun
                  exact next _ _ _ h (.of_command rfl rfl rfl rfl rfl
                    (IssueCommands.issue_constraints hrun) ⟨rfl, rfl⟩)
                | none =>
                  rw [hissue] at h
                  dsimp only at h ⊢
                  cases hcheck : Text.matchStartAndTrim s "CHECK ".toList with
                  | some s =>
                    rw [hcheck] at h
                    dsimp only at h ⊢
                    obtain ⟨⟨s', t⟩, hrun, h⟩ := Except.bind_eq_ok_iff.1 h
                    rw [hrun]
                    rw [hc] at hrun
                    exact next _ _ _ h (.of_command rfl rfl rfl rfl rfl
                      (IssueCommands.check_constraints hrun) ⟨rfl, rfl⟩)
                  | none =>
                    rw [hcheck] at h
                    cases h

theorem act_logged (hc : L.commands = c.commands) {token : Token} (h : L.act token = .ok L') :
    Logged c (L.commandsOf token) L L' := by
  by_cases htoken : ∀ text, token ≠ .commentLine text
  · have hnone : L.commandsOf token = [] := by
      cases token with
      | commentLine text => exact absurd rfl (htoken text)
      | _ => rfl
    rw [hnone]
    exact .of_settings (act_settings htoken h)
  · push Not at htoken
    obtain ⟨text, rfl⟩ := htoken
    obtain ⟨K, hcomment, h⟩ := Except.bind_eq_ok_iff.1 h
    cases h
    unfold parseComment at hcomment
    unfold commandsOf
    dsimp only
    split at hcomment
    · cases hcomment
      rename_i hignore
      rw [if_pos (.inl hignore)]
      exact .of_settings rfl
    · rename_i hignore
      cases hkey : Text.matchStartAndTrim (Text.strip (text.drop 1)) "KLC3: ".toList with
      | none =>
        rw [hkey] at hcomment
        cases hcomment
        rw [ite_self]
        exact .of_settings rfl
      | some s =>
        rw [hkey] at hcomment
        dsimp only at hcomment
        split at hcomment
        · cases hcomment
          rename_i hpass
          rw [if_pos (.inr hpass)]
          exact .of_settings rfl
        · rename_i hpass
          rw [if_neg (by rintro (h | h); exacts [hignore h, hpass h])]
          have hstart : ({ L.appendLineContent text with sawKLC3Command := true } : Lexer).commands =
              c.commands := hc
          have hlogged := parseCommands_logged hstart hcomment
          exact ⟨hlogged.commands, hlogged.ignoreKLC3Extension, hlogged.constraints,
            hlogged.readOnly, hlogged.uninitialized⟩

/-- The log of a pass accounts for the constraints and the default flags. -/
theorem acts_logged (hc : L.commands = c.commands) {tokens : List Token}
    (h : tokens.foldlM act L = .ok L') : Logged c (L.commandLog tokens) L L' := by
  induction tokens generalizing L with
  | nil =>
    cases h
    exact .of_settings rfl
  | cons token tokens ih =>
    rw [List.foldlM_cons] at h
    obtain ⟨K, hact, hrest⟩ := Except.bind_eq_ok_iff.1 h
    have hlogged := act_logged hc hact
    unfold commandLog
    rw [hact]
    exact hlogged.append (ih (hlogged.commands.trans hc) hrest)

theorem commandLog_first (hpass : L.curPass = 1) (tokens : List Token) :
    L.commandLog tokens = [] := by
  induction tokens generalizing L with
  | nil => rfl
  | cons token tokens ih =>
    have hnone : L.commandsOf token = [] := by
      cases token with
      | commentLine text => exact if_pos (.inr hpass)
      | _ => rfl
    unfold commandLog
    rw [hnone]
    cases hact : L.act token with
    | error e => rfl
    | ok L' => exact ih ((act_grows hact).curPass.trans hpass)

theorem commandLog_ignored (hc : L.commands = c.commands) (hignore : L.ignoreKLC3Extension = true)
    (tokens : List Token) : L.commandLog tokens = [] := by
  induction tokens generalizing L with
  | nil => rfl
  | cons token tokens ih =>
    have hnone : L.commandsOf token = [] := by
      cases token with
      | commentLine text => exact if_pos (.inl hignore)
      | _ => rfl
    unfold commandLog
    rw [hnone]
    cases hact : L.act token with
    | error e => rfl
    | ok L' =>
      have hlogged := act_logged hc hact
      exact ih (hlogged.commands.trans hc) (hlogged.ignoreKLC3Extension.trans hignore)

theorem checkFirstPass_settings (L : Lexer) : L.checkFirstPass.settings = L.settings := by
  unfold checkFirstPass
  repeat' split
  all_goals rfl

end Lexer

/-- The lexer that reads a file. -/
def SourceFile.lexer (c : IssueCommands) (t : LoaderTables) (f : SourceFile) : Lexer :=
  Lexer.new t c.commands f.filename f.isLC3OS f.allowInputFile f.ignoreKLC3Extension

namespace Lexer

/-- The second pass up to some token: its log accounts for what the commands have set. -/
theorem runPass_logged {c : IssueCommands} {t : LoaderTables} {f : SourceFile}
    {tokens before : List Token} {L P : Lexer}
    (hfirst : (f.lexer c t).runPass 1 tokens = .ok L)
    (hsecond : L.checkFirstPass.runPass 2 before = .ok P) :
    Logged c ((L.checkFirstPass.startPass 2).commandLog before) (f.lexer c t) P := by
  have hlogged := acts_logged rfl hfirst
  rw [commandLog_first rfl] at hlogged
  have hcheck := checkFirstPass_settings L
  have hstart : Logged c [] L (L.checkFirstPass.startPass 2) := by
    refine ⟨congrArg Settings.commands hcheck, congrArg Settings.ignoreKLC3Extension hcheck,
      ?_, ?_, ?_⟩
    · have hconstraints : (L.checkFirstPass.startPass 2).tables.constraints =
          L.tables.constraints := congrArg Settings.constraints hcheck
      rw [hconstraints]
      exact .nil _
    · exact (congrArg Settings.dataDefaultReadOnly hcheck).trans (Bool.or_false _).symm
    · exact (congrArg Settings.dataDefaultUninitialized hcheck).trans (Bool.or_false _).symm
  have hbefore := hlogged.append hstart
  have hrun := acts_logged (hbefore.commands.trans rfl) hsecond
  have hall := hbefore.append hrun
  exact ⟨hall.commands, hall.ignoreKLC3Extension, hall.constraints, hall.readOnly,
    hall.uninitialized⟩

end Lexer

end Klc3
