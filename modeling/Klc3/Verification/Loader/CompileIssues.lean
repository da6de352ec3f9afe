import Klc3.Model.Scanner
import Klc3.Verification.Loader.Reports

/-! Compile errors are collected exactly when no two reports of a load name the same issue: the
package discards an issue that it has already, and `raiseCompileIssue` does not expect that. -/

namespace Klc3

namespace Lexer

variable {c : IssueCommands} {path : String → String} {L L' K : Lexer}

/-! ## Errors that are counted -/

/-- The errors that are reported on the way, all counted but a second `.ORIG`. -/
def Detects (L L' : Lexer) : Prop :=
  ∃ es : List CompileErr, L'.errors = L.errors ++ es ∧
    L'.errCount = L.errCount + es.countP (· ≠ .multipleORIG)

theorem detects_effect : Effect Detects where
  trans := by
    rintro L L' L'' ⟨es, herrors, hcount⟩ ⟨es', herrors', hcount'⟩
    refine ⟨es ++ es', ?_, ?_⟩
    · rw [herrors', herrors, List.append_assoc]
    · rw [hcount', hcount, List.countP_append, Nat.add_assoc]
  frame _ _ hcount herrors := ⟨[], by simp [herrors], by simp [hcount]⟩
  error L e he := ⟨[e], rfl, by simp [error, he]⟩
  multipleORIG L := ⟨[.multipleORIG], rfl, by simp⟩

theorem foundLabel_detects (L : Lexer) (s : Text) : Detects L (L.foundLabel s) := by
  unfold foundLabel
  dsimp only
  split
  · split
    · exact detects_effect.error L _ (by simp)
    · split
      · exact detects_effect.error L _ (by simp)
      · rename_i K hadd
        unfold addSymbol at hadd
        split at hadd
        · cases hadd
        · cases hadd
          exact ⟨[], by simp, by simp⟩
  · exact detects_effect.refl L

theorem act_detects {token : Token} (h : L.act token = .ok L') : Detects L L' := by
  by_cases htoken : ∃ text, token = .label text
  · obtain ⟨text, rfl⟩ := htoken
    cases h
    exact foundLabel_detects L text
  · exact detects_effect.act (fun text heq => htoken ⟨text, heq⟩) h

theorem checkFirstPass_detects (L : Lexer) : Detects L L.checkFirstPass := by
  unfold checkFirstPass
  repeat' split
  all_goals first
    | exact detects_effect.refl L
    | exact detects_effect.error L _ (by simp)

/-- The counted reports of a log. -/
def countedIn (log : List (Nat × CompileReport)) : Nat :=
  log.countP fun p => p.2.counted

theorem Detects.newErrors (h : Detects L L') (line : Nat) :
    L'.errCount = L.errCount + countedIn ((L.newErrors L').map (line, ·)) := by
  obtain ⟨es, herrors, hcount⟩ := h
  unfold countedIn Lexer.newErrors
  rw [herrors, List.drop_left, hcount, List.countP_map, List.countP_map]
  rfl

/-! ## Logs -/

/-- What an action reports, with its line. -/
def actLog (L : Lexer) (token : Token) : List (Nat × CompileReport) :=
  after (L.act token) fun L' => (L.reports L' token).map (L.curLine, ·)

/-- What a pass reports from some token on. -/
def passLog (report : Reporter) (L : Lexer) : List Token → List (Nat × CompileReport)
  | [] => []
  | token :: tokens =>
    L.actLog token ++ after (L.actReporting report token) fun K => passLog report K tokens

/-- What is reported after the first pass. -/
def checkLog (L : Lexer) : List (Nat × CompileReport) :=
  (L.newErrors L.checkFirstPass).map (L.curLine, ·)

/-- What the passes that are executed report. -/
def loadLog (report : Reporter) (L : Lexer) (tokens : List Token) : List (Nat × CompileReport) :=
  (L.startPass 1).passLog report tokens ++
    after (L.runPassReporting report 1 tokens) fun L₁ =>
      L₁.checkLog ++ after (L₁.checkFirstPassReporting report) fun K =>
        if K.errCount > 0 then [] else (K.startPass 2).passLog report tokens

/-- A log accounts for the issues and for the number of errors. -/
structure Accounts (path : String → String) (c : IssueCommands) (log : List (Nat × CompileReport))
    (L L' : Lexer) : Prop where
  recorded : Recorded path c log L L'
  errCount : L'.errCount = L.errCount + countedIn log

theorem Accounts.append {log log' : List (Nat × CompileReport)} (h : Accounts path c log L L')
    (h' : Accounts path c log' L' K) : Accounts path c (log ++ log') L K where
  recorded := h.recorded.append h'.recorded
  errCount := by
    rw [h'.errCount, h.errCount, Nat.add_assoc]
    exact congrArg _ List.countP_append.symm

theorem actReporting_accounts (hL : Collecting c L) {token : Token}
    (h : L.actReporting (recordCompileIssue path) token = .ok K) :
    Accounts path c (L.actLog token) L K := by
  obtain ⟨L', hact, hreports⟩ := Except.bind_eq_ok_iff.1 h
  have hquiet := act_quiet hL.commands hact
  obtain ⟨hcore, hrecorded⟩ := reports_recorded (hquiet.collecting hL) hreports
  have hlog : L.actLog token = (L.reports L' token).map (L.curLine, ·) := by
    unfold actLog
    rw [hact]
    rfl
  rw [hlog]
  refine ⟨(Recorded.of_quiet hL hquiet).append hrecorded, ?_⟩
  have hcount : K.errCount = L'.errCount := congrArg Core.errCount hcore
  rw [hcount, (act_detects hact).newErrors L.curLine]
  congr 1
  unfold countedIn reports
  rw [List.map_append, List.countP_append]
  split <;> rfl

theorem actReporting_agrees (hL : Collecting c L) (token : Token) :
    Agrees path L (L.actLog token) (L.actReporting (reportCompile path true) token)
      (L.actReporting (recordCompileIssue path) token) := by
  refine (Agrees.refl (L.act token)).bind (c := c) (fun L' hact => ?_) (fun L' hact => ?_)
  · exact .of_quiet hL (act_quiet hL.commands hact)
  · exact reports_agree ((act_quiet hL.commands hact).collecting hL)

theorem acts_accounts (hL : Collecting c L) {tokens : List Token}
    (h : tokens.foldlM (actReporting (recordCompileIssue path)) L = .ok K) :
    Accounts path c (L.passLog (recordCompileIssue path) tokens) L K := by
  induction tokens generalizing L with
  | nil =>
    cases h
    exact ⟨.of_quiet hL (.refl _), rfl⟩
  | cons token tokens ih =>
    rw [List.foldlM_cons] at h
    obtain ⟨M, hM, h⟩ := Except.bind_eq_ok_iff.1 h
    have haction := actReporting_accounts hL hM
    unfold passLog
    rw [hM]
    exact haction.append (ih haction.recorded.collecting h)

theorem acts_agree (hL : Collecting c L) (tokens : List Token) :
    Agrees path L (L.passLog (recordCompileIssue path) tokens)
      (tokens.foldlM (actReporting (reportCompile path true)) L)
      (tokens.foldlM (actReporting (recordCompileIssue path)) L) := by
  induction tokens generalizing L with
  | nil => exact .refl _
  | cons token tokens ih =>
    rw [List.foldlM_cons, List.foldlM_cons]
    refine (actReporting_agrees hL token).bind (c := c) (fun M hM => ?_) (fun M hM => ?_)
    · exact (actReporting_accounts hL hM).recorded
    · exact ih (actReporting_accounts hL hM).recorded.collecting

theorem checkFirstPassReporting_accounts (hL : Collecting c L)
    (h : L.checkFirstPassReporting (recordCompileIssue path) = .ok K) :
    Accounts path c L.checkLog L K := by
  have hquiet := checkFirstPass_quiet L
  obtain ⟨hcore, hrecorded⟩ := reports_recorded (hquiet.collecting hL) h
  refine ⟨(Recorded.of_quiet hL hquiet).append hrecorded, ?_⟩
  have hcount : K.errCount = L.checkFirstPass.errCount := congrArg Core.errCount hcore
  rw [hcount]
  exact (checkFirstPass_detects L).newErrors L.curLine

theorem checkFirstPassReporting_agrees (hL : Collecting c L) :
    Agrees path L L.checkLog (L.checkFirstPassReporting (reportCompile path true))
      (L.checkFirstPassReporting (recordCompileIssue path)) := by
  intro a
  have hquiet := checkFirstPass_quiet L
  have hfresh : Fresh path L ([] ++ L.checkLog) ↔
      Fresh path L [] ∧ Fresh path L.checkFirstPass L.checkLog :=
    (Recorded.of_quiet hL hquiet).fresh_append
  rw [List.nil_append] at hfresh
  rw [hfresh, and_iff_right (show Fresh path L [] from ⟨.nil, nofun⟩)]
  exact reports_agree (hquiet.collecting hL) a

theorem Collecting.startPass (hL : Collecting c L) (pass : Nat) :
    Collecting c (L.startPass pass) :=
  (startPass_quiet L pass).collecting hL

/-! ## Loads -/

theorem Recorded.of_startPass {log : List (Nat × CompileReport)} {pass : Nat}
    (h : Recorded path c log (L.startPass pass) K) : Recorded path c log L K :=
  ⟨h.filename, h.collecting, h.find⟩

theorem after_nil (x : Except Abort Lexer) : after x (fun _ => []) = [] := by
  cases x <;> rfl

theorem loadReporting_agrees (hL : Collecting c L) (collectCompileIssues : Bool)
    (tokens : List Token) :
    Agrees path L (L.loadLog (recordCompileIssue path) tokens)
      (L.loadReporting (reportCompile path true) collectCompileIssues tokens)
      (L.loadReporting (recordCompileIssue path) collectCompileIssues tokens) := by
  refine Agrees.bind (c := c) (acts_agree (hL.startPass 1) tokens) (fun L₁ h₁ => ?_)
    (fun L₁ h₁ => ?_)
  · exact (acts_accounts (hL.startPass 1) h₁).recorded.of_startPass
  have hL₁ := (acts_accounts (hL.startPass 1) h₁).recorded.collecting
  refine Agrees.bind (c := c) (checkFirstPassReporting_agrees hL₁) (fun M hM => ?_)
    (fun M hM => ?_)
  · exact (checkFirstPassReporting_accounts hL₁ hM).recorded
  have hM' := (checkFirstPassReporting_accounts hL₁ hM).recorded.collecting
  split
  · exact .refl _
  · have hpass : Agrees path (M.startPass 2) _ _ _ := acts_agree (hM'.startPass 2) tokens
    have hend := hpass.bind (c := c)
      (fun L₂ h₂ => (acts_accounts (hM'.startPass 2) h₂).recorded)
      (fun L₂ _ => Agrees.refl (if L₂.errCount > 0 then L₂.reject collectCompileIssues
        else return (pushProgram { L₂ with
          tables := { L₂.tables with initPC := L₂.fileStartAddr } }, true)))
    rw [after_nil, List.append_nil] at hend
    exact hend

theorem pushProgram_issuePackage (L : Lexer) :
    L.pushProgram.tables.issuePackage = L.tables.issuePackage := by
  unfold pushProgram
  split <;> rfl

/-- What a load that survives its reports returns. -/
theorem loadReporting_accounts (hL : Collecting c L) {tokens : List Token} {accepted : Bool}
    (h : L.loadReporting (recordCompileIssue path) true tokens = .ok (K, accepted)) :
    (accepted = false ↔ 0 < countedIn (L.loadLog (recordCompileIssue path) tokens)) ∧
      ∀ issue, K.tables.issuePackage.find issue = none ↔
        L.tables.issuePackage.find issue = none ∧
          issue ∉ issuesOf path L.filename (L.loadLog (recordCompileIssue path) tokens) := by
  obtain ⟨L₁, h₁, h⟩ := Except.bind_eq_ok_iff.1 h
  obtain ⟨M, hM, h⟩ := Except.bind_eq_ok_iff.1 h
  have hfirst := acts_accounts (hL.startPass 1) h₁
  have hcheck := hfirst.append (checkFirstPassReporting_accounts hfirst.recorded.collecting hM)
  have hlog : L.loadLog (recordCompileIssue path) tokens =
      (L.startPass 1).passLog (recordCompileIssue path) tokens ++ L₁.checkLog ++
        if M.errCount > 0 then [] else (M.startPass 2).passLog (recordCompileIssue path) tokens := by
    unfold loadLog after
    rw [h₁]
    dsimp only
    rw [hM, List.append_assoc]
  rw [hlog]
  have hcount : M.errCount = countedIn _ := hcheck.errCount.trans (Nat.zero_add _)
  dsimp only at h
  split at h
  · rename_i herr
    cases h
    rw [if_pos herr, List.append_nil]
    refine ⟨by simp [← hcount, herr], fun issue => ?_⟩
    rw [pushProgram_issuePackage]
    exact hcheck.recorded.find issue
  · rename_i herr
    rw [if_neg herr]
    obtain ⟨L₂, h₂, h⟩ := Except.bind_eq_ok_iff.1 h
    have hsecond := acts_accounts (hcheck.recorded.collecting.startPass 2) h₂
    have hall := hcheck.recorded.append hsecond.recorded.of_startPass
    have hcount' : L₂.errCount = countedIn _ := hsecond.errCount.trans (Nat.zero_add _)
    have htotal : countedIn ((L.startPass 1).passLog (recordCompileIssue path) tokens ++
        L₁.checkLog ++ (M.startPass 2).passLog (recordCompileIssue path) tokens) =
          L₂.errCount := by
      unfold countedIn at hcount hcount' ⊢
      rw [List.countP_append, ← hcount, ← hcount']
      omega
    rw [htotal]
    split at h
    · rename_i herr'
      cases h
      refine ⟨by simp [herr'], fun issue => ?_⟩
      rw [pushProgram_issuePackage]
      exact hall.find issue
    · rename_i herr'
      cases h
      refine ⟨by simp [herr'], fun issue => ?_⟩
      rw [pushProgram_issuePackage]
      exact hall.find issue

/-- Computations of which the first one, if it succeeds, is the second one. -/
theorem after_eq {x y : Except Abort Lexer} {log log' : Lexer → List (Nat × CompileReport)}
    (hx : x = .ok K) (hy : y = .ok K) (h : log K = log' K) : after x log = after y log' := by
  rw [hx, hy]
  exact h

/-- A run that does not get a null pointer reports what the run with the test reports. -/
theorem passLog_eq (hL : Collecting c L) {tokens : List Token}
    (h : tokens.foldlM (actReporting (reportCompile path true)) L = .ok K) :
    L.passLog (reportCompile path true) tokens = L.passLog (recordCompileIssue path) tokens := by
  induction tokens generalizing L with
  | nil => rfl
  | cons token tokens ih =>
    rw [List.foldlM_cons] at h
    obtain ⟨M, hM, h⟩ := Except.bind_eq_ok_iff.1 h
    have hM' := ((actReporting_agrees hL token M).1 hM).1
    refine congrArg (L.actLog token ++ ·) (after_eq hM hM' ?_)
    exact ih (actReporting_accounts hL hM').recorded.collecting h

theorem loadLog_eq (hL : Collecting c L) {tokens : List Token} {accepted : Bool}
    (h : L.loadReporting (reportCompile path true) true tokens = .ok (K, accepted)) :
    L.loadLog (reportCompile path true) tokens = L.loadLog (recordCompileIssue path) tokens := by
  obtain ⟨L₁, h₁, h⟩ := Except.bind_eq_ok_iff.1 h
  obtain ⟨M, hM, h⟩ := Except.bind_eq_ok_iff.1 h
  have h₁' := ((acts_agree (hL.startPass 1) tokens L₁).1 h₁).1
  have hL₁ := (acts_accounts (hL.startPass 1) h₁').recorded.collecting
  have hM' := ((checkFirstPassReporting_agrees hL₁ M).1 hM).1
  have hcollecting := (checkFirstPassReporting_accounts hL₁ hM').recorded.collecting
  unfold loadLog
  rw [passLog_eq (hL.startPass 1) h₁]
  congr 1
  refine after_eq h₁ h₁' (congrArg _ (after_eq hM hM' ?_))
  dsimp only at h ⊢
  split at h
  · rename_i herr
    rw [if_pos herr, if_pos herr]
  · rename_i herr
    rw [if_neg herr, if_neg herr]
    obtain ⟨L₂, h₂, h⟩ := Except.bind_eq_ok_iff.1 h
    exact passLog_eq (hcollecting.startPass 2) h₂

/-! ## Files loaded before -/

/-- The levels of compile issues, and the commands, stay what they are. -/
structure Ready (c : IssueCommands) (L : Lexer) : Prop where
  commands : L.commands = c.commands
  levels : CompileLevels L.tables.issuePackage

theorem reportCompile_ready {collect : Bool} {line : Nat} {r : CompileReport} (hL : Ready c L)
    (h : reportCompile path collect line L r = .ok K) : Ready c K := by
  unfold reportCompile at h
  split at h
  · cases h
    exact hL
  · obtain ⟨⟨M, raised⟩, hnew, h⟩ := Except.bind_eq_ok_iff.1 h
    obtain ⟨⟨pkg, raised⟩, hraise, hnew⟩ := Except.bind_eq_ok_iff.1 hnew
    cases hnew
    dsimp only at h
    split at h
    · cases h
      refine ⟨hL.commands, hL.levels.of_eq ?_⟩
      unfold IssuePackage.raiseIssue at hraise
      obtain ⟨level, -, hraise⟩ := Except.bind_eq_ok_iff.1 hraise
      dsimp only at hraise
      repeat' split at hraise
      all_goals
        cases hraise
        rfl
    · cases h

theorem Quiet.ready (h : Quiet L L') (hL : Ready c L) : Ready c L' :=
  ⟨h.commands.trans hL.commands, h.package.levels hL.levels⟩

theorem runPassReporting_ready {collect : Bool} {pass : Nat} {tokens : List Token}
    (hL : Ready c L) (h : L.runPassReporting (reportCompile path collect) pass tokens = .ok K) :
    Ready c K := by
  refine Except.foldlM_ok_invariant ((startPass_quiet L pass).ready hL) ?_ h
  intro token _ M M' hM haction
  obtain ⟨M₁, hact, hreports⟩ := Except.bind_eq_ok_iff.1 haction
  refine Except.foldlM_ok_invariant ((act_quiet hM.commands hact).ready hM) ?_ hreports
  exact fun r _ _ _ hready hreport => reportCompile_ready hready hreport

theorem loadReporting_ready {collect collect' accepted : Bool} {tokens : List Token}
    (hL : Ready c L)
    (h : L.loadReporting (reportCompile path collect) collect' tokens = .ok (K, accepted)) :
    CompileLevels K.tables.issuePackage := by
  obtain ⟨L₁, h₁, h⟩ := Except.bind_eq_ok_iff.1 h
  obtain ⟨M, hM, h⟩ := Except.bind_eq_ok_iff.1 h
  have hL₁ := runPassReporting_ready hL h₁
  have hM' : Ready c M := by
    refine Except.foldlM_ok_invariant ((checkFirstPass_quiet L₁).ready hL₁) ?_ hM
    exact fun r _ _ _ hready hreport => reportCompile_ready hready hreport
  have rejected : ∀ {N : Lexer}, Ready c N → N.reject collect' = .ok (K, accepted) →
      CompileLevels K.tables.issuePackage := by
    intro N hN hreject
    unfold reject at hreject
    split at hreject
    · cases hreject
      rw [pushProgram_issuePackage]
      exact hN.levels
    · cases hreject
  dsimp only at h
  split at h
  · exact rejected hM' h
  · obtain ⟨L₂, h₂, h⟩ := Except.bind_eq_ok_iff.1 h
    have hL₂ := runPassReporting_ready hM' h₂
    split at h
    · exact rejected hL₂ h
    · cases h
      rw [pushProgram_issuePackage]
      exact hL₂.levels

end Lexer

theorem LoaderTables.loadReporting_eq_ok_iff {report : Bool → Lexer.Reporter} {c : IssueCommands}
    {t t' : LoaderTables} {f : SourceFile} {accepted : Bool} :
    t.loadReporting report c.commands f = .ok (t', accepted) ↔
      ∃ K, (f.lexer c t).loadReporting (report f.collectCompileIssues) f.collectCompileIssues
        f.tokens = .ok (K, accepted) ∧ K.tables = t' := by
  unfold loadReporting SourceFile.lexer
  dsimp only
  rw [Except.bind_eq_ok_iff]
  constructor
  · rintro ⟨⟨K, accepted'⟩, hload, h⟩
    cases h
    exact ⟨K, hload, rfl⟩
  · rintro ⟨K, hload, rfl⟩
    exact ⟨(K, accepted), hload, rfl⟩

/-- The levels of compile issues after any files. -/
theorem LoaderTables.loadAllReporting_levels {path : String → String} {c : IssueCommands}
    {t t' : LoaderTables} {files : List SourceFile} (ht : CompileLevels t.issuePackage)
    (h : t.loadAllReporting (Lexer.reportCompile path) c.commands files = .ok t') :
    CompileLevels t'.issuePackage := by
  refine Except.foldlM_ok_invariant (P := fun t => CompileLevels t.issuePackage) ht ?_ h
  intro f _ u u' hu hstep
  obtain ⟨⟨u₁, accepted⟩, hload, hu'⟩ := Except.bind_eq_ok_iff.1 hstep
  cases hu'
  obtain ⟨K, hK, rfl⟩ := loadReporting_eq_ok_iff.1 hload
  exact Lexer.loadReporting_ready (L := f.lexer c u) ⟨rfl, hu⟩ hK

/-! ## All errors are collected -/

/-- What a load of a file reports, with the lines. -/
def SourceFile.reports (report : Lexer.Reporter) (c : IssueCommands) (t : LoaderTables)
    (f : SourceFile) : List (Nat × CompileReport) :=
  (f.lexer c t).loadLog report f.tokens

/-- The load ends, it tells whether an error was counted, and every line with an error has an
issue. -/
def LoaderTables.CollectsCompileErrors (path : String → String) (c : IssueCommands)
    (t : LoaderTables) (f : SourceFile) : Prop :=
  ∃ t' accepted,
    t.loadReporting (Lexer.reportCompile path) c.commands f = .ok (t', accepted) ∧
    (accepted = false ↔
      ∃ p ∈ f.reports (Lexer.reportCompile path true) c t, p.2.counted = true) ∧
    ∀ line error, (line, .err error) ∈ f.reports (Lexer.reportCompile path true) c t →
      ∃ info, t'.issuePackage.find ⟨.errCompile, some ⟨path f.filename, line⟩⟩ = some info

open Lexer in
/-- Compile errors are all collected exactly when the load ends with a test for the null
pointer, no two of its reports name the same issue, and none of them one of a file before. -/
theorem compile_errors_collected_iff {path : String → String} {c : IssueCommands}
    {checker : Option CrossChecker} {before : List SourceFile} {t : LoaderTables}
    {f : SourceFile}
    (hbefore : LoaderTables.loadAllReporting (reportCompile path) c.commands
      { emptyTables with crossChecker := checker } before = .ok t)
    (hcollect : f.collectCompileIssues = true) (hextension : f.ignoreKLC3Extension = false) :
    t.CollectsCompileErrors path c f ↔
      (∃ t' accepted, t.loadReporting (fun _ => recordCompileIssue path) c.commands f =
        .ok (t', accepted)) ∧
      (issuesOf path f.filename (f.reports (recordCompileIssue path) c t)).Nodup ∧
      ∀ issue ∈ issuesOf path f.filename (f.reports (recordCompileIssue path) c t),
        t.issuePackage.find issue = none := by
  have hL : Collecting c (f.lexer c t) :=
    ⟨rfl, hextension, LoaderTables.loadAllReporting_levels ⟨rfl, rfl⟩ hbefore⟩
  have hagrees : Agrees path (f.lexer c t) _ _ _ := loadReporting_agrees hL true f.tokens
  unfold LoaderTables.CollectsCompileErrors SourceFile.reports
  simp only [LoaderTables.loadReporting_eq_ok_iff, hcollect]
  constructor
  · rintro ⟨t', accepted, ⟨K, hload, rfl⟩, -, -⟩
    obtain ⟨hchecked, hnodup, hnone⟩ := (hagrees _).1 hload
    exact ⟨⟨_, _, K, hchecked, rfl⟩, hnodup, hnone⟩
  · rintro ⟨⟨t', accepted, K, hchecked, rfl⟩, hnodup, hnone⟩
    have hload := (hagrees _).2 ⟨hchecked, hnodup, hnone⟩
    obtain ⟨haccepted, hfind⟩ := loadReporting_accounts hL hchecked
    refine ⟨_, _, ⟨K, hload, rfl⟩, ?_, ?_⟩
    · rw [haccepted, loadLog_eq hL hload]
      exact List.countP_pos_iff
    · intro line error hmem
      rw [loadLog_eq hL hload] at hmem
      rw [← Option.ne_none_iff_exists']
      intro hissue
      exact ((hfind _).1 hissue).2 (List.mem_map.2 ⟨_, hmem, rfl⟩)

namespace TestProgram

open Lexer

/-- A test program with the given text. -/
def file (filename : String) (text : Text) : SourceFile where
  filename := filename
  isLC3OS := false
  allowInputFile := false
  collectCompileIssues := true
  ignoreKLC3Extension := false
  tokens := scanFile text

/-- Errors on two lines. -/
def badConstants : SourceFile :=
  file "constants.asm" ".ORIG x3000\nADD R0,R0,#99\nTRAP #999\n.END\n".toList

theorem badConstants_collected :
    emptyTables.CollectsCompileErrors id issueCommands badConstants := by
  have hbefore : LoaderTables.loadAllReporting (reportCompile id) issueCommands.commands
      { emptyTables with crossChecker := none } [] = .ok emptyTables := rfl
  refine (compile_errors_collected_iff hbefore rfl rfl).2 ⟨⟨_, _, rfl⟩, ?_, fun _ _ => rfl⟩
  rw [show issuesOf id badConstants.filename (badConstants.reports (recordCompileIssue id)
    issueCommands emptyTables) = [⟨.errCompile, some ⟨"constants.asm", 2⟩⟩,
      ⟨.errCompile, some ⟨"constants.asm", 3⟩⟩] from rfl]
  simp

/-- A label and an instruction on one line, both before `.ORIG`. -/
def earlyLabel : SourceFile :=
  file "early.asm" "A ADD R0,R0,R0\n.ORIG x3000\n.END\n".toList

theorem earlyLabel_nullDeref :
    emptyTables.loadReporting (reportCompile id) issueCommands.commands earlyLabel =
        .error .nullDeref ∧
      ¬emptyTables.CollectsCompileErrors id issueCommands earlyLabel := by
  have hload : emptyTables.loadReporting (reportCompile id) issueCommands.commands earlyLabel =
      .error .nullDeref := rfl
  refine ⟨hload, ?_⟩
  rintro ⟨t', accepted, hok, -⟩
  cases hload.symm.trans hok

end TestProgram

end Klc3
