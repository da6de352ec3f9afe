import Klc3.Model.CompileIssues
import Klc3.Verification.Issues.Raise
import Klc3.Verification.Loader.CommandLog

/-! What the reports of an action do to the issue package, and when `raiseCompileIssue` gets a null
pointer: a run with a test for it has the same result otherwise. -/

namespace Klc3

/-- The package discards neither compile errors nor compile warnings for their level. -/
structure CompileLevels (pkg : IssuePackage) : Prop where
  err : pkg.issueLevel .errCompile = some .error
  warn : pkg.issueLevel .warnCompile = some .warning

theorem CompileLevels.of_eq {pkg pkg' : IssuePackage} (h : CompileLevels pkg)
    (heq : pkg'.issueLevel = pkg.issueLevel) : CompileLevels pkg' :=
  ⟨heq ▸ h.err, heq ▸ h.warn⟩

theorem CompileLevels.update {pkg pkg' : IssuePackage} {type : IssueType} {level : Level}
    (h : CompileLevels pkg)
    (heq : pkg'.issueLevel = fun t => if t = type then some level else pkg.issueLevel t)
    (herr : type = .errCompile → level = .error) (hwarn : type ≠ .warnCompile) :
    CompileLevels pkg' := by
  constructor
  · rw [heq]
    by_cases htype : type = .errCompile
    · dsimp only
      rw [if_pos htype.symm, herr htype]
    · exact (if_neg (Ne.symm htype)).trans h.err
  · rw [heq]
    exact (if_neg hwarn.symm).trans h.warn

/-- The package has a level for every report. -/
theorem CompileLevels.report {pkg : IssuePackage} (h : CompileLevels pkg) (r : CompileReport) :
    ∃ level, pkg.getIssueLevel r.type = .ok level ∧ level ≠ .none := by
  unfold IssuePackage.getIssueLevel
  cases r with
  | err error =>
    refine ⟨.error, ?_, by simp⟩
    rw [show pkg.issueLevel (CompileReport.err error).type = _ from h.err]
    rfl
  | warn =>
    refine ⟨.warning, ?_, by simp⟩
    rw [show pkg.issueLevel CompileReport.warn.type = _ from h.warn]
    rfl

/-- What the commands of a file do to the issues. -/
structure KeepsIssues (pkg pkg' : IssuePackage) : Prop where
  issues : pkg'.issues = pkg.issues
  levels : CompileLevels pkg → CompileLevels pkg'

theorem KeepsIssues.refl (pkg : IssuePackage) : KeepsIssues pkg pkg :=
  ⟨rfl, id⟩

theorem KeepsIssues.trans {pkg pkg' pkg'' : IssuePackage} (h : KeepsIssues pkg pkg')
    (h' : KeepsIssues pkg' pkg'') : KeepsIssues pkg pkg'' :=
  ⟨h'.issues.trans h.issues, fun hlevels => h'.levels (h.levels hlevels)⟩

theorem IssuePackage.setIssueTypeLevel_keepsIssues {pkg pkg' : IssuePackage} {type : IssueType}
    {level : Level} (h : pkg.setIssueTypeLevel type level = .ok pkg') : KeepsIssues pkg pkg' := by
  unfold setIssueTypeLevel at h
  split at h
  · rename_i haccepts
    cases h
    refine ⟨rfl, fun hlevels => hlevels.update rfl ?_ ?_⟩
    · rintro rfl
      cases haccepts
    · rintro rfl
      cases haccepts
  · split at h
    · rename_i hmust
      split at h
      · cases h
      · rename_i hlevel
        cases h
        refine ⟨rfl, fun hlevels => hlevels.update rfl (fun _ => not_not.1 hlevel) ?_⟩
        rintro rfl
        cases hmust
    · cases h

theorem IssueCommand.run_keepsIssues {command : IssueCommand} {t t' : LoaderTables}
    (h : command.run t = .ok t') : KeepsIssues t.issuePackage t'.issuePackage := by
  cases command with
  | deleteDefaultOutputCompare =>
    unfold run at h
    dsimp only at h
    split at h
    · cases h
    · cases h
      exact .refl _
  | registerIssue name level =>
    cases h
    refine ⟨rfl, fun hlevels => hlevels.update rfl ?_ ?_⟩
    · intro h
      cases h
    · intro h
      cases h
  | setIssueTypeLevel type level =>
    obtain ⟨pkg, hset, h⟩ := Except.bind_eq_ok_iff.1 h
    cases h
    exact IssuePackage.setIssueTypeLevel_keepsIssues hset
  | setIssueTypeText =>
    cases h
    exact .refl _

section

variable {c : IssueCommands} {s s' : Text} {t t' : LoaderTables}

theorem IssueCommands.issue_keepsIssues (h : c.commands.issue s t = .ok (s', t')) :
    KeepsIssues t.issuePackage t'.issuePackage := by
  obtain ⟨⟨s₁, command⟩, -, h⟩ := Except.bind_eq_ok_iff.1 h
  obtain ⟨t₁, hrun, h⟩ := Except.bind_eq_ok_iff.1 h
  cases h
  exact IssueCommand.run_keepsIssues hrun

theorem IssueCommands.check_keepsIssues (h : c.commands.check s t = .ok (s', t')) :
    KeepsIssues t.issuePackage t'.issuePackage := by
  obtain ⟨⟨s₁, issue, thing⟩, -, h⟩ := Except.bind_eq_ok_iff.1 h
  cases h
  exact .refl _

end

/-! ## Actions -/

namespace Lexer

variable {c : IssueCommands} {L L' L'' K : Lexer}

/-- The lexer may raise compile issues. -/
structure Collecting (c : IssueCommands) (L : Lexer) : Prop where
  commands : L.commands = c.commands
  extension : L.ignoreKLC3Extension = false
  levels : CompileLevels L.tables.issuePackage

/-- Nothing is raised between two states of a pass. -/
structure Quiet (L L' : Lexer) : Prop where
  filename : L'.filename = L.filename
  commands : L'.commands = L.commands
  extension : L'.ignoreKLC3Extension = L.ignoreKLC3Extension
  package : KeepsIssues L.tables.issuePackage L'.tables.issuePackage

theorem Quiet.refl (L : Lexer) : Quiet L L :=
  ⟨rfl, rfl, rfl, .refl _⟩

theorem Quiet.trans (h : Quiet L L') (h' : Quiet L' L'') : Quiet L L'' :=
  ⟨h'.filename.trans h.filename, h'.commands.trans h.commands, h'.extension.trans h.extension,
    h.package.trans h'.package⟩

theorem Quiet.of_settings (h : L'.settings = L.settings) : Quiet L L' :=
  ⟨congrArg Settings.filename h, congrArg Settings.commands h,
    congrArg Settings.ignoreKLC3Extension h, by
      rw [show L'.tables.issuePackage = _ from congrArg Settings.issuePackage h]
      exact .refl _⟩

theorem Quiet.collecting (h : Quiet L L') (hL : Collecting c L) : Collecting c L' :=
  ⟨h.commands.trans hL.commands, h.extension.trans hL.extension, h.package.levels hL.levels⟩

theorem parseCommands_quiet (hc : L.commands = c.commands) {fuel : Nat} {s : Text}
    (h : parseCommands fuel s L = .ok L') : Quiet L L' := by
  induction fuel generalizing s L with
  | zero => cases h
  | succ fuel ih =>
    have next : ∀ {K : Lexer} {s : Text}, parseCommands fuel s K = .ok L' → Quiet L K →
        Quiet L L' := by
      intro K s h hK
      exact hK.trans (ih (hK.commands.trans hc) h)
    unfold parseCommands at h
    repeat' split at h
    all_goals first
      | (cases h; done)
      | (cases h; exact ⟨rfl, rfl, rfl, .refl _⟩)
      | exact next h ⟨rfl, rfl, rfl, .refl _⟩
      | (obtain ⟨⟨x, tables⟩, hrun, h⟩ := Except.bind_eq_ok_iff.1 h
         rw [hc] at hrun
         first
           | exact next h ⟨rfl, rfl, rfl, IssueCommands.issue_keepsIssues hrun⟩
           | exact next h ⟨rfl, rfl, rfl, IssueCommands.check_keepsIssues hrun⟩
           | (cases h
              obtain ⟨cs, ps, files, rfl⟩ := LoaderTables.processConstraintLine_eq hrun
              exact ⟨rfl, rfl, rfl, .refl _⟩))

theorem act_quiet (hc : L.commands = c.commands) {token : Token} (h : L.act token = .ok L') :
    Quiet L L' := by
  by_cases htoken : ∀ text, token ≠ .commentLine text
  · exact .of_settings (act_settings htoken h)
  · push Not at htoken
    obtain ⟨text, rfl⟩ := htoken
    obtain ⟨K, hcomment, h⟩ := Except.bind_eq_ok_iff.1 h
    cases h
    have hquiet : Quiet (L.appendLineContent text) K := by
      unfold parseComment at hcomment
      split at hcomment
      · cases hcomment
        exact .refl _
      · split at hcomment
        · cases hcomment
          exact .refl _
        · dsimp only at hcomment
          split at hcomment
          · cases hcomment
            exact ⟨rfl, rfl, rfl, .refl _⟩
          · have hcommands := parseCommands_quiet (c := c) (by exact hc) hcomment
            exact ⟨hcommands.filename, hcommands.commands, hcommands.extension, hcommands.package⟩
    exact ⟨hquiet.filename, hquiet.commands, hquiet.extension, hquiet.package⟩

theorem checkFirstPass_quiet (L : Lexer) : Quiet L L.checkFirstPass :=
  .of_settings (checkFirstPass_settings L)

theorem startPass_quiet (L : Lexer) (pass : Nat) : Quiet L (L.startPass pass) :=
  ⟨rfl, rfl, rfl, .refl _⟩

/-! ## Reports -/

variable {path : String → String}

/-- `raiseCompileIssue` with a test for the null pointer. -/
def recordCompileIssue (path : String → String) : Reporter := fun line L r => do
  let (L, _) ← L.newCompileIssue path line r
  return L

/-- The issue of a report. -/
def issueOf (path : String → String) (filename : String) (line : Nat) (r : CompileReport) :
    Issue :=
  ⟨r.type, some ⟨path filename, line⟩⟩

/-- The issues of reports with their lines. -/
def issuesOf (path : String → String) (filename : String) (log : List (Nat × CompileReport)) :
    List Issue :=
  log.map fun p => issueOf path filename p.1 p.2

/-- The package discards none of the issues of a log. -/
def Fresh (path : String → String) (L : Lexer) (log : List (Nat × CompileReport)) : Prop :=
  (issuesOf path L.filename log).Nodup ∧
    ∀ issue ∈ issuesOf path L.filename log, L.tables.issuePackage.find issue = none

/-- What the reports of a log do. -/
structure Recorded (path : String → String) (c : IssueCommands) (log : List (Nat × CompileReport))
    (L L' : Lexer) : Prop where
  filename : L'.filename = L.filename
  collecting : Collecting c L'
  find : ∀ issue, L'.tables.issuePackage.find issue = none ↔
    L.tables.issuePackage.find issue = none ∧ issue ∉ issuesOf path L.filename log

theorem Recorded.of_quiet (hL : Collecting c L) (h : Quiet L L') : Recorded path c [] L L' where
  filename := h.filename
  collecting := h.collecting hL
  find issue := by
    unfold IssuePackage.find
    rw [h.package.issues]
    simp [issuesOf]

theorem Recorded.append {log log' : List (Nat × CompileReport)} (h : Recorded path c log L L')
    (h' : Recorded path c log' L' L'') : Recorded path c (log ++ log') L L'' where
  filename := h'.filename.trans h.filename
  collecting := h'.collecting
  find issue := by
    rw [h'.find, h.find, h.filename]
    simp only [issuesOf, List.map_append, List.mem_append]
    tauto

theorem Recorded.fresh_append {log log' : List (Nat × CompileReport)}
    (h : Recorded path c log L L') :
    Fresh path L (log ++ log') ↔ Fresh path L log ∧ Fresh path L' log' := by
  unfold Fresh
  simp only [h.find, h.filename, issuesOf, List.map_append, List.nodup_append', List.mem_append]
  constructor
  · rintro ⟨⟨hnodup, hnodup', hdisjoint⟩, hnone⟩
    exact ⟨⟨hnodup, fun issue hissue => hnone issue (.inl hissue)⟩, hnodup', fun issue hissue =>
      ⟨hnone issue (.inr hissue), fun hmem => hdisjoint hmem hissue⟩⟩
  · rintro ⟨⟨hnodup, hnone⟩, hnodup', hnone'⟩
    refine ⟨⟨hnodup, hnodup', fun issue hmem hmem' => (hnone' issue hmem').2 hmem⟩, ?_⟩
    rintro issue (hissue | hissue)
    · exact hnone issue hissue
    · exact (hnone' issue hissue).1

/-- An issue that is not in the package is added, any other one discarded. -/
theorem newCompileIssue_spec (path : String → String) (hL : Collecting c L) (line : Nat)
    (r : CompileReport) :
    ∃ K raised, L.newCompileIssue path line r = .ok (K, raised) ∧
      (raised = true ↔
        L.tables.issuePackage.find (issueOf path L.filename line r) = none) ∧
      K.core = L.core ∧ Recorded path c [(line, r)] L K := by
  obtain ⟨level, hlevel, hne⟩ := hL.levels.report r
  unfold newCompileIssue IssuePackage.raiseIssue
  rw [hlevel, Except.ok_bind', if_neg hne]
  dsimp only
  have hsingle : issuesOf path L.filename [(line, r)] = [issueOf path L.filename line r] := rfl
  cases hfind : L.tables.issuePackage.find (issueOf path L.filename line r) with
  | none =>
    rw [show L.tables.issuePackage.find ⟨r.type, some ⟨path L.filename, line⟩⟩ = _ from hfind]
    refine ⟨_, _, rfl, by simp, rfl, rfl, ⟨hL.commands, hL.extension, ?_⟩, fun issue => ?_⟩
    · exact hL.levels.of_eq rfl
    · rw [hsingle, List.mem_singleton]
      have hlookup := IssuePackage.lookup_insertIssue _ issue ⟨none, -1, r.message, none⟩ _ hfind
      refine (congrArg (· = none) hlookup).to_iff.trans ?_
      by_cases hissue : issue = issueOf path L.filename line r
      · simp [hissue]
      · rw [if_neg hissue]
        exact (and_iff_left hissue).symm
  | some old =>
    rw [show L.tables.issuePackage.find ⟨r.type, some ⟨path L.filename, line⟩⟩ = _ from hfind]
    refine ⟨_, _, rfl, by simp, rfl, rfl, hL, fun issue => ?_⟩
    rw [hsingle, List.mem_singleton]
    refine (and_iff_left_of_imp ?_).symm
    rintro hnone rfl
    cases hfind.symm.trans hnone

theorem recordCompileIssue_recorded (hL : Collecting c L) {line : Nat} {r : CompileReport}
    (h : recordCompileIssue path line L r = .ok K) :
    K.core = L.core ∧ Recorded path c [(line, r)] L K := by
  obtain ⟨K', raised, hnew, -, hK'⟩ := newCompileIssue_spec path hL line r
  unfold recordCompileIssue at h
  rw [hnew] at h
  cases h
  exact hK'

/-- Two runs with the reports of a log agree when the first does not get a null pointer. -/
def Agrees {α : Type} (path : String → String) (L : Lexer) (log : List (Nat × CompileReport))
    (strict checked : Except Abort α) : Prop :=
  ∀ a, strict = .ok a ↔ checked = .ok a ∧ Fresh path L log

/-- The log of what comes after a computation. -/
def after (x : Except Abort Lexer) (log : Lexer → List (Nat × CompileReport)) :
    List (Nat × CompileReport) :=
  match x with
  | .ok K => log K
  | .error _ => []

theorem Agrees.refl {α : Type} (x : Except Abort α) : Agrees path L [] x x :=
  fun _ => (and_iff_left ⟨.nil, nofun⟩).symm

theorem Agrees.bind {α : Type} {log : List (Nat × CompileReport)}
    {rest : Lexer → List (Nat × CompileReport)} {strict checked : Except Abort Lexer}
    {strict' checked' : Lexer → Except Abort α} (h : Agrees path L log strict checked)
    (hrecorded : ∀ K, checked = .ok K → Recorded path c log L K)
    (hrest : ∀ K, checked = .ok K → Agrees path K (rest K) (strict' K) (checked' K)) :
    Agrees path L (log ++ after checked rest) (strict >>= strict') (checked >>= checked') := by
  intro a
  simp only [Except.bind_eq_ok_iff]
  cases hchecked : checked with
  | error e =>
    constructor
    · rintro ⟨K, hK, -⟩
      cases hchecked.symm.trans ((h K).1 hK).1
    · rintro ⟨⟨K, hK, -⟩, -⟩
      cases hK
  | ok K =>
    rw [show after (.ok K) rest = rest K from rfl, (hrecorded K hchecked).fresh_append]
    constructor
    · rintro ⟨K', hK', ha⟩
      obtain ⟨hK, hfresh⟩ := (h K').1 hK'
      obtain rfl : K = K' := Except.ok.inj (hchecked.symm.trans hK)
      obtain ⟨ha, hfresh'⟩ := (hrest K hchecked a).1 ha
      exact ⟨⟨K, rfl, ha⟩, hfresh, hfresh'⟩
    · rintro ⟨⟨K', hK', ha⟩, hfresh, hfresh'⟩
      cases hK'
      exact ⟨K, (h K).2 ⟨hchecked, hfresh⟩, (hrest K hchecked a).2 ⟨ha, hfresh'⟩⟩

theorem reportCompile_agrees (hL : Collecting c L) (line : Nat) (r : CompileReport) :
    Agrees path L [(line, r)] (reportCompile path true line L r)
      (recordCompileIssue path line L r) := by
  obtain ⟨K, raised, hnew, hraised, -⟩ := newCompileIssue_spec path hL line r
  have hfresh : Fresh path L [(line, r)] ↔ raised = true := by
    rw [hraised]
    simp [Fresh, issuesOf]
  intro a
  rw [hfresh]
  unfold reportCompile raiseCompileIssue recordCompileIssue
  rw [hL.extension, hnew]
  cases raised with
  | true => simp
  | false => simp

theorem reports_recorded {line : Nat} {rs : List CompileReport} (hL : Collecting c L)
    (h : rs.foldlM (recordCompileIssue path line) L = .ok K) :
    K.core = L.core ∧ Recorded path c (rs.map (line, ·)) L K := by
  induction rs generalizing L with
  | nil =>
    cases h
    exact ⟨rfl, .of_quiet hL (.refl _)⟩
  | cons r rs ih =>
    rw [List.foldlM_cons] at h
    obtain ⟨M, hM, h⟩ := Except.bind_eq_ok_iff.1 h
    obtain ⟨hcore, hrecorded⟩ := recordCompileIssue_recorded hL hM
    obtain ⟨hcore', hrecorded'⟩ := ih hrecorded.collecting h
    exact ⟨hcore'.trans hcore, hrecorded.append hrecorded'⟩

theorem reports_agree {line : Nat} {rs : List CompileReport} (hL : Collecting c L) :
    Agrees path L (rs.map (line, ·)) (rs.foldlM (reportCompile path true line) L)
      (rs.foldlM (recordCompileIssue path line) L) := by
  induction rs generalizing L with
  | nil => exact .refl _
  | cons r rs ih =>
    rw [List.foldlM_cons, List.foldlM_cons]
    obtain ⟨M, raised, hnew, -⟩ := newCompileIssue_spec path hL line r
    have hM : recordCompileIssue path line L r = .ok M := by
      unfold recordCompileIssue
      rw [hnew]
      rfl
    have hrecorded : ∀ K, recordCompileIssue path line L r = .ok K →
        Recorded path c [(line, r)] L K := fun K h => (recordCompileIssue_recorded hL h).2
    have hreport : Agrees path L [(line, r)] _ _ := reportCompile_agrees hL line r
    have hbind := hreport.bind hrecorded fun K h => ih (L := K) (hrecorded K h).collecting
    rw [hM] at hbind ⊢
    exact hbind

end Lexer

end Klc3
