import Klc3.Model.SymbolicCommand

/-!
# Compile issues

What the lexer does with its errors and warnings: `reportCompileErr`, `reportCompileWarn` and
`raiseCompileIssue`. An action that reports something has no other effect on the issues, so its
reports are delivered when it is done.
-/

namespace Klc3

/-- A report of the lexer: an error, or the warning about text after `.END`. -/
inductive CompileReport where
  | err (error : CompileErr)
  | warn
deriving DecidableEq

namespace CompileReport

def type : CompileReport → IssueType
  | err _ => .errCompile
  | warn => .warnCompile

def message : CompileReport → String
  | err error => error.message
  | warn => "all text after .END ignored"

/-- `errCount++` comes with every error but a second `.ORIG`. -/
def counted : CompileReport → Bool
  | err error => error ≠ .multipleORIG
  | warn => false

end CompileReport

namespace Lexer

/-- What is done with a report at a line. -/
abbrev Reporter := Nat → Lexer → CompileReport → Except Abort Lexer

/-- `fprintf` to `stderr`. -/
def printCompileReport : Reporter :=
  fun _ L _ => pure L

/-- `newGlobalIssue` for a report at a line, and whether the package has accepted it. `path` is
what `UseFileBasename` makes of a file name. -/
def newCompileIssue (path : String → String) (line : Nat) (L : Lexer) (r : CompileReport) :
    Except Abort (Lexer × Bool) := do
  let (pkg, raised) ← L.tables.issuePackage.raiseIssue r.type (some ⟨path L.filename, line⟩)
    ⟨none, -1, r.message, none⟩
  return ({ L with tables := { L.tables with issuePackage := pkg } }, raised)

/-- `raiseCompileIssue`. The note is written through a null pointer if the issue is discarded. -/
def raiseCompileIssue (path : String → String) : Reporter := fun line L r => do
  let (L, raised) ← L.newCompileIssue path line r
  if raised then pure L else throw .nullDeref

/-- `reportCompileErr` and `reportCompileWarn`. -/
def reportCompile (path : String → String) (collectCompileIssues : Bool) : Reporter :=
  fun line L r =>
    if L.ignoreKLC3Extension || !collectCompileIssues then printCompileReport line L r
    else raiseCompileIssue path line L r

/-- The errors that have been reported between two states of a pass. -/
def newErrors (L L' : Lexer) : List CompileReport :=
  (L'.errors.drop L.errors.length).map .err

/-- What the action of a rule has reported. The rest of a line after `.END` is ignored by
`lineIgnored`. -/
def reports (L L' : Lexer) (token : Token) : List CompileReport :=
  L.newErrors L' ++ if token = .ignored ∧ L.sawEND ∧ L.curPass = 1 then [.warn] else []

/-- The action of a rule, with its reports. -/
def actReporting (report : Reporter) (L : Lexer) (token : Token) : Except Abort Lexer := do
  let L' ← L.act token
  (L.reports L' token).foldlM (report L.curLine) L'

def runPassReporting (report : Reporter) (L : Lexer) (pass : Nat) (tokens : List Token) :
    Except Abort Lexer :=
  tokens.foldlM (actReporting report) (L.startPass pass)

/-- What `load` reports after the first pass. -/
def checkFirstPassReporting (report : Reporter) (L : Lexer) : Except Abort Lexer :=
  (L.newErrors L.checkFirstPass).foldlM (report L.curLine) L.checkFirstPass

/-- `load`, with its reports. -/
def loadReporting (report : Reporter) (L : Lexer) (collectCompileIssues : Bool)
    (tokens : List Token) : Except Abort (Lexer × Bool) := do
  let L₁ ← L.runPassReporting report 1 tokens
  let L₁ ← L₁.checkFirstPassReporting report
  if L₁.errCount > 0 then L₁.reject collectCompileIssues
  else
    let L₂ ← L₁.runPassReporting report 2 tokens
    if L₂.errCount > 0 then L₂.reject collectCompileIssues
    else return (pushProgram { L₂ with tables := { L₂.tables with initPC := L₂.fileStartAddr } },
      true)

end Lexer

/-- `KLC3Loader::load`, with its reports. -/
def LoaderTables.loadReporting (report : Bool → Lexer.Reporter) (commands : Commands)
    (t : LoaderTables) (f : SourceFile) : Except Abort (LoaderTables × Bool) := do
  let L := Lexer.new t commands f.filename f.isLC3OS f.allowInputFile f.ignoreKLC3Extension
  let (L, accepted) ← L.loadReporting (report f.collectCompileIssues) f.collectCompileIssues
    f.tokens
  return (L.tables, accepted)

/-- Files that are loaded one after another. -/
def LoaderTables.loadAllReporting (report : Bool → Lexer.Reporter) (commands : Commands)
    (t : LoaderTables) (files : List SourceFile) : Except Abort LoaderTables :=
  files.foldlM (fun t f => do
    let (t, _) ← t.loadReporting report commands f
    return t) t

end Klc3
