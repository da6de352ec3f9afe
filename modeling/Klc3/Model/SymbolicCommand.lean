import Klc3.Model.ExprBuilder
import Klc3.Model.Lexer

/-!
# Commands on the tables of the loader

What `processConstraintLine` makes of the rest of a line with the command `SYMBOLIC`, and what
the commands `ISSUE` and `CHECK` do.
-/

namespace Klc3

namespace Text

/-- `splitString` by `getline`: no token follows a delimiter at the end. `token` is read
backwards. -/
def splitFrom (delimiter : Char) : Text → Text → List Text
  | [], [] => []
  | [], token => [token.reverse]
  | c :: s, token =>
    if c = delimiter then token.reverse :: splitFrom delimiter s []
    else splitFrom delimiter s (c :: token)

def splitString (s : Text) (delimiter : Char) : List Text :=
  splitFrom delimiter s []

/-- The pointer that `strtol` sets to the end of the number. -/
def strtolEnd (s : Text) (base : Nat) : Text :=
  let digits := (splitSign (skipSpace s)).2
  let digits := if base = 16 then skipHexPrefix digits else digits
  let rest := digits.dropWhile fun c => (digitValue base c).isSome
  if rest.length = digits.length then s else rest

end Text

namespace LoaderTables

open ExprBuilder

/-- `processInteger`. -/
def processInteger (s : Text) : Except Abort Word :=
  match s with
  | 'x' :: s => if (Text.strtolEnd s 16).isEmpty then pure (Lexer.word (Text.strtol s 16))
    else throw .progExit
  | '#' :: s => if (Text.strtolEnd s 10).isEmpty then pure (Lexer.word (Text.strtol s 10))
    else throw .progExit
  | _ => throw .progExit

/-- The symbol and the index that `processDefiningConstraint` and `processSingleConstraint`
look up. -/
def findElement (t : LoaderTables) (nameAndSize : Text) : Except Abort (SymbolInfo × Word) := do
  let nameAndSize :=
    if nameAndSize.getLast? = some ']' then nameAndSize else nameAndSize ++ "[0]".toList
  let (name, index) ← Lexer.splitNameAndSubscript nameAndSize
  match t.symbols.lookup name with
  | none => throw .progExit
  | some symbol =>
    if symbol.array.size ≤ index.toNat then throw .progExit else pure (symbol, index)

/-- The comparison by its operator, `none` for an unknown one. -/
def compareBy (opStr : Text) (left right : WordExpr) : Option BoolExpr :=
  if opStr = "==".toList then some (eq left right)
  else if opStr = "!=".toList then some (eq left right).createIsZero
  else if opStr = "<".toList then some (slt left right)
  else if opStr = "<=".toList then some (sle left right)
  else if opStr = ">".toList then some (slt right left)
  else if opStr = ">=".toList then some (sle right left)
  else none

/-- `constructSingleConstraint`. -/
def constructSingleConstraint (t : LoaderTables) (symbol : SymbolInfo) (index : Word)
    (opStr valStr : Text) : Except Abort BoolExpr :=
  match t.mem (symbol.startAddr + index) with
  | none => throw .nullDeref
  | some value => do
    let right ← processInteger valStr
    match value.e with
    | some (.read array offset) =>
      match compareBy opStr (.read array offset) (.const right) with
      | none => throw .progExit
      | some constraint => pure constraint
    | _ => throw .invalidLeft

/-- `processSingleConstraint`. -/
def processSingleConstraint (t : LoaderTables) (fields : List Text) : Except Abort BoolExpr :=
  match fields with
  | [nameAndSize, opStr, valStr] => do
    let (symbol, index) ← t.findElement nameAndSize
    t.constructSingleConstraint symbol index opStr valStr
  | _ => throw .progExit

/-- The next operand of an `&`. -/
def andOperand (t : LoaderTables) (orSub : Option BoolExpr) (andToken : Text) :
    Except Abort (Option BoolExpr) := do
  let andSub ← t.processSingleConstraint (Text.splitString (Text.strip andToken) ' ')
  match orSub with
  | none => return some andSub
  | some orSub => return some (boolAnd orSub andSub)

/-- The next operand of an `|`. An operand without text is null. -/
def orOperand (t : LoaderTables) (constraint : Option BoolExpr) (orToken : Text) :
    Except Abort (Option BoolExpr) := do
  let orSub ← (Text.splitString (Text.strip orToken) '&').foldlM t.andOperand none
  match constraint, orSub with
  | none, orSub => return orSub
  | some constraint, some orSub => return some (boolOr constraint orSub)
  | some _, none => throw .nullDeref

/-- `processNumericalConstraint`. A null constraint is dereferenced when the initial state is
created. -/
def processNumericalConstraint (t : LoaderTables) (line : Text) : Except Abort LoaderTables := do
  match ← (Text.splitString line '|').foldlM t.orOperand none with
  | none => throw .nullDeref
  | some constraint => return { t with constraints := t.constraints ++ [constraint] }

/-- The expression of a cell of a string. -/
def stringCell (t : LoaderTables) (symbol : SymbolInfo) (index : Nat) : Except Abort WordExpr :=
  match (t.mem (symbol.startAddr + BitVec.ofNat 16 index)).bind MemValue.e with
  | none => throw .nullDeref
  | some entry => pure entry

/-- What `addConstraintOfString` requires and prefers of a cell that is not the last one. -/
def addCharacter (symbol : SymbolInfo) (variableLength : Bool) (bound : Nat) (t : LoaderTables)
    (index : Nat) : Except Abort LoaderTables := do
  let entry ← t.stringCell symbol index
  let printable := boolAnd (sle entry (.const 0x7E)) (sle (.const 0x20) entry)
  return { t with
    constraints := t.constraints ++
      [if variableLength then boolOr printable (eq entry (.const 0)) else printable]
    preferences := t.preferences ++
      [boolAnd (sle (.const (BitVec.ofNat 16 bound)) entry) (sle entry (.const 0x5A))] }

/-- The variable of the symbol becomes a string. The code writes through the pointer
`inputVariable`, which is valid as long as `variables` has not been moved by a variable that
was added to the same file later; here the variable is found by its name. -/
def markString (t : LoaderTables) (symbol : SymbolInfo) : LoaderTables :=
  { t with inputFiles := t.inputFiles.map fun f =>
      { f with inputVariables := f.inputVariables.map fun v =>
          if v.isSymbolic ∧ v.name = symbol.name then { v with isString := true } else v } }

/-- `addConstraintOfString`, with the next `charPreferenceLowerBound`. -/
def addConstraintOfString (t : LoaderTables) (bound : Nat) (symbol : SymbolInfo)
    (variableLength : Bool) : Except Abort (Nat × LoaderTables) := do
  let t ← (List.range (symbol.array.size - 1)).foldlM (addCharacter symbol variableLength bound) t
  let last ← t.stringCell symbol (symbol.array.size - 1)
  let t := { t with constraints := t.constraints ++ [eq last (.const 0)] }
  return (if bound + 1 > 0x5A then 0x41 else bound + 1, t.markString symbol)

/-- `processDefiningConstraint`. -/
def processDefiningConstraint (t : LoaderTables) (bound : Nat) (nameAndSize type : Text) :
    Except Abort (Nat × LoaderTables) := do
  let (symbol, _) ← t.findElement nameAndSize
  if type = "fixed-length-string".toList ∨ type = "var-length-string".toList then
    t.addConstraintOfString bound symbol (type = "var-length-string".toList)
  else throw .progExit

/-- `processConstraintLine`. -/
def processConstraintLine (line : Text) (bound : Nat) (t : LoaderTables) :
    Except Abort (Nat × LoaderTables) :=
  match Text.splitString line ' ' with
  | [nameAndSize, is, type] =>
    if is = "is".toList then t.processDefiningConstraint bound nameAndSize type
    else do
      let t ← t.processNumericalConstraint line
      return (bound, t)
  | _ => do
    let t ← t.processNumericalConstraint line
    return (bound, t)

end LoaderTables

/-! ## The other commands on tables -/

/-- What `parseIssueCommand` does to the issues. Descriptions and hints are not modelled. -/
inductive IssueCommand where
  | deleteDefaultOutputCompare
  | registerIssue (name : String) (level : Level)
  | setIssueTypeLevel (type : IssueType) (level : Level)
  | setIssueTypeText

def IssueCommand.run (command : IssueCommand) (t : LoaderTables) : Except Abort LoaderTables :=
  match command with
  | deleteDefaultOutputCompare =>
    match t.crossChecker with
    | none => throw .nullDeref
    | some c => pure { t with crossChecker := some c.deleteDefaultOutputCompare }
  | registerIssue name level =>
    pure { t with issuePackage := (t.issuePackage.registerIssue name level).1 }
  | setIssueTypeLevel type level => do
    let pkg ← t.issuePackage.setIssueTypeLevel type level
    return { t with issuePackage := pkg }
  | setIssueTypeText => pure t

/-- `parsePostCheckCommand` without a gold program has no effect. -/
def LoaderTables.registerThingToCompare (t : LoaderTables) (issue : IssueType)
    (thing : ThingToCompare) : LoaderTables :=
  { t with crossChecker := t.crossChecker.map fun c =>
      { c with checkLists := CrossChecker.registerThingToCompare issue thing c.checkLists } }

/-- How the arguments of `ISSUE` and `CHECK` are read. They name issues. -/
structure IssueCommands where
  issue : Text → IssuePackage → Except Abort (Text × IssueCommand)
  check : Text → IssuePackage → Except Abort (Text × IssueType × ThingToCompare)

namespace IssueCommands

/-- `extractNextField`, where it is an error that there is none. -/
def extractNextField (s : Text) : Except Abort (Text × Text) :=
  if s.isEmpty then throw .progExit else pure (Text.splitAtBlank s)

/-- `extractNextString`. The quote is taken off also when there is no other. -/
def extractNextString : Text → Option Text × Text
  | '"' :: s =>
    match Text.strchr s '"' with
    | none => (none, s)
    | some rest => (some (s.takeWhile (· != '"')), Text.strip (rest.drop 1))
  | s => (none, s)

/-- An issue that must be known. -/
def knownIssue (pkg : IssuePackage) (name : Text) : Except Abort IssueType :=
  let issue := pkg.getIssueByName (String.ofList name)
  if issue = .noIssue then throw .progExit else pure issue

/-- `DEFINE` of an issue. -/
def parseDefine (s : Text) (pkg : IssuePackage) : Except Abort (Text × IssueCommand) := do
  let (level, s) ← extractNextField s
  if level ≠ "ERROR".toList ∧ level ≠ "WARNING".toList then throw .progExit
  let (name, s) ← extractNextField s
  if pkg.getIssueByName (String.ofList name) ≠ .noIssue then throw .progExit
  match extractNextString s with
  | (none, _) => throw .progExit
  | (some _, s) =>
    let (_, s) := extractNextString s
    return (s, .registerIssue (String.ofList name)
      (if level = "ERROR".toList then .error else .warning))

/-- `SET_LEVEL` of an issue. -/
def parseSetLevel (s : Text) (pkg : IssuePackage) : Except Abort (Text × IssueCommand) := do
  let (name, s) ← extractNextField s
  let (level, s) ← extractNextField s
  let issue ← knownIssue pkg name
  if level = "ERROR".toList then return (s, .setIssueTypeLevel issue .error)
  else if level = "WARNING".toList then return (s, .setIssueTypeLevel issue .warning)
  else if level = "NONE".toList then return (s, .setIssueTypeLevel issue .none)
  else throw .progExit

/-- `SET_DESCRIPTION` and `SET_HINT`. -/
def parseSetText (s : Text) (pkg : IssuePackage) : Except Abort (Text × IssueCommand) := do
  let (name, s) ← extractNextField s
  match extractNextString s with
  | (none, _) => throw .progExit
  | (some _, s) =>
    let _ ← knownIssue pkg name
    return (s, .setIssueTypeText)

/-- `parseIssueCommand`. -/
def parseIssueCommand (s : Text) (pkg : IssuePackage) : Except Abort (Text × IssueCommand) :=
  match Text.matchStartAndTrim s "SET_LEVEL ERR_INCORRECT_OUTPUT NONE".toList with
  | some s => pure (s, .deleteDefaultOutputCompare)
  | none =>
    match Text.matchStartAndTrim s "DEFINE ".toList with
    | some s => parseDefine s pkg
    | none =>
      match Text.matchStartAndTrim s "SET_LEVEL ".toList with
      | some s => parseSetLevel s pkg
      | none =>
        match Text.matchStartAndTrim s "SET_DESCRIPTION ".toList with
        | some s => parseSetText s pkg
        | none =>
          match Text.matchStartAndTrim s "SET_HINT ".toList with
          | some s => parseSetText s pkg
          | none => throw .progExit

/-- A digit that names a register. `substr(1)` of an empty string throws. -/
def parseRegister : Text → Except Abort (Word × Text)
  | [] => throw .outOfBounds
  | c :: s =>
    let r := Lexer.word ((c.toNat : Int) - 48)
    if r.toNat ≤ 7 then pure (r, Text.strip s) else throw .progExit

/-- The registers of a check. -/
def parseRegisters (s : Text) : Except Abort (Text × (Bool → ThingToCompare)) := do
  let (first, s) ← parseRegister s
  match Text.matchStartAndTrim s "to".toList with
  | none => return (s, .reg first first)
  | some s =>
    match Text.matchStartAndTrim s "R".toList with
    | none => throw .progExit
    | some s => do
      let (last, s) ← parseRegister s
      if last.toNat < first.toNat then throw .progExit
      return (s, .reg first last)

/-- The addresses of a check. -/
def parseMemory (s : Text) : Except Abort (Text × (Bool → ThingToCompare)) := do
  let (field, s) ← extractNextField s
  let first ← LoaderTables.processInteger field
  match Text.matchStartAndTrim s "to".toList with
  | none => return (s, .mem first first)
  | some s => do
    let (field, s) ← extractNextField s
    let last ← LoaderTables.processInteger field
    if last.toNat < first.toNat then throw .progExit
    return (s, .mem first last)

/-- What a check compares, before its option is known. -/
def parseThing (s : Text) : Except Abort (Text × (Bool → ThingToCompare)) :=
  match Text.matchStartAndTrim s "OUTPUT".toList with
  | some s => pure (s, .output)
  | none =>
    match Text.matchStartAndTrim s "LAST_INST".toList with
    | some s => pure (s, .lastInst)
    | none =>
      match Text.matchStartAndTrim s "R".toList with
      | some s => parseRegisters s
      | none =>
        match Text.matchStartAndTrim s "MEMORY".toList with
        | some s => parseMemory s
        | none => throw .progExit

/-- `parsePostCheckCommand`. -/
def parsePostCheckCommand (s : Text) (pkg : IssuePackage) :
    Except Abort (Text × IssueType × ThingToCompare) := do
  let (s, thing) ← parseThing s
  match Text.matchStartAndTrim s "for".toList with
  | none => throw .progExit
  | some s => do
    let (name, s) ← extractNextField s
    let issue ← knownIssue pkg name
    if s.isEmpty then return (s, issue, thing false)
    let (option, s) ← extractNextField s
    if option = "DUMP_GOLD".toList then return (s, issue, thing true)
    else if option = "NOT_DUMP_GOLD".toList then return (s, issue, thing false)
    else throw .progExit

end IssueCommands

/-- The commands of the loader. What is said of loading holds for any way to read them. -/
def issueCommands : IssueCommands where
  issue := IssueCommands.parseIssueCommand
  check := IssueCommands.parsePostCheckCommand

def IssueCommands.commands (c : IssueCommands) : Commands where
  symbolic s bound t := t.processConstraintLine s bound
  issue s t := do
    let (s, command) ← c.issue s t.issuePackage
    let t ← command.run t
    return (s, t)
  check s t := do
    let (s, issue, thing) ← c.check s t.issuePackage
    return (s, t.registerThingToCompare issue thing)

/-- A source file, as the scanner has read it, and how it is loaded. -/
structure SourceFile where
  filename : String
  isLC3OS : Bool
  allowInputFile : Bool
  collectCompileIssues : Bool
  ignoreKLC3Extension : Bool
  tokens : List Token

/-- `KLC3Loader::load`: the tables, and whether the file was accepted. -/
def LoaderTables.load (commands : Commands) (t : LoaderTables) (f : SourceFile) :
    Except Abort (LoaderTables × Bool) := do
  let (L, accepted) ← (Lexer.new t commands f.filename f.isLC3OS f.allowInputFile
    f.ignoreKLC3Extension).load f.collectCompileIssues f.tokens
  return (L.tables, accepted)

/-- Files that are loaded one after another. -/
def LoaderTables.loadAll (commands : Commands) (t : LoaderTables) (files : List SourceFile) :
    Except Abort LoaderTables :=
  files.foldlM (fun t f => do
    let (t, _) ← t.load commands f
    return t) t

end Klc3
