import Klc3.Model.Abort
import Mathlib.Data.BitVec

/-!
# Issues

`Issue`, `IssueLocationLess` and `IssuePackage`: the issues found so far, keyed
by type and source location, and the level configured for every type.
-/

namespace Klc3

/-- `Issue::Type`. Values from `PRE_DEFINED_ISSUE_COUNT` on are user defined. -/
inductive IssueType where
  | noIssue
  | warnCompile
  | warnPossibleWildRead
  | warnReadUninitializedMemory
  | warnPossibleWildWrite
  | warnWriteReadOnlyData
  | warnReadInstAsData
  | warnUseUninitializedRegister
  | warnUseUninitializedCC
  | warnManualHalt
  | warnImproperRet
  | warnReuseCodeAcrossSubroutines
  | warnHaltInSubroutine
  | errCompile
  | errInvalidInst
  | errExecuteDataAsInst
  | errOverwriteInst
  | errSymbolicPC
  | errExecuteUninitializedMemory
  | errRetInMainCode
  | errStateReachStepLimit
  | errStateReachOutputLimit
  | errStateReachQueryLimit
  | errIncorrectOutput
  | userDefined (index : Nat)
deriving DecidableEq, Repr

namespace IssueType

/-- The value of the enumerator. -/
def toNat : IssueType → Nat
  | noIssue => 0
  | warnCompile => 1
  | warnPossibleWildRead => 2
  | warnReadUninitializedMemory => 3
  | warnPossibleWildWrite => 4
  | warnWriteReadOnlyData => 5
  | warnReadInstAsData => 6
  | warnUseUninitializedRegister => 7
  | warnUseUninitializedCC => 8
  | warnManualHalt => 9
  | warnImproperRet => 10
  | warnReuseCodeAcrossSubroutines => 11
  | warnHaltInSubroutine => 12
  | errCompile => 13
  | errInvalidInst => 14
  | errExecuteDataAsInst => 15
  | errOverwriteInst => 16
  | errSymbolicPC => 17
  | errExecuteUninitializedMemory => 18
  | errRetInMainCode => 19
  | errStateReachStepLimit => 20
  | errStateReachOutputLimit => 21
  | errStateReachQueryLimit => 22
  | errIncorrectOutput => 24
  | userDefined index => 25 + index

/-- `Issue::RUNTIME_ISSUE_COUNT`. -/
def runtimeIssueCount : Nat := 23

/-- The types raised while the test program runs, without the gold program. -/
def IsRuntime (type : IssueType) : Prop :=
  type.toNat < runtimeIssueCount

instance (type : IssueType) : Decidable type.IsRuntime :=
  inferInstanceAs (Decidable (_ < _))

end IssueType

/-- `Issue::Level`. -/
inductive Level where
  | error
  | warning
  | none
deriving DecidableEq, Repr

/-- What `IssueLocationLess` reads of a location. -/
structure Location where
  sourceFile : String
  sourceLine : Int
deriving DecidableEq, Repr

structure Issue where
  type : IssueType
  location : Option Location
deriving DecidableEq, Repr

/-- `IssueLocationLess`: issues without a location come first. -/
def Issue.less (l r : Issue) : Bool :=
  match l.location, r.location with
  | .none, .some _ => true
  | .some _, .none => false
  | .none, .none => decide (l.type.toNat < r.type.toNat)
  | .some ll, .some rl =>
    if ll.sourceFile = rl.sourceFile then
      if ll.sourceLine = rl.sourceLine then
        decide (l.type.toNat < r.type.toNat)
      else
        decide (ll.sourceLine < rl.sourceLine)
    else
      decide (ll.sourceFile < rl.sourceFile)

/-- `CrossChecker::ThingToCompare`. -/
inductive ThingToCompare where
  | output (dumpGold : Bool)
  | reg (first last : BitVec 16) (dumpGold : Bool)
  | lastInst (dumpGold : Bool)
  | mem (first last : BitVec 16) (dumpGold : Bool)
deriving DecidableEq, Repr

abbrev CheckList := List ThingToCompare

/-- `CrossChecker::CallBackArg`; the gold state is named by its uid. -/
structure CallBackArg where
  failedThings : CheckList
  goldState : Nat
deriving DecidableEq, Repr

/-- `IssuePackage::IssueInfo`; the state is named by its uid. -/
structure IssueInfo where
  s : Option Nat
  stepCount : Int
  note : String
  descCallbackArg : Option CallBackArg
deriving DecidableEq, Repr

/-- `IssuePackage`. With `AGGRESSIVE_FILTER_ISSUE` an issue has exactly one
`IssueInfo`, that of its first detection. The list is the map in key order. -/
structure IssuePackage where
  issues : List (Issue × IssueInfo)
  issueName : List (IssueType × String)
  issueLevel : IssueType → Option Level
  definedIssueCount : Nat

namespace IssuePackage

/-- The initial table `issueName`. -/
def defaultIssueName : List (IssueType × String) :=
  [(.warnCompile, "WARN_COMPILE"),
   (.warnPossibleWildRead, "WARN_POSSIBLE_WILD_READ"),
   (.warnReadUninitializedMemory, "WARN_READ_UNINITIALIZED_MEMORY"),
   (.warnUseUninitializedRegister, "WARN_USE_UNINITIALIZED_REGISTER"),
   (.warnUseUninitializedCC, "WARN_USE_UNINITIALIZED_CC"),
   (.warnReadInstAsData, "WARN_READ_INST_AS_DATA"),
   (.warnPossibleWildWrite, "WARN_POSSIBLE_WILD_WRITE"),
   (.warnWriteReadOnlyData, "WARN_WRITE_READ_ONLY_DATA"),
   (.warnManualHalt, "WARN_MANUAL_HALT"),
   (.warnImproperRet, "WARN_IMPROPER_RET"),
   (.warnReuseCodeAcrossSubroutines, "WARN_DUPLICATE_COLOR"),
   (.warnHaltInSubroutine, "WARN_HALT_IN_SUBROUTINE"),
   (.errCompile, "ERR_COMPILE"),
   (.errExecuteDataAsInst, "ERR_EXECUTE_DATA_AS_INST"),
   (.errOverwriteInst, "ERR_OVERWRITE_INST"),
   (.errSymbolicPC, "ERR_SYMBOLIC_PC"),
   (.errExecuteUninitializedMemory, "ERR_EXECUTE_UNINITIALIZED_MEMORY"),
   (.errRetInMainCode, "ERR_RET_IN_MAIN_CODE"),
   (.errStateReachStepLimit, "ERR_STATE_REACH_STEP_LIMIT"),
   (.errStateReachOutputLimit, "ERR_STATE_REACH_OUTPUT_LIMIT"),
   (.errStateReachQueryLimit, "ERR_STATE_REACH_QUERY_LIMIT"),
   (.errIncorrectOutput, "ERR_INCORRECT_OUTPUT")]

/-- The initial table `issueLevel`. -/
def defaultIssueLevel : IssueType → Option Level
  | .warnCompile => some .warning
  | .warnPossibleWildRead => some .warning
  | .warnReadUninitializedMemory => some .warning
  | .warnUseUninitializedRegister => some .warning
  | .warnUseUninitializedCC => some .warning
  | .warnReadInstAsData => some .warning
  | .warnPossibleWildWrite => some .warning
  | .warnWriteReadOnlyData => some .warning
  | .warnManualHalt => some .warning
  | .warnImproperRet => some .warning
  | .warnReuseCodeAcrossSubroutines => some .warning
  | .warnHaltInSubroutine => some .warning
  | .errCompile => some .error
  | .errExecuteDataAsInst => some .error
  | .errOverwriteInst => some .error
  | .errSymbolicPC => some .error
  | .errExecuteUninitializedMemory => some .error
  | .errRetInMainCode => some .error
  | .errStateReachStepLimit => some .error
  | .errStateReachOutputLimit => some .error
  | .errStateReachQueryLimit => some .error
  | .errIncorrectOutput => some .error
  | .noIssue => none
  | .errInvalidInst => none
  | .userDefined _ => none

def empty : IssuePackage where
  issues := []
  issueName := defaultIssueName
  issueLevel := defaultIssueLevel
  definedIssueCount := 0

def getIssueLevel (pkg : IssuePackage) (type : IssueType) : Except Abort Level :=
  match pkg.issueLevel type with
  | some level => pure level
  | none => throw .unknownIssueType

def find (pkg : IssuePackage) (issue : Issue) : Option IssueInfo :=
  pkg.issues.lookup issue

/-- Insertion into the ordered map, for a key that is not there yet. -/
def insertIssue (issue : Issue) (info : IssueInfo) :
    List (Issue × IssueInfo) → List (Issue × IssueInfo)
  | [] => [(issue, info)]
  | entry :: rest =>
    if entry.1.less issue then entry :: insertIssue issue info rest
    else (issue, info) :: entry :: rest

/-- `IssuePackage::raiseIssue`, together with the fields the caller fills in when
the issue is accepted. The second component tells whether it was. -/
def raiseIssue (pkg : IssuePackage) (type : IssueType) (location : Option Location)
    (info : IssueInfo) : Except Abort (IssuePackage × Bool) := do
  let level ← pkg.getIssueLevel type
  if level = .none then return (pkg, false)
  let issue : Issue := ⟨type, location⟩
  match pkg.find issue with
  | none => return ({ pkg with issues := insertIssue issue info pkg.issues }, true)
  | some _ => return (pkg, false)

/-- `IssuePackage::getIssueByName`, `NO_ISSUE` for an unknown name. -/
def getIssueByName (pkg : IssuePackage) (name : String) : IssueType :=
  match pkg.issueName.find? fun entry => entry.2 == name with
  | some entry => entry.1
  | none => .noIssue

/-- `IssuePackage::registerIssue`: a user-defined issue gets the next type. -/
def registerIssue (pkg : IssuePackage) (name : String) (level : Level) : IssuePackage × IssueType :=
  let type := IssueType.userDefined pkg.definedIssueCount
  ({ pkg with
      issueName := pkg.issueName ++ [(type, name)]
      issueLevel := fun t => if t = type then some level else pkg.issueLevel t
      definedIssueCount := pkg.definedIssueCount + 1 }, type)

/-- The types whose level `setIssueTypeLevel` sets freely. -/
def acceptsAllLevels : IssueType → Bool
  | .warnPossibleWildRead | .warnReadUninitializedMemory | .warnUseUninitializedRegister
  | .warnUseUninitializedCC | .warnReadInstAsData | .warnPossibleWildWrite
  | .warnWriteReadOnlyData | .warnManualHalt | .warnImproperRet
  | .warnReuseCodeAcrossSubroutines | .warnHaltInSubroutine | .errRetInMainCode => true
  | _ => false

/-- The types for which `setIssueTypeLevel` accepts `ERROR` only. -/
def mustBeError : IssueType → Bool
  | .errCompile | .errInvalidInst | .errExecuteDataAsInst | .errOverwriteInst | .errSymbolicPC
  | .errExecuteUninitializedMemory | .errStateReachStepLimit | .errStateReachOutputLimit
  | .errStateReachQueryLimit | .errIncorrectOutput => true
  | _ => false

/-- `IssuePackage::setIssueTypeLevel`. Whatever it rejects ends in `progExit`. -/
def setIssueTypeLevel (pkg : IssuePackage) (type : IssueType) (level : Level) :
    Except Abort IssuePackage :=
  if acceptsAllLevels type then
    pure { pkg with issueLevel := fun t => if t = type then some level else pkg.issueLevel t }
  else if mustBeError type then
    if level ≠ .error then throw .progExit
    else pure { pkg with issueLevel := fun t => if t = type then some level else pkg.issueLevel t }
  else throw .progExit

end IssuePackage

end Klc3
