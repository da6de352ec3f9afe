import Klc3.Model.Executor

/-!
# The cross checker

`CrossChecker::compare`: the check lists compared on a path of the test program and
a path of the gold program. Every difference that is possible but not certain is
added to the constraints, which later comparisons then start from.
-/

namespace Klc3

/-- `CrossChecker`; the check lists in the order of the map. -/
structure CrossChecker where
  solver : Solver
  checkLists : List (IssueType × CheckList)

namespace CrossChecker

/-- The check list of `ERR_INCORRECT_OUTPUT` that is there from the start. -/
def defaultCheckLists : List (IssueType × CheckList) :=
  [(.errIncorrectOutput, [.output true])]

/-- `deleteDefaultOutputCompare`. -/
def deleteDefaultOutputCompare (c : CrossChecker) : CrossChecker :=
  { c with checkLists := c.checkLists.filter fun l => l.1 != .errIncorrectOutput }

/-- `registerThingToCompare` on the ordered map. -/
def registerThingToCompare (issue : IssueType) (thing : ThingToCompare) :
    List (IssueType × CheckList) → List (IssueType × CheckList)
  | [] => [(issue, [thing])]
  | (type, list) :: rest =>
    if type = issue then (type, list ++ [thing]) :: rest
    else if issue.toNat < type.toNat then (issue, [thing]) :: (type, list) :: rest
    else (type, list) :: registerThingToCompare issue thing rest

section

variable (solver : Solver)

/-- `CrossChecker::exprMustEq`. -/
def exprMustEq (a b : Option WordExpr) (cs : ConstraintSet) : Except Abort (Bool × ConstraintSet) :=
  match a, b with
  | none, none => pure (true, cs)
  | some a, some b =>
    let eqExpr := ExprBuilder.eq a b
    if solver.mayBeFalse cs eqExpr then
      if solver.mustBeFalse cs eqExpr then pure (false, cs)
      else do
        let cs ← cs.addConstraint eqExpr.createIsZero
        return (false, cs)
    else pure (true, cs)
  | _, _ => pure (false, cs)

/-- The loop that all comparisons share: every pair is compared, also after one
differs. The result tells whether some pair may differ. -/
def anyDiffers : List (Option WordExpr × Option WordExpr) → ConstraintSet →
    Except Abort (Bool × ConstraintSet)
  | [], cs => pure (false, cs)
  | (a, b) :: rest, cs => do
    let (eq, cs) ← exprMustEq solver a b cs
    let (differs, cs) ← anyDiffers rest cs
    return (!eq || differs, cs)

/-- `CrossChecker::outputDiverge`. -/
def outputDiverge (gold test : State) (cs : ConstraintSet) : Except Abort (Bool × ConstraintSet) :=
  if gold.lc3Out.length ≠ test.lc3Out.length then pure (true, cs)
  else anyDiffers solver ((gold.lc3Out.zip test.lc3Out).map fun p => (some p.1, some p.2)) cs

/-- The registers of a range that may differ. -/
def differentRegs (gold test : State) : List Nat → ConstraintSet →
    Except Abort (List Nat × ConstraintSet)
  | [], cs => pure ([], cs)
  | r :: rest, cs =>
    if h : r < 8 then do
      let (eq, cs) ← exprMustEq solver (test.reg ⟨r, h⟩) (gold.reg ⟨r, h⟩) cs
      let (regs, cs) ← differentRegs gold test rest cs
      return (if eq then regs else r :: regs, cs)
    else throw .notGeneralReg

/-- `first .. last` of a range, as the loop runs over them. -/
def rangeOf (first last : Word) : List Nat :=
  List.range' first.toNat (last.toNat + 1 - first.toNat)

/-- The note of `CrossChecker::compareRegisters`. -/
def registersNote (regs : List Nat) : String :=
  String.intercalate ", " (regs.map fun r => "R" ++ toString r) ++
    (if regs.length = 1 then " doesn't match the expected value.\n"
      else " don't match the expected values.\n")

/-- `CrossChecker::compareRegisters`. -/
def compareRegisters (gold test : State) (first last : Word) (cs : ConstraintSet) :
    Except Abort (Bool × String × ConstraintSet) := do
  let (regs, cs) ← differentRegs solver gold test (rangeOf first last) cs
  return if regs.isEmpty then (false, "", cs) else (true, registersNote regs, cs)

/-- `CrossChecker::compareLastInst`. -/
def compareLastInst (gold test : State) (dumpGold : Bool) : Bool × String :=
  let context := fun (i : Option InstValue) => match i with
    | none => "<none>"
    | some i => i.formattedContext
  if gold.latestNonOSInst.1.map InstValue.addr ≠ test.latestNonOSInst.1.map InstValue.addr then
    (true, "your last executed instruction was: " ++ context test.latestNonOSInst.1 ++ ". " ++
      (if dumpGold then
        "The expected one is: " ++ context gold.latestNonOSInst.1 ++ ". " else "") ++ "\n")
  else (false, "")

/-- `CrossChecker::compareMem`; an unspecified cell is a null pointer. -/
def compareMem (gold test : State) : List Nat → ConstraintSet →
    Except Abort (Bool × ConstraintSet)
  | [], cs => pure (false, cs)
  | addr :: rest, cs =>
    match gold.mem.read (BitVec.ofNat 16 addr), test.mem.read (BitVec.ofNat 16 addr) with
    | some g, some t => do
      let (eq, cs) ← exprMustEq solver g.e t.e cs
      let (differs, cs) ← compareMem gold test rest cs
      return (!eq || differs, cs)
    | _, _ => throw .nullDeref

/-- One item of a check list: whether it fails, its part of the note, and the
constraints from there on. -/
def compareThing (gold test : State) (thing : ThingToCompare) (cs : ConstraintSet) :
    Except Abort (Bool × String × ConstraintSet) :=
  match thing with
  | .output _ => do
    let (fails, cs) ← outputDiverge solver gold test cs
    return (fails, "", cs)
  | .reg first last _ => compareRegisters solver gold test first last cs
  | .lastInst dumpGold =>
    let (fails, note) := compareLastInst gold test dumpGold
    pure (fails, note, cs)
  | .mem first last _ => do
    let (fails, cs) ← compareMem solver gold test (rangeOf first last) cs
    return (fails, "", cs)

/-- The items of one check list that fail. -/
def failedThings (gold test : State) : CheckList → ConstraintSet →
    Except Abort (CheckList × String × ConstraintSet)
  | [], cs => pure ([], "", cs)
  | thing :: rest, cs => do
    let (fails, note, cs) ← compareThing solver gold test thing cs
    let (failed, notes, cs) ← failedThings gold test rest cs
    return (if fails then thing :: failed else failed, note ++ notes, cs)

end

/-- What `compare` changes: the test state with its package, the flag of the gold
state, the final constraints; and the types it returns. -/
structure Verdict where
  test : Mach
  goldTriggersNewIssue : Bool
  finalConstraints : ConstraintSet
  types : List IssueType

/-- The step of `CrossChecker::compare` for one check list. -/
def compareList (c : CrossChecker) (gold : State) (v : Verdict) (list : IssueType × CheckList) :
    Except Abort Verdict :=
  if list.1 = .noIssue then pure v
  else do
    let (failed, note, cs) ← failedThings c.solver gold v.test.s list.2 v.finalConstraints
    if failed.isEmpty then return { v with finalConstraints := cs }
    else
      let accepted := v.test.accepts list.1 none
      let m ← v.test.newStateIssueWith list.1 none note (some ⟨failed, gold.uid⟩)
      return ⟨m, v.goldTriggersNewIssue || accepted, cs, v.types ++ [list.1]⟩

/-- `CrossChecker::compare`. -/
def compare (c : CrossChecker) (gold : State) (test : Mach) (finalConstraints : ConstraintSet) :
    Except Abort Verdict :=
  c.checkLists.foldlM (c.compareList gold) ⟨test, gold.triggerNewIssue, finalConstraints, []⟩

end CrossChecker

end Klc3
