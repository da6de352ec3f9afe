import Klc3.Lib.Loop
import Klc3.Model.CrossChecker
import Klc3.Model.Searcher
import Klc3.Model.SubroutineTracker

/-!
# The main loop

The exploration loop of `tools/klc3/klc3.cpp`: the test program is executed step by
step, every state it halts in is compared with the gold program run on the same
constraints, and at the end an assignment is induced for every reported state.
-/

namespace Klc3

/-- What the loader hands over: the memory in address order, the constraints on the
symbolic inputs, the initial PC and the preferences for test cases. -/
structure Program where
  mem : List (Word × MemValue)
  constraints : List BoolExpr
  initPC : Word
  preferences : List BoolExpr

namespace Program

def baseMem (p : Program) (addr : Word) : Option MemValue :=
  p.mem.lookup addr

end Program

/-- The limits of `ExecutionLimitChecker`, 0 for none. The number of solver queries
of a state is not modelled, so the third limit is a predicate. -/
structure Limits where
  maxStepCount : Nat
  maxOutputLength : Nat
  queryLimitReached : State → Bool

namespace Limits

def none : Limits := ⟨0, 0, fun _ => false⟩

/-- An issue that ends a state at a limit. -/
def reach (m : Mach) (type : IssueType) (note : String) : Except Abort Mach := do
  let m ← m.newStateIssue type Option.none note
  assertBroken m
  return m

/-- `ExecutionLimitChecker::checkLimitOnState`. -/
def checkLimitOnState (l : Limits) (m : Mach) : Except Abort Mach :=
  if l.maxStepCount ≠ 0 ∧ m.s.stepCount > l.maxStepCount then
    reach m .errStateReachStepLimit
      ("program doesn't halt after " ++ toString m.s.stepCount ++ " steps.\n")
  else if l.maxOutputLength ≠ 0 ∧ m.s.lc3Out.length > l.maxOutputLength then
    reach m .errStateReachOutputLimit
      ("program doesn't halt after printing " ++ toString m.s.lc3Out.length ++ " characters.\n")
  else if l.queryLimitReached m.s then
    reach m .errStateReachQueryLimit "program doesn't halt after a long time.\n"
  else pure m

end Limits

/-- The gold program: its executor and issue package, and the state in which its
warm-up ended. -/
structure Gold where
  ex : Executor
  pkg : IssuePackage
  startup : State

/-- One call of `CrossChecker::compare`, kept as a history variable. -/
structure Comparison where
  gold : State
  test : State
  verdict : CrossChecker.Verdict

/-- All that the main loop changes, the searcher apart. `comparisons` is a history
variable. -/
structure Session where
  ex : Executor
  pkg : IssuePackage
  fa : FlowAnalysis
  gold : Option Gold
  crossChecker : CrossChecker
  limits : Limits
  finalConstraintSets : List (Nat × ConstraintSet)
  comparisons : List Comparison

namespace Session

/-! ## Comparing with the gold program -/

/-- A test state under comparison, with the session around it. -/
structure Checking where
  session : Session
  test : State

/-- `crossChecker->compare(gold, test, finalConstraints)` with a copy of the given
constraints, and the update of `finalConstraintSets`. -/
def compareWith (c : Checking) (gold : State) (constraints : ConstraintSet) :
    Except Abort Checking := do
  let S := c.session
  let v ← S.crossChecker.compare gold ⟨c.test, S.pkg⟩ constraints
  return {
    session := { S with
      pkg := v.test.pkg
      finalConstraintSets :=
        if v.types.isEmpty then S.finalConstraintSets
        else (c.test.uid, v.finalConstraints) :: S.finalConstraintSets
      comparisons := S.comparisons ++ [⟨gold, c.test, v⟩] }
    test := v.test.s }

/-- The gold loop: the checking so far, the gold program and its searcher. -/
structure GoldLoop where
  checking : Checking
  ex : Executor
  pkg : IssuePackage
  searcher : Searcher

/-- The completed gold states of one step are compared with the test state. -/
def compareGoldResults (c : Checking) (states : List State) : Except Abort Checking :=
  states.foldlM (fun (c : Checking) gold =>
    match gold.status with
    | .halted => compareWith c gold gold.constraints
    | .broken => throw .progExit
    | .normal => pure c) c

/-- One iteration of the gold loop. -/
def goldNext (g : GoldLoop) : Except Abort (Option GoldLoop) :=
  match g.searcher.fetch with
  | none => pure none
  | some (s, searcher) => do
    let r ← g.ex.step ⟨s, g.pkg⟩
    let checking ← compareGoldResults g.checking r.states
    return some ⟨checking, r.ex, r.pkg, searcher.push r.states⟩

/-- Comparison of a halted test state with all paths of the gold program. `none` when
the gold loop does not end within `fuel` iterations. -/
def crossCheck (fuel : Nat) (S : Session) (test : State) : Except Abort (Option Checking) :=
  match S.gold with
  | none => pure (some ⟨S, test⟩)
  | some gold =>
    if gold.startup.status = .halted then do
      let c ← compareWith ⟨S, test⟩ gold.startup test.constraints
      return some c
    else do
      let s ← gold.startup.fork gold.ex.totalAllocatedStateCount
      let ex := { gold.ex with totalAllocatedStateCount := gold.ex.totalAllocatedStateCount + 1 }
      let s := { s with constraints := test.constraints }
      let searcher := (Searcher.prioritizedFILO [] [] []).push [s]
      match ← Loop.run goldNext fuel ⟨⟨S, test⟩, ex, gold.pkg, searcher⟩ with
      | none => pure none
      | some g =>
        if g.pkg.issues.isEmpty then
          let S := g.checking.session
          return some { g.checking with session := { S with gold := some ⟨g.ex, g.pkg, gold.startup⟩ } }
        else throw .progExit

/-! ## One iteration -/

/-- `updateGraphAndCoverage` on all result states. -/
def updateCoverage (fa : FlowAnalysis) : List State → Except Abort (FlowAnalysis × List State)
  | [] => pure (fa, [])
  | s :: rest => do
    let (fg, s) ← CoverageTracker.updateGraphAndCoverage fa.fg s
    let (fa, states) ← updateCoverage { fa with fg := fg } rest
    return (fa, s :: states)

/-- `updateColors` on all result states. -/
def updateAllColors (fa : FlowAnalysis) (pkg : IssuePackage) :
    List State → Except Abort (FlowAnalysis × IssuePackage × List State)
  | [] => pure (fa, pkg, [])
  | s :: rest => do
    let (fa, m) ← SubroutineTracker.updateColors fa ⟨s, pkg⟩
    let (fa, pkg, states) ← updateAllColors fa m.pkg rest
    return (fa, pkg, m.s :: states)

/-- The limits, the post check and the comparison of one result state. -/
def checkResult (fuel : Nat) (S : Session) (s : State) : Except Abort (Option Checking) := do
  let m ← if s.status = .normal then S.limits.checkLimitOnState ⟨s, S.pkg⟩ else pure ⟨s, S.pkg⟩
  if m.s.status = .halted then
    let m ← SubroutineTracker.postCheckState S.fa.fg.initPC m
    crossCheck fuel { S with pkg := m.pkg } m.s
  else return some ⟨{ S with pkg := m.pkg }, m.s⟩

def checkResults (fuel : Nat) (S : Session) :
    List State → Except Abort (Option (Session × List State))
  | [] => pure (some (S, []))
  | s :: rest => do
    match ← checkResult fuel S s with
    | none => pure none
    | some c =>
      match ← checkResults fuel c.session rest with
      | none => pure none
      | some (S, states) => pure (some (S, c.test :: states))

/-- The body of the loop after a state is fetched: the session from there on and the
result states as they are pushed to the searcher. -/
def advance (fuel : Nat) (S : Session) (s : State) :
    Except Abort (Option (Session × List State)) :=
  if s.status ≠ .normal then throw .fetchedNotNormal
  else do
    let r ← S.ex.step ⟨s, S.pkg⟩
    let (fa, states) ← updateCoverage S.fa r.states
    let (fa, pkg, states) ← updateAllColors fa r.pkg states
    checkResults fuel { S with ex := r.ex, pkg := pkg, fa := fa } states

end Session

/-! ## The whole run -/

/-- The main loop: the session and its searcher. -/
structure MainLoop where
  session : Session
  searcher : Searcher

namespace MainLoop

/-- One iteration; `none` when the searcher is empty. -/
def next (fuel : Nat) (l : MainLoop) : Except Abort (Option MainLoop) :=
  match l.searcher.fetch with
  | none => pure none
  | some (s, searcher) => do
    match ← l.session.advance fuel s with
    | none => throw .outOfFuel
    | some (session, states) => return some ⟨session, searcher.push states⟩

end MainLoop

/-- How klc3 is called: the programs, the issue levels, the check lists, the limits
and the searcher. -/
structure Options where
  test : Program
  gold : Option Program
  issuePackage : IssuePackage
  checkLists : List (IssueType × CheckList)
  limits : Limits
  forkOnSymAddrThreshold : Int
  searcher : Searcher

namespace Options

/-- One step of the warm-up of the gold program, which ends when the program would fork
or is no longer `NORMAL`. A step that would fork leaves the state as it is. The state that
is stepped is the last of the results, and that there are no others is only asserted when
it goes on. -/
def warmUpNext (g : Gold) : Except Abort (Option Gold) :=
  if g.startup.status ≠ .normal then pure none
  else do
    match ← g.ex.stepUnlessFork ⟨g.startup, g.pkg⟩ with
    | .inl _ => pure none
    | .inr r =>
      match r.states.getLast? with
      | none => throw .nullDeref
      | some s =>
        if s.status = .normal ∧ r.states.length ≠ 1 then throw .unexpectedFork
        else return some ⟨r.ex, r.pkg, s⟩

/-- The gold program, warmed up within `fuel` steps. -/
def warmUp (solver : Solver) (o : Options) (fuel : Nat) (p : Program) :
    Except Abort (Option Gold) := do
  let ex := Executor.new solver o.forkOnSymAddrThreshold p.baseMem
  let (ex, s) ← ex.createInitState p.constraints p.initPC
  match ← Loop.run warmUpNext fuel ⟨ex, o.issuePackage, s⟩ with
  | none => pure none
  | some g =>
    if g.pkg.issues.isEmpty ∧ g.startup.status ≠ .broken then pure (some g)
    else throw .progExit

/-- The state of `main` when the exploration starts. -/
def start (solver : Solver) (o : Options) (gold : Option Gold) : Except Abort MainLoop := do
  let fa ← FlowAnalysis.new o.test.mem o.test.initPC
  let ex := Executor.new solver o.forkOnSymAddrThreshold o.test.baseMem
  let (ex, s) ← ex.createInitState o.test.constraints o.test.initPC
  let (fa, s) := fa.setupInitState s
  return {
    session := {
      ex := ex
      pkg := o.issuePackage
      fa := fa
      gold := gold
      crossChecker := ⟨solver, o.checkLists⟩
      limits := o.limits
      finalConstraintSets := []
      comparisons := [] }
    searcher := o.searcher.push [s] }

end Options

/-! ## The report -/

namespace Report

/-- `VariableInductor::induceVariables`. -/
def induceVariables (solver : Solver) (preferences : List BoolExpr) (cs : ConstraintSet) :
    Except Abort Assignment := do
  let cs ← preferences.foldlM (fun (cs : ConstraintSet) p =>
    if solver.mayBeTrue cs p then cs.addConstraint p else pure cs) cs
  match solver.computeInitialValues cs with
  | some a => pure a
  | none => throw .solverError

/-- The constraints from which the assignment of a reported state is induced: its own
for a runtime issue, the final ones for a cross-check issue. -/
def constraintsFor (finalConstraintSets : List (Nat × ConstraintSet)) (s : State)
    (type : IssueType) : Except Abort ConstraintSet :=
  if type.IsRuntime then pure s.constraints
  else match finalConstraintSets.lookup s.uid with
    | some cs => pure cs
    | none => throw .missingFinalConstraints

/-- The loop that fills `assignments`: one for each state, from the first of its
issues. `states` are the states that issues may point to. -/
def assignments (solver : Solver) (preferences : List BoolExpr)
    (finalConstraintSets : List (Nat × ConstraintSet)) (states : List State) :
    List (Issue × IssueInfo) → List (Nat × Assignment) → Except Abort (List (Nat × Assignment))
  | [], acc => pure acc
  | (issue, info) :: rest, acc =>
    match info.s with
    | none => assignments solver preferences finalConstraintSets states rest acc
    | some uid =>
      if (acc.lookup uid).isSome then
        assignments solver preferences finalConstraintSets states rest acc
      else match states.find? fun s => s.uid == uid with
        | none => throw .nullDeref
        | some s => do
          let cs ← constraintsFor finalConstraintSets s issue.type
          let a ← induceVariables solver preferences cs
          assignments solver preferences finalConstraintSets states rest (acc ++ [(uid, a)])

end Report

end Klc3
