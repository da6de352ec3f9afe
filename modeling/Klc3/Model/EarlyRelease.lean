import Klc3.Model.MainLoop
import Klc3.Model.PruningSearcher

/-!
# Early release

The main loop of `tools/klc3/klc3.cpp` once more, now with the searcher that `main` chose
and with the states that the allocators keep. It is cut at every place where the user or a
time limit may interrupt it; the report is generated from what there is at that moment.
-/

namespace Klc3

/-! ## Allocators -/

/-- `StateAllocator`, whose counter is kept with the executor. A state is named by its uid,
and `released` is a history variable. -/
structure StateAllocator where
  aliveStates : List Nat
  released : List Nat

namespace StateAllocator

/-- The states that an executor allocates between two moments. -/
def allocate (a : StateAllocator) (ex ex' : Executor) : StateAllocator :=
  let count := ex'.totalAllocatedStateCount - ex.totalAllocatedStateCount
  { a with aliveStates := a.aliveStates ++ List.range' ex.totalAllocatedStateCount count }

/-- `releaseState` with its assertion. -/
def releaseState (a : StateAllocator) (s : State) : Except Abort StateAllocator :=
  if a.aliveStates.contains s.uid then
    pure ⟨a.aliveStates.filter (· ≠ s.uid), s.uid :: a.released⟩
  else throw .notAlive

end StateAllocator

/-- The loops behind `ENABLE_STATE_EARLY_RELEASE`, for the test and for the gold program.
`isDone` is the test of the status. -/
def releaseStates (isDone : Status → Bool) :
    List State → AnySearcher → StateAllocator → Except Abort (AnySearcher × StateAllocator)
  | [], searcher, allocator => pure (searcher, allocator)
  | s :: rest, searcher, allocator =>
    if isDone s.status && !s.triggerNewIssue then do
      let searcher ← searcher.eraseCompletedStates s
      let allocator ← allocator.releaseState s
      releaseStates isDone rest searcher allocator
    else releaseStates isDone rest searcher allocator

/-- What the loop of the gold program releases. -/
def isHalted : Status → Bool
  | .halted => true
  | _ => false

/-- What the loop of the test program releases. -/
def isHaltedOrBroken : Status → Bool
  | .halted | .broken => true
  | .normal => false

/-! ## Searchers -/

/-- `SearcherOption`, with the loops that `LoopAnalyzer` found and whether
`ReactivationOperation` is `Stop`. -/
inductive SearcherOption where
  | simpleFILO
  | prioritizedFILO
  | pruning (loops : List Loop) (topLevelLoops : List Nat) (stop : Bool)

namespace SearcherOption

/-- The searcher that `main` prepares. -/
def searcher : SearcherOption → AnySearcher
  | simpleFILO => .basic (.filo (.simpleFILO [] []))
  | prioritizedFILO => .basic (.filo (.prioritizedFILO [] [] []))
  | pruning loops topLevelLoops _ =>
    .pruning (.new (.filo (.prioritizedFILO [] [] [])) loops topLevelLoops)

def maxSearcherLevel : SearcherOption → Int
  | pruning _ _ false => 1
  | _ => 0

end SearcherOption

/-! ## Comparing -/

namespace Session.Checking

/-- What is left of a comparison. -/
def record (c : Checking) (gold : State) (v : CrossChecker.Verdict) : Checking where
  session := { c.session with
    pkg := v.test.pkg
    finalConstraintSets :=
      if v.types.isEmpty then c.session.finalConstraintSets
      else (c.test.uid, v.finalConstraints) :: c.session.finalConstraintSets
    comparisons := c.session.comparisons ++ [⟨gold, c.test, v⟩] }
  test := v.test.s

/-- `crossChecker->compare(gold, test, finalConstraints)` with a copy of the given
constraints; the gold state may get its flag. -/
def compareState (c : Checking) (gold : State) (constraints : ConstraintSet) :
    Except Abort (Checking × State) := do
  let v ← c.session.crossChecker.compare gold ⟨c.test, c.session.pkg⟩ constraints
  return (c.record gold v, { gold with triggerNewIssue := v.goldTriggersNewIssue })

/-- The gold states of one step, each compared with the test state if it is completed. -/
def compareResults (c : Checking) : List State → Except Abort (Checking × List State)
  | [] => pure (c, [])
  | gold :: rest =>
    match gold.status with
    | .halted => do
      let (c, gold) ← c.compareState gold gold.constraints
      let (c, states) ← compareResults c rest
      return (c, gold :: states)
    | .broken => throw .progExit
    | .normal => do
      let (c, states) ← compareResults c rest
      return (c, gold :: states)

end Session.Checking

/-! ## The main loop -/

/-- Where the main loop is: before a fetch, among the results of a step, or in the gold loop
of one of them. -/
inductive Phase where
  | fetching
  | checking (checked results : List State)
  | comparing (gold : Gold) (goldSearcher : AnySearcher) (test : State)
      (checked results : List State)

/-- The variables of `main`. During a gold loop the phase holds the gold program as it is. -/
structure Main where
  session : Session
  searcher : AnySearcher
  allocator : StateAllocator
  goldAllocator : StateAllocator
  currentSearcherLevel : Int
  maxSearcherLevel : Int
  phase : Phase

namespace Main

/-- A state is fetched and stepped, and the trackers see the results. Without a state the
level is raised, up to its maximum. -/
def fetchNext (rand : Nat) (M : Main) : Except Abort (Option Main) :=
  match M.searcher.fetch rand with
  | some (s, searcher) =>
    if s.status ≠ .normal then throw .fetchedNotNormal
    else do
      let r ← M.session.ex.step ⟨s, M.session.pkg⟩
      let (fa, states) ← Session.updateCoverage M.session.fa r.states
      let (fa, pkg, states) ← Session.updateAllColors fa r.pkg states
      return some { M with
        session := { M.session with ex := r.ex, pkg := pkg, fa := fa }
        searcher := searcher
        allocator := M.allocator.allocate M.session.ex r.ex
        phase := .checking [] states }
  | none =>
    if M.currentSearcherLevel < M.maxSearcherLevel then
      let level := M.currentSearcherLevel + 1
      pure (some { M with currentSearcherLevel := level, searcher := M.searcher.setLevel level })
    else pure none

/-- The searcher takes all results, and those that nothing needs are released. -/
def pushAndRelease (M : Main) (states : List State) : Except Abort Main := do
  let searcher ← M.searcher.push M.session.fa states
  let (searcher, allocator) ← releaseStates isHaltedOrBroken states searcher M.allocator
  return { M with searcher := searcher, allocator := allocator, phase := .fetching }

/-- A halted test state is compared with a gold program that has finished already, or a gold
state is launched for it. -/
def launchGold (M : Main) (test : State) (checked results : List State) : Except Abort Main :=
  match M.session.gold with
  | none => pure { M with phase := .checking (checked ++ [test]) results }
  | some gold =>
    if gold.startup.status = .halted then do
      let (c, startup) ←
        Session.Checking.compareState ⟨M.session, test⟩ gold.startup test.constraints
      return { M with
        session := { c.session with gold := some { gold with startup := startup } }
        phase := .checking (checked ++ [c.test]) results }
    else do
      let s ← gold.startup.fork gold.ex.totalAllocatedStateCount
      let ex := { gold.ex with totalAllocatedStateCount := gold.ex.totalAllocatedStateCount + 1 }
      let s := { s with constraints := test.constraints }
      let goldSearcher ← SearcherOption.prioritizedFILO.searcher.push M.session.fa [s]
      return { M with
        goldAllocator := M.goldAllocator.allocate gold.ex ex
        phase := .comparing { gold with ex := ex } goldSearcher test checked results }

/-- The limits, the post check and the comparison of the next result state. -/
def checkNext (M : Main) (checked : List State) : List State → Except Abort Main
  | [] => M.pushAndRelease checked
  | s :: results => do
    let m ← if s.status = .normal then M.session.limits.checkLimitOnState ⟨s, M.session.pkg⟩
      else pure ⟨s, M.session.pkg⟩
    if m.s.status = .halted then
      let m ← SubroutineTracker.postCheckState M.session.fa.fg.initPC m
      launchGold { M with session := { M.session with pkg := m.pkg } } m.s checked results
    else return { M with
      session := { M.session with pkg := m.pkg }
      phase := .checking (checked ++ [m.s]) results }

/-- One iteration of the gold loop, or what comes behind it. -/
def compareNext (M : Main) (gold : Gold) (goldSearcher : AnySearcher) (test : State)
    (checked results : List State) : Except Abort Main :=
  match goldSearcher.fetch 0 with
  | none =>
    if gold.pkg.issues.isEmpty then
      pure { M with
        session := { M.session with gold := some gold }
        phase := .checking (checked ++ [test]) results }
    else throw .progExit
  | some (s, goldSearcher) => do
    let r ← gold.ex.step ⟨s, gold.pkg⟩
    let (c, states) ← Session.Checking.compareResults ⟨M.session, test⟩ r.states
    let goldSearcher ← goldSearcher.push M.session.fa states
    let (goldSearcher, goldAllocator) ←
      releaseStates isHalted states goldSearcher (M.goldAllocator.allocate gold.ex r.ex)
    return { M with
      session := c.session
      goldAllocator := goldAllocator
      phase := .comparing ⟨r.ex, r.pkg, gold.startup⟩ goldSearcher c.test checked results }

/-- The next piece of the loop, where `rand` is what `std::rand` returns; `none` when the
searcher is empty at the last level. -/
def next (rand : Nat) (M : Main) : Except Abort (Option Main) :=
  match M.phase with
  | .fetching => M.fetchNext rand
  | .checking checked results => some <$> M.checkNext checked results
  | .comparing gold goldSearcher test checked results =>
    some <$> M.compareNext gold goldSearcher test checked results

/-- `main` up to the loop; the gold program has been warmed up. The loop edges are those of
`LoopAnalyzer`, which may have added some before it gives up and `main` falls back on
`PrioritizedFILO`. -/
def start (solver : Solver) (o : Options) (option : SearcherOption) (loopEdges : List LoopEdge)
    (gold : Option Gold) : Except Abort Main := do
  let fa ← FlowAnalysis.new o.test.mem o.test.initPC
  let fa := { fa with fg := fa.fg.addLoopEdges loopEdges }
  let ex := Executor.new solver o.forkOnSymAddrThreshold o.test.baseMem
  let (ex, s) ← ex.createInitState o.test.constraints o.test.initPC
  let (fa, s) := fa.setupInitState s
  let searcher ← option.searcher.push fa [s]
  return {
    session := {
      ex := ex
      pkg := o.issuePackage
      fa := fa
      gold := gold
      crossChecker := ⟨solver, o.checkLists⟩
      limits := o.limits
      finalConstraintSets := []
      comparisons := [] }
    searcher := searcher.setLevel 0
    allocator := ⟨List.range ex.totalAllocatedStateCount, []⟩
    goldAllocator := ⟨List.range ((gold.map fun g => g.ex.totalAllocatedStateCount).getD 0), []⟩
    currentSearcherLevel := 0
    maxSearcherLevel := option.maxSearcherLevel
    phase := .fetching }

end Main

end Klc3
