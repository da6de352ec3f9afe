import Klc3.Model.Searcher
import Klc3.Model.SubroutineTracker

/-!
# The pruning searcher

`PruningSearcher` around any other searcher: it records the path of every state through
the loops it is in, and postpones states that branch onto a segment covered before. The
loops are what `LoopAnalyzer` found. A loop is named by its index and a path is a list
of edges.
-/

namespace Klc3

/-- `Loop`. -/
structure Loop where
  entryNode : Word
  nodes : List Word
  subloops : List Nat
  h2hSegments : List (List Nat)
  h2hEdges : List Nat
  h2xSegments : List (List Nat)
  h2xEdges : List Nat
  segmentLastEdges : List Nat
deriving DecidableEq, Repr

/-- An edge that `LoopAnalyzer` adds to the graph: from the entry of a loop back to it, or
out of the loop. -/
structure LoopEdge where
  exits : Bool
  entryNode : Word
  dst : Option Word
deriving DecidableEq, Repr

def LoopEdge.type (e : LoopEdge) : EdgeType :=
  if e.exits then .loopH2X else .loopH2H

/-- The graph after the analysis. These edges are no runtime edges, so that the coverage
tracker does not count them. -/
def FlowGraph.addLoopEdges (fg : FlowGraph) (loopEdges : List LoopEdge) : FlowGraph :=
  loopEdges.foldl (fun (fg : FlowGraph) e => (fg.newEdge (some e.entryNode) e.dst e.type none).1) fg

/-- `PruningSearcher::LoopInfo`, without the set of edges that is never read. -/
structure LoopInfo where
  uncoveredH2HSegments : List (List Nat)
  uncoveredH2XSegments : List (List Nat)
deriving DecidableEq, Repr

/-- `PruningSearcher`. -/
structure PruningSearcher where
  internalSearcher : BasicSearcher
  postponedStates : List State
  fetchLevel : Int
  loops : List Loop
  topLevelLoops : List Nat
  uncoveredLoops : List (Nat × LoopInfo)

namespace PruningSearcher

/-- The constructor, with `getAllLoops()` and `getTopLevelLoops()`. -/
def new (internalSearcher : BasicSearcher) (loops : List Loop) (topLevelLoops : List Nat) :
    PruningSearcher where
  internalSearcher := internalSearcher
  postponedStates := []
  fetchLevel := 1
  loops := loops
  topLevelLoops := topLevelLoops
  uncoveredLoops := loops.zipIdx.map fun l => (l.2, ⟨l.1.h2hSegments, l.1.h2xSegments⟩)

/-- A loop that is pointed to. -/
def getLoop (ps : PruningSearcher) (loop : Nat) : Except Abort Loop :=
  match ps.loops[loop]? with
  | some l => pure l
  | none => throw .nullDeref

/-- An edge that is pointed to. -/
def getEdge (fg : FlowGraph) (edge : Nat) : Except Abort Edge :=
  match fg.edges[edge]? with
  | some e => pure e
  | none => throw .nullDeref

/-- `colorStack.top()`. -/
def topColor (s : State) : Except Abort Word :=
  match s.colorStack with
  | color :: _ => pure color
  | [] => throw .emptyStack

/-- `Path::appendCompressed`. -/
def appendCompressed (fg : FlowGraph) (path : List Nat) (edge : Nat) (isLast : Bool) :
    Except Abort (List Nat) := do
  if isLast || path.isEmpty then return path ++ [edge]
  let e ← getEdge fg edge
  let guiding ← CoverageTracker.isGuidingEdge fg e
  return if guiding then path ++ [edge] else path

/-- `loopPathFromEntry.appendCompressed(edge, isLast)` for a layer of the loop stack. -/
def extendLayer (ps : PruningSearcher) (fg : FlowGraph) (layer : LoopLayer) (edge : Nat) :
    Except Abort LoopLayer := do
  let l ← ps.getLoop layer.loop
  let path ← appendCompressed fg layer.loopPathFromEntry edge (l.segmentLastEdges.contains edge)
  return { layer with loopPathFromEntry := path }

/-- `PruningSearcher::findLoop`. -/
def findLoop (ps : PruningSearcher) (loops : List Nat) (entryNode : Option Word) : Option Nat :=
  loops.find? fun i => (ps.loops[i]?.map Loop.entryNode) = entryNode ∧ entryNode.isSome

/-- The edge that `appendLoopPath` records: behind a `RET` it is the one that stands for
the whole call. -/
def pathEdge (fg : FlowGraph) (onEdge : Nat) : Except Abort Nat := do
  let e ← getEdge fg onEdge
  if e.type = .ret then
    match fg.edges.zipIdx.find? fun i => i.1.dst = e.dst ∧ i.1.type = .subroutineVirtual with
    | some i => pure i.2
    | none => throw .noSubroutineVirtualEdge
  else pure onEdge

/-- `PruningSearcher::appendLoopPath`. -/
def appendLoopPath (ps : PruningSearcher) (fg : FlowGraph) (s : State) (onEdge : Nat) :
    Except Abort State :=
  match s.loopStack with
  | [] => pure s
  | topLoop :: outer => do
    let color ← topColor s
    if color ≠ topLoop.loopColor then return s
    let edge ← pathEdge fg onEdge
    let layer ← ps.extendLayer fg topLoop edge
    return { s with loopStack := layer :: outer }

/-- The first of `subroutineColors`, which is a sorted set. -/
def firstColor (fa : FlowAnalysis) (node : Word) : Option Nat :=
  ((fa.colors.filter fun c => c.1 = node).map fun c => c.2.toNat).min?

/-- `PruningSearcher::insideTopLoop`. -/
def insideTopLoop (ps : PruningSearcher) (fa : FlowAnalysis) (s : State) (topLoop : LoopLayer)
    (onEdge : Nat) : Except Abort Bool := do
  let e ← getEdge fa.fg onEdge
  let color ← topColor s
  if color ≠ topLoop.loopColor then
    return !(e.type = .ret ∧ e.src.bind (firstColor fa) = some topLoop.loopColor.toNat)
  let l ← ps.getLoop topLoop.loop
  return match e.dst with
    | some node => l.nodes.contains node
    | none => false

/-- The update of `uncoveredLoops` after a segment: it is taken out of one of the two sets
of its loop, and the loop is dropped when both are empty. -/
def coverSegment (ps : PruningSearcher) (s : State) (loop : Nat)
    (cover : LoopInfo → LoopInfo × Bool) : PruningSearcher × State :=
  match ps.uncoveredLoops.lookup loop with
  | none => (ps, s)
  | some info =>
    let (info, isNew) := cover info
    let others := ps.uncoveredLoops.filter fun l => l.1 != loop
    let uncovered :=
      if info.uncoveredH2HSegments.isEmpty ∧ info.uncoveredH2XSegments.isEmpty then others
      else (loop, info) :: others
    ({ ps with uncoveredLoops := uncovered },
      { s with coveredNewSegment := s.coveredNewSegment || isNew })

def coverH2X (path : List Nat) (info : LoopInfo) : LoopInfo × Bool :=
  ({ info with uncoveredH2XSegments := info.uncoveredH2XSegments.erase path },
    info.uncoveredH2XSegments.contains path)

def coverH2H (path : List Nat) (info : LoopInfo) : LoopInfo × Bool :=
  ({ info with uncoveredH2HSegments := info.uncoveredH2HSegments.erase path },
    info.uncoveredH2HSegments.contains path)

/-- The path of the loop around an exited one, when the state is in its subroutine. -/
def extendUpper (ps : PruningSearcher) (fa : FlowAnalysis) (s : State) (exitLoop : Loop)
    (lastNode : Option Word) : Except Abort State :=
  match s.loopStack with
  | [] => pure s
  | upper :: outer => do
    let color ← topColor s
    if color ≠ upper.loopColor then return s
    if upper.loopPathFromEntry.isEmpty then throw .emptyUpperPath
    match exitLoop.h2xEdges.find? fun i => (fa.fg.edges[i]?.map Edge.dst) = some lastNode with
    | none => throw .noH2XEdge
    | some edge => do
      let layer ← ps.extendLayer fa.fg upper edge
      return { s with loopStack := layer :: outer }

/-- `PruningSearcher::testLoopExitAndUpdateH2XCoverage`. Every iteration leaves a loop, so
that as many as there are on the stack suffice. -/
def testLoopExitAndUpdateH2XCoverage : Nat → PruningSearcher → FlowAnalysis → State → Nat →
    Except Abort (PruningSearcher × State)
  | 0, ps, _, s, _ => pure (ps, s)
  | n + 1, ps, fa, s, onEdge =>
    match s.loopStack with
    | [] => pure (ps, s)
    | top :: outer => do
      let inside ← ps.insideTopLoop fa s top onEdge
      if inside then return (ps, s)
      let exitLoop ← ps.getLoop top.loop
      if !exitLoop.h2xSegments.contains top.loopPathFromEntry then throw .unmatchedH2XSegment
      let (ps, s) := ps.coverSegment s top.loop (coverH2X top.loopPathFromEntry)
      let e ← getEdge fa.fg onEdge
      let s ← ps.extendUpper fa { s with loopStack := outer } exitLoop e.dst
      testLoopExitAndUpdateH2XCoverage n ps fa s onEdge

/-- The loops that a state may enter: in a subroutine that the loop on top calls, they are
the outermost ones again. -/
def candidateLoops (ps : PruningSearcher) (s : State) (color : Word) : Except Abort (List Nat) :=
  match s.loopStack with
  | [] => pure ps.topLevelLoops
  | top :: _ =>
    if color ≠ top.loopColor then pure ps.topLevelLoops
    else do
      let l ← ps.getLoop top.loop
      return l.subloops

/-- `PruningSearcher::enterNewLoopIfAny`. -/
def enterNewLoopIfAny (ps : PruningSearcher) (fg : FlowGraph) (s : State) (onEdge : Nat) :
    Except Abort State := do
  let e ← getEdge fg onEdge
  let color ← topColor s
  let candidates ← ps.candidateLoops s color
  match ps.findLoop candidates e.dst with
  | none => return s
  | some loop => do
    let l ← ps.getLoop loop
    if (ps.findLoop l.subloops e.dst).isSome then throw .entersTwoLoops
    return { s with loopStack := ⟨loop, [], color⟩ :: s.loopStack }

/-- `PruningSearcher::testH2HAndUpdate`. -/
def testH2HAndUpdate (ps : PruningSearcher) (fg : FlowGraph) (s : State) (onEdge : Nat) :
    Except Abort (PruningSearcher × State) :=
  match s.loopStack with
  | [] => pure (ps, s)
  | top :: outer => do
    let e ← getEdge fg onEdge
    let l ← ps.getLoop top.loop
    if e.dst ≠ some l.entryNode ∨ top.loopPathFromEntry.isEmpty then return (ps, s)
    if !l.h2hSegments.contains top.loopPathFromEntry then throw .unmatchedH2HSegment
    let (ps, s) := ps.coverSegment s top.loop (coverH2H top.loopPathFromEntry)
    return (ps, { s with loopStack := { top with loopPathFromEntry := [] } :: outer })

/-- `PruningSearcher::onPrefixOfUncoveredSegment`. -/
def onPrefixOfUncoveredSegment (ps : PruningSearcher) (s : State) : Bool :=
  s.loopStack.any fun layer =>
    match ps.uncoveredLoops.lookup layer.loop with
    | none => false
    | some info =>
      (info.uncoveredH2HSegments ++ info.uncoveredH2XSegments).any fun target =>
        layer.loopPathFromEntry.isPrefixOf target

/-- The loop bookkeeping of `push` for one state. -/
def updateLoops (ps : PruningSearcher) (fa : FlowAnalysis) (s : State) (onEdge : Nat) :
    Except Abort (PruningSearcher × State) := do
  let s ← ps.appendLoopPath fa.fg s onEdge
  let (ps, s) ← testLoopExitAndUpdateH2XCoverage s.loopStack.length ps fa s onEdge
  let s ← ps.enterNewLoopIfAny fa.fg s onEdge
  ps.testH2HAndUpdate fa.fg s onEdge

/-- The body of the loop in `push`: the state as it is passed on or postponed. -/
def classify (ps : PruningSearcher) (fa : FlowAnalysis) (s : State) :
    Except Abort (PruningSearcher × State × Bool) := do
  if s.status = .broken ∨ s.stackHasMessedUp then return (ps, s, true)
  match ← fa.fg.getJustCoveredEdge s with
  | none => return (ps, s, true)
  | some _ =>
    match fa.fg.getOnEdge s with
    | none => return (ps, s, true)
    | some onEdge =>
      let (ps, s) ← ps.updateLoops fa s onEdge
      if s.coveredNewEdge || s.coveredNewSegment || s.avoidLoopReductionPostpone then
        return (ps, s, true)
      if s.latestNonOSInst.1.map InstValue.instID = some .BR then
        if s.loopStack.isEmpty || ps.onPrefixOfUncoveredSegment s then
          return (ps, { s with avoidLoopReductionPostpone := true }, true)
        else return ({ ps with postponedStates := ps.postponedStates ++ [s] }, s, false)
      else return (ps, { s with avoidLoopReductionPostpone := true }, true)

/-- The loop in `push`, which returns `statesToGoThrough`. -/
def classifyAll (ps : PruningSearcher) (fa : FlowAnalysis) :
    List State → Except Abort (PruningSearcher × List State)
  | [] => pure (ps, [])
  | s :: rest => do
    let (ps, s, through) ← ps.classify fa s
    let (ps, states) ← classifyAll ps fa rest
    return (ps, if through then s :: states else states)

/-- `PruningSearcher::push`. -/
def push (ps : PruningSearcher) (fa : FlowAnalysis) (states : List State) :
    Except Abort PruningSearcher := do
  let (ps, statesToGoThrough) ← ps.classifyAll fa states
  if statesToGoThrough.isEmpty then return ps
  return { ps with internalSearcher := ps.internalSearcher.push statesToGoThrough }

/-- `PruningSearcher::fetch`, where `rand` is what `std::rand` returns. -/
def fetch (ps : PruningSearcher) (rand : Nat) : Option (State × PruningSearcher) :=
  match ps.internalSearcher.fetch rand with
  | some (s, searcher) => some (s, { ps with internalSearcher := searcher })
  | none =>
    if ps.postponedStates.isEmpty ∨ ps.uncoveredLoops.isEmpty ∨ ps.fetchLevel < 1 then none
    else (BasicSearcher.swapPop ps.postponedStates (rand % ps.postponedStates.length)).map fun r =>
      ({ r.1 with avoidLoopReductionPostpone := true }, { ps with postponedStates := r.2 })

end PruningSearcher

/-- A `Searcher *`: a searcher alone or with a `PruningSearcher` around it. -/
inductive AnySearcher where
  | basic (searcher : BasicSearcher)
  | pruning (searcher : PruningSearcher)

namespace AnySearcher

/-- The searcher itself, or the internal one. -/
def internal : AnySearcher → BasicSearcher
  | basic searcher => searcher
  | pruning ps => ps.internalSearcher

def postponedStates : AnySearcher → List State
  | basic _ => []
  | pruning ps => ps.postponedStates

def fetch (rand : Nat) : AnySearcher → Option (State × AnySearcher)
  | basic searcher => (searcher.fetch rand).map fun r => (r.1, basic r.2)
  | pruning ps => (ps.fetch rand).map fun r => (r.1, pruning r.2)

def push (fa : FlowAnalysis) (states : List State) : AnySearcher → Except Abort AnySearcher
  | basic searcher => pure (basic (searcher.push states))
  | pruning ps => do
    let ps ← ps.push fa states
    return pruning ps

/-- `setLevel`, which only `PruningSearcher` overrides. -/
def setLevel (level : Int) : AnySearcher → AnySearcher
  | basic searcher => basic searcher
  | pruning ps => pruning { ps with fetchLevel := level }

def getCompletedStates (searcher : AnySearcher) : List State :=
  searcher.internal.completedStates

/-- `eraseCompletedStates` with its assertion. -/
def eraseCompletedStates (s : State) (searcher : AnySearcher) : Except Abort AnySearcher :=
  if s.status = .normal then throw .eraseNormal
  else match searcher with
    | basic searcher => pure (basic (searcher.eraseCompleted s))
    | pruning ps =>
      pure (pruning { ps with internalSearcher := ps.internalSearcher.eraseCompleted s })

end AnySearcher

end Klc3
