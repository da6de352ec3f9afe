import Klc3.Model.FlowGraph

/-!
# The subroutine tracker

`SubroutineTracker`: colours of nodes, known subroutines, and the call stack that
every state carries.
-/

namespace Klc3

/-- `SubroutineTracker::SubroutineInfo`. -/
structure SubroutineInfo where
  entry : Word
  color : Word
  exits : List Word
  eePairs : List (Nat × List Nat)
deriving DecidableEq, Repr

/-- The flow graph with what `SubroutineTracker` keeps on it: the colours of every
node, the nodes flagged as subroutine entries, and the subroutines by colour. -/
structure FlowAnalysis where
  fg : FlowGraph
  colors : List (Word × Word)
  entries : List Word
  subroutines : List (Word × SubroutineInfo)

namespace FlowAnalysis

/-- `node->subroutineColors` contains `color`. -/
def hasColor (fa : FlowAnalysis) (node color : Word) : Bool :=
  fa.colors.contains (node, color)

def insertColor (fa : FlowAnalysis) (node color : Word) : FlowAnalysis :=
  if fa.hasColor node color then fa else { fa with colors := (node, color) :: fa.colors }

def setEntry (fa : FlowAnalysis) (node : Word) : FlowAnalysis :=
  if fa.entries.contains node then fa else { fa with entries := node :: fa.entries }

/-- `subroutines[color] = info`. -/
def setSubroutine (fa : FlowAnalysis) (color : Word) (info : SubroutineInfo) : FlowAnalysis :=
  { fa with subroutines := (color, info) :: fa.subroutines.filter fun p => p.1 != color }

/-- What a call in `colorPath` does with one out edge of a `JSR` or `JSRR` node before
it colours the callee. -/
def enterSubroutine (fa : FlowAnalysis) (entry : Word) : FlowAnalysis :=
  (fa.setSubroutine entry ⟨entry, entry, [], []⟩).setEntry entry

/-- The out edges of a node along which `colorPath` enters a subroutine. -/
def calleesOf (fa : FlowAnalysis) (node : Word) : List Word :=
  (fa.fg.runtimeOutEdges node).filterMap fun e =>
    if e.2.type = .jsr ∨ e.2.type = .jsrr then e.2.dst else none

/-- `SubroutineTracker::colorPath`. Every nested call colours a pair of a node and a
colour, which bounds the recursion. -/
def colorPath : Nat → FlowAnalysis → Word → Word → Except Abort FlowAnalysis
  | 0, fa, _, _ => pure fa
  | n + 1, fa, node, color =>
    if fa.hasColor node color then pure fa
    else match fa.fg.getNodeByAddr node with
      | none => throw .nullDeref
      | some inst =>
        let fa := fa.insertColor node color
        if inst.instID = .JSR ∨ inst.instID = .JSRR then do
          let fa ← (fa.calleesOf node).foldlM (fun (fa : FlowAnalysis) callee =>
            colorPath n (fa.enterSubroutine callee) callee callee) fa
          match ← fa.fg.getRetToNode node with
          | some retToNode => colorPath n fa retToNode color
          | none => pure fa
        else if inst.isRET then
          if color ≠ fa.fg.initPC then
            match fa.subroutines.lookup color with
            | none => throw .unknownSubroutine
            | some info =>
              pure (fa.setSubroutine color { info with exits := info.exits ++ [node] })
          else pure fa
        else
          (fa.fg.runtimeOutEdges node).foldlM (fun (fa : FlowAnalysis) e =>
            match e.2.dst with
            | some next => colorPath n fa next color
            | none => pure fa) fa

/-- Enough nested calls for every pair of a node and a colour. -/
def colorFuel (fa : FlowAnalysis) : Nat :=
  fa.fg.nodes.length * (fa.fg.nodes.length + 1) + 1

def color (fa : FlowAnalysis) (node color : Word) : Except Abort FlowAnalysis :=
  colorPath fa.colorFuel fa node color

/-- The exit edges that `setUpEntryExitPairs` constructs. -/
def newExitEdges (fg : FlowGraph) (entryEdge : Nat) (retToNode : Word) :
    List Word → FlowGraph × List Nat
  | [] => (fg, [])
  | exit :: exits =>
    let (fg, e) := fg.newEdge (some exit) (some retToNode) .ret (some entryEdge)
    let (fg, es) := newExitEdges fg entryEdge retToNode exits
    (fg, e :: es)

/-- `SubroutineTracker::setUpEntryExitPairs`; the edge may be null. -/
def setUpEntryExitPairs (fa : FlowAnalysis) (entryEdge : Option Nat) :
    Except Abort FlowAnalysis :=
  match entryEdge.bind fun i => fa.fg.edges[i]?.map (i, ·) with
  | some (i, ⟨_, some src, some dst, _, _, _⟩) =>
    match fa.subroutines.lookup dst with
    | none => throw .unknownSubroutine
    | some info =>
      if (info.eePairs.lookup i).isSome then throw .setUpTwice
      else do
        match ← fa.fg.getRetToNode src with
        | some retToNode =>
          let (fg, exitEdges) := newExitEdges fa.fg i retToNode info.exits
          return { fa with fg := fg }.setSubroutine dst
            { info with eePairs := info.eePairs ++ [(i, exitEdges)] }
        | none =>
          return fa.setSubroutine dst { info with eePairs := info.eePairs ++ [(i, [])] }
  | _ => throw .nullDeref

/-- `SubroutineTracker::colorFlowGraph`. -/
def colorFlowGraph (fa : FlowAnalysis) : Except Abort FlowAnalysis :=
  let initPC := fa.fg.initPC
  if (fa.fg.getNodeByAddr initPC).isNone then pure fa
  else do
    let fa ← (fa.setSubroutine initPC ⟨initPC, initPC, [], []⟩).color initPC initPC
    fa.fg.edges.zipIdx.foldlM (fun (fa : FlowAnalysis) (e, i) =>
      if e.type = .jsr ∨ e.type = .jsrr then
        match e.dst with
        | none => throw .nullDeref
        | some dst =>
          if (fa.subroutines.lookup dst).isNone then pure fa
          else fa.setUpEntryExitPairs (some i)
      else pure fa) fa

/-- The constructors of `FlowGraph`, `SubroutineTracker` and `CoverageTracker`. -/
def new (initMem : List (Word × MemValue)) (initPC : Word) : Except Abort FlowAnalysis := do
  let fg ← FlowGraph.new initMem initPC
  let fa ← colorFlowGraph ⟨fg, [], [], []⟩
  return { fa with fg := CoverageTracker.new fa.fg }

/-- `SubroutineTracker::setupInitState`. -/
def setupInitState (fa : FlowAnalysis) (s : State) : FlowAnalysis × State :=
  let initPC := fa.fg.initPC
  (if (fa.fg.getNodeByAddr initPC).isSome then fa.insertColor initPC initPC else fa,
    { s with colorStack := initPC :: s.colorStack })

/-- `SubroutineTracker::getLabelByAddr`. -/
def getLabelByAddr (fa : FlowAnalysis) (addr : Word) : Except Abort String :=
  match fa.fg.getNodeByAddr addr with
  | none => throw .nullDeref
  | some inst =>
    if inst.labels.isEmpty then
      pure (if addr = fa.fg.initPC then "(main)" else toLC3Hex inst.addr)
    else pure (String.intercalate "/" inst.labels)

end FlowAnalysis

/-! ## Updates of one state -/

namespace SubroutineTracker

/-- A `RET` that returns right behind the call on top of `jsrStack`. The comparison
is on `int`, so no call precedes address 0. -/
def returnsProperly (pc : Word) (top : InstValue) : Bool :=
  (top.addr.toNat : Int) == (pc.toNat : Int) - 1

/-- A call: the subroutine is set up when it is not known yet. -/
def updateOnCall (fa : FlowAnalysis) (s : State) (executed : InstValue) :
    Except Abort (FlowAnalysis × State) := do
  let newColor := s.pc
  let fa ← if (fa.subroutines.lookup newColor).isNone then do
      let fa ← (fa.enterSubroutine newColor).color newColor newColor
      fa.setUpEntryExitPairs (fa.fg.getOnEdge s)
    else pure fa
  return (fa, { s with
    colorStack := newColor :: s.colorStack
    jsrStack := executed :: s.jsrStack })

/-- The edge a state is on is flagged after an improper `RET`. -/
def flagImproperRET (fa : FlowAnalysis) (s : State) : FlowAnalysis :=
  match fa.fg.getOnEdge s with
  | none => fa
  | some i => { fa with fg := { fa.fg with
      edges := fa.fg.edges.modify i fun e => { e with isImproperRET := true } } }

/-- A `RET` that does not return behind its call. The source pushes the top colour
again to recover the stack, although it has not popped it. -/
def updateOnImproperRET (fa : FlowAnalysis) (m : Mach) (executed top : InstValue) :
    Except Abort (FlowAnalysis × Mach) := do
  let m ← m.newStateIssue .warnImproperRet executed
    ("expect RET to addr " ++ toLC3Hex (top.addr + 1) ++ " right after " ++
      top.formattedContext ++ ", but actually RET to addr " ++ toLC3Hex m.s.pc ++ ".\n")
  let m := { m with s := { m.s with
    colorStack := m.s.colorStack.head?.toList ++ m.s.colorStack } }
  return (flagImproperRET fa m.s, { m with s := { m.s with stackHasMessedUp := true } })

/-- A `RET` with a call to return from. -/
def updateOnReturn (fa : FlowAnalysis) (m : Mach) (executed : InstValue) :
    Except Abort (FlowAnalysis × Mach) :=
  if m.s.stackHasMessedUp then pure (fa, m)
  else match m.s.jsrStack with
    | [] => throw .emptyStack
    | top :: calls =>
      if returnsProperly m.s.pc top then
        let colorStack := m.s.colorStack.tail
        match colorStack with
        | [] => throw .emptyStack
        | color :: _ =>
          if fa.hasColor top.addr color then
            pure (fa, { m with s := { m.s with colorStack := colorStack, jsrStack := calls } })
          else throw .colorInconsistent
      else updateOnImproperRET fa m executed top

/-- A `RET` in the main code. The note is only built when the issue is accepted. -/
def updateOnReturnInMain (fa : FlowAnalysis) (m : Mach) (executed : InstValue) :
    Except Abort (FlowAnalysis × Mach) :=
  match m.s.colorStack with
  | [] => throw .emptyStack
  | color :: _ => do
    let label ← if m.accepts .errRetInMainCode (some executed) then fa.getLabelByAddr color
      else pure ""
    let m ← m.newStateIssue .errRetInMainCode executed ("main code starts at: " ++ label ++ ".\n")
    return (fa, { m with s := { m.s with stackHasMessedUp := true } })

/-- The part of `SubroutineTracker::updateColors` that depends on the executed
instruction. -/
def updateOnInst (fa : FlowAnalysis) (m : Mach) (executed : InstValue) :
    Except Abort (FlowAnalysis × Mach) :=
  if executed.instID = .JSR ∨ executed.instID = .JSRR then do
    let (fa, s) ← updateOnCall fa m.s executed
    return (fa, { m with s := s })
  else if executed.isRET then
    if m.s.colorStack.length ≥ 2 then updateOnReturn fa m executed
    else updateOnReturnInMain fa m executed
  else pure (fa, m)

/-- `SubroutineTracker::updateColors`. It looks at the last fetched user instruction
and at the PC, and not at the status. -/
def updateColors (fa : FlowAnalysis) (m : Mach) : Except Abort (FlowAnalysis × Mach) :=
  match m.s.latestNonOSInst.1 with
  | none => pure (fa, m)
  | some executed =>
    if (fa.fg.getNodeByAddr m.s.pc).isNone then pure (fa, m)
    else do
      let (fa, m) ← updateOnInst fa m executed
      if m.s.stackHasMessedUp then return (fa, m)
      match m.s.colorStack with
      | [] => throw .emptyStack
      | color :: _ =>
        let fa ← fa.color m.s.pc color
        return (fa, m)

/-- `SubroutineTracker::postCheckState`. -/
def postCheckState (initPC : Word) (m : Mach) : Except Abort Mach :=
  if m.s.stackHasMessedUp then pure m
  else match m.s.colorStack with
    | [] => throw .emptyStack
    | color :: _ =>
      if color ≠ initPC then m.newStateIssue .warnHaltInSubroutine m.s.latestNonOSInst.1 ""
      else pure m

end SubroutineTracker

end Klc3
