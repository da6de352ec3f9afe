import Klc3.Model.State

/-!
# The flow graph

`FlowGraph` over the user instructions of the loaded memory. A node is named by its
address, an edge by its index.
-/

namespace Klc3

/-- `Edge::Type`. -/
inductive EdgeType where
  | normal
  | jmp
  | jsrr
  | jsr
  | ret
  | trapVirtual
  | initPCEntry
  | subroutineVirtual
  | loopH2H
  | loopH2X
deriving DecidableEq, Repr

/-- `type() < Edge::TYPE_RUNTIME_COUNT`. -/
def EdgeType.isRuntime : EdgeType → Bool
  | .subroutineVirtual | .loopH2H | .loopH2X => false
  | _ => true

/-- `Edge`. Only the edge into the initial PC has no source, and only the edge out of
a halting `TRAP` has no destination. -/
structure Edge where
  type : EdgeType
  src : Option Word
  dst : Option Word
  covered : Bool
  isImproperRET : Bool
  associatedEdge : Option Nat
deriving DecidableEq, Repr

/-- The counters of `CoverageTracker`. -/
structure CoverageCount where
  coveredEdgeCount : Nat
  totalEdgeToCover : Nat
deriving DecidableEq, Repr

/-- `FlowGraph`, with the coverage tracker that is called back for new edges. -/
structure FlowGraph where
  nodes : List (Word × InstValue)
  edges : List Edge
  initPC : Word
  initPCEdge : Option Nat
  tracker : Option CoverageCount

namespace FlowGraph

/-- `getNodeByAddr`; the node is given by its instruction. -/
def getNodeByAddr (fg : FlowGraph) (addr : Word) : Option InstValue :=
  fg.nodes.lookup addr

/-- The node that a call is left for: `getNodeByAddr` of the next address, which is an
`int`, so that behind xFFFF the array of nodes is read past its end. -/
def getRetToNode (fg : FlowGraph) (addr : Word) : Except Abort (Option Word) :=
  if addr = 0xFFFF then throw .outOfBounds
  else if (fg.getNodeByAddr (addr + 1)).isSome then pure (some (addr + 1))
  else pure none

/-- `CoverageTracker::newEdgeCallback`. -/
def newEdgeCallback (type : EdgeType) (c : CoverageCount) : CoverageCount :=
  if type.isRuntime then { c with totalEdgeToCover := c.totalEdgeToCover + 1 } else c

/-- `newEdge`: the graph with the new edge, whose index is returned. -/
def newEdge (fg : FlowGraph) (src dst : Option Word) (type : EdgeType)
    (associatedEdge : Option Nat) : FlowGraph × Nat :=
  ({ fg with
      edges := fg.edges ++ [⟨type, src, dst, false, false, associatedEdge⟩]
      tracker := fg.tracker.map (newEdgeCallback type) },
    fg.edges.length)

/-- `newEdgeToAddrIfExists`. -/
def newEdgeToAddrIfExists (fg : FlowGraph) (src toAddr : Word) (type : EdgeType) : FlowGraph :=
  if (fg.getNodeByAddr toAddr).isSome then (fg.newEdge (some src) (some toAddr) type none).1 else fg

/-- The vectors of the traps that come back to the next instruction. -/
def returningVectors : List Word := [0x20, 0x21, 0x22, 0x23, 0x24, 0xC3]

/-- `setNodeOutEdgesWithInst`. -/
def setNodeOutEdgesWithInst (fg : FlowGraph) (inst : InstValue) : FlowGraph :=
  let pc := inst.addr + 1
  match inst.instID with
  | .BR =>
    let branchAddr := pc + inst.imm9
    if inst.cc = 7 then fg.newEdgeToAddrIfExists inst.addr branchAddr .normal
    else if inst.cc = 0 ∨ branchAddr = pc then fg.newEdgeToAddrIfExists inst.addr pc .normal
    else (fg.newEdgeToAddrIfExists inst.addr pc .normal).newEdgeToAddrIfExists
      inst.addr branchAddr .normal
  | .JSR =>
    (fg.newEdgeToAddrIfExists inst.addr (pc + inst.imm11) .jsr).newEdgeToAddrIfExists
      inst.addr pc .subroutineVirtual
  | .JMP | .JSRR => fg
  | .TRAP =>
    if inst.vec8 ∈ returningVectors then fg.newEdgeToAddrIfExists inst.addr pc .trapVirtual
    else (fg.newEdge (some inst.addr) none .trapVirtual none).1
  | _ => fg.newEdgeToAddrIfExists inst.addr pc .normal

/-- The user instructions of the loaded memory, in address order. -/
def userInsts (initMem : List (Word × MemValue)) : List (Word × InstValue) :=
  initMem.filterMap fun item =>
    match item.2 with
    | .inst i => if i.belongsToOS then none else some (item.1, i)
    | .data _ => none

/-- `constructFromInitMem` and `constructInitPCEdge`: what the constructor builds, without
the flags that `trimBREdges` sets. -/
def build (initMem : List (Word × MemValue)) (initPC : Word) : FlowGraph :=
  let nodes := userInsts initMem
  let fg : FlowGraph := nodes.foldl (fun (fg : FlowGraph) node => fg.setNodeOutEdgesWithInst node.2)
    ⟨nodes, [], initPC, none, none⟩
  if (fg.getNodeByAddr initPC).isSome then
    let (fg, e) := fg.newEdge none (some initPC) .initPCEntry none
    { fg with initPCEdge := some e }
  else fg

/-- `MAX_NODE_COUNT`. -/
def maxNodeCount : Nat := 10000

/-- The constructor. `newNode` asserts the bound for every node. -/
def new (initMem : List (Word × MemValue)) (initPC : Word) : Except Abort FlowGraph :=
  if maxNodeCount < (userInsts initMem).length then throw .tooManyNodes
  else pure (build initMem initPC)

/-- `runtimeOutEdges()` of a node: edges with their indices. -/
def runtimeOutEdges (fg : FlowGraph) (node : Word) : List (Nat × Edge) :=
  fg.edges.zipIdx.filterMap fun (e, i) =>
    if e.type.isRuntime ∧ e.src = some node then some (i, e) else none

/-- `uniqueRuntimeOutEdge()` exists. -/
def hasUniqueRuntimeOutEdge (fg : FlowGraph) (node : Word) : Bool :=
  (fg.runtimeOutEdges node).length == 1

/-- `getOnEdge`. -/
def getOnEdge (fg : FlowGraph) (s : State) : Option Nat :=
  match s.latestNonOSInst.1 with
  | none => fg.initPCEdge
  | some inst =>
    match (fg.runtimeOutEdges inst.addr).find? fun e => e.2.type = .trapVirtual with
    | some e => some e.1
    | none =>
      if (fg.getNodeByAddr s.pc).isSome then
        ((fg.runtimeOutEdges inst.addr).find? fun e => e.2.dst = some s.pc).map Prod.fst
      else none

/-- `getJustCoveredEdge`. -/
def getJustCoveredEdge (fg : FlowGraph) (s : State) : Except Abort (Option Nat) :=
  match s.status with
  | .broken => pure none
  | .halted =>
    match s.latestNonOSInst.1 with
    | none => throw .nullDeref
    | some inst =>
      pure (((fg.runtimeOutEdges inst.addr).find? fun e =>
        e.2.type = .trapVirtual ∧ e.2.dst = none).map Prod.fst)
  | .normal =>
    match s.latestNonOSInst.1 with
    | none => pure none
    | some inst =>
      if s.latestNonOSInst.1 ≠ s.latestInst.1 then pure none
      else match s.latestNonOSInst.2 with
        | none => pure fg.initPCEdge
        | some prev =>
          match (fg.runtimeOutEdges prev.addr).find? fun e => e.2.dst = some inst.addr with
          | some e => pure (some e.1)
          | none => throw .failToMatchCoveredEdge

end FlowGraph

/-! ## Coverage -/

namespace CoverageTracker

/-- `Edge::isGuidingEdge`. The source of the initial edge is null. -/
def isGuidingEdge (fg : FlowGraph) (e : Edge) : Except Abort Bool :=
  if e.type.isRuntime then
    match e.src with
    | none => throw .nullDeref
    | some node =>
      if fg.hasUniqueRuntimeOutEdge node then
        match fg.getNodeByAddr node with
        | none => pure false
        | some inst => pure (inst.instID = .JMP ∨ inst.instID = .JSRR)
      else pure true
  else pure true

/-- The constructor. -/
def new (fg : FlowGraph) : FlowGraph :=
  { fg with tracker := some ⟨0, fg.edges.countP fun e => e.type.isRuntime⟩ }

/-- An edge that is covered for the first time is counted. -/
def countCovered (e : Edge) (c : CoverageCount) : CoverageCount :=
  if e.covered then c else { c with coveredEdgeCount := c.coveredEdgeCount + 1 }

/-- `CoverageTracker::appendEdgeCoverage`. -/
def appendEdgeCoverage (fg : FlowGraph) (s : State) (edge : Nat) :
    Except Abort (FlowGraph × State) := do
  match fg.edges[edge]? with
  | none => throw .nullDeref
  | some e =>
    let s := { s with coveredNewEdge := s.coveredNewEdge || !e.covered }
    let fg := { fg with
      edges := fg.edges.set edge { e with covered := true }
      tracker := fg.tracker.map (countCovered e) }
    if s.status ≠ .normal ∨ s.statePath.isEmpty then
      return (fg, { s with statePath := s.statePath ++ [edge] })
    let guiding ← isGuidingEdge fg e
    if guiding then return (fg, { s with statePath := s.statePath ++ [edge] })
    else return (fg, s)

/-- `CoverageTracker::prepareEdgeToPCNode`. -/
def prepareEdgeToPCNode (fg : FlowGraph) (s : State) : Except Abort FlowGraph :=
  match s.latestNonOSInst.1 with
  | none => throw .nullDeref
  | some executed =>
    if (fg.getNodeByAddr s.pc).isNone then pure fg
    else if ((fg.runtimeOutEdges executed.addr).find? fun e => e.2.dst = some s.pc).isSome then
      pure fg
    else if executed.instID = .JMP then
      pure (fg.newEdge (some executed.addr) (some s.pc)
        (if executed.baseR = 7 then .ret else .jmp) none).1
    else if executed.instID = .JSRR then
      pure (fg.newEdge (some executed.addr) (some s.pc) .jsrr none).1
    else throw .noEdgeToPC

/-- The edge into an `INSTANT_HALT` instruction. -/
def edgeToInstantHalt (fg : FlowGraph) (s : State) : Option Nat :=
  match s.latestInst.1, s.latestNonOSInst with
  | some last, (some inst, some prev) =>
    if last.sourceContent = "INSTANT_HALT" then
      ((fg.runtimeOutEdges prev.addr).find? fun e => e.2.dst = some inst.addr).map Prod.fst
    else none
  | _, _ => none

/-- `CoverageTracker::updateGraphAndCoverage`. Nothing is done for a broken state. -/
def updateGraphAndCoverage (fg : FlowGraph) (s : State) : Except Abort (FlowGraph × State) := do
  if s.status = .broken then return (fg, s)
  let coveredEdge ← fg.getJustCoveredEdge s
  match coveredEdge with
  | none => return (fg, s)
  | some edge =>
    let (fg, s) ← appendEdgeCoverage fg s edge
    if s.status = .halted then
      match edgeToInstantHalt fg s with
      | none => return (fg, s)
      | some edge => appendEdgeCoverage fg s edge
    else
      let fg ← prepareEdgeToPCNode fg s
      return (fg, s)

end CoverageTracker

end Klc3
