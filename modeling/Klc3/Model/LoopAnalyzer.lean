import Klc3.Model.FlowGraph

/-!
# Strongly connected components of a subgraph

`LoopAnalyzer::analysisSCC` and `tarjanDFS`. The flag `LIKELY_UNCOVERABLE` of an edge is given by
its index.
-/

namespace Klc3

namespace FlowGraph

/-- `allOutEdges()` of a node: edges with their indices. -/
def allOutEdges (fg : FlowGraph) (node : Word) : List (Nat × Edge) :=
  fg.edges.zipIdx.filterMap fun (e, i) => if e.src = some node then some (i, e) else none

end FlowGraph

/-- `SCCSubgraph::dfsInfo`. -/
structure DfsInfo where
  dfsPre : Nat
  dfsLow : Nat
  sccRoot : Option Word
deriving DecidableEq

/-- `SCCSubgraph`. The nodes are in the order in which they are iterated. -/
structure SCCSubgraph where
  nodes : List Word
  info : Word → Option DfsInfo
  loopBlockRoot : List Word

/-- The members of `LoopAnalyzer` that the analysis uses, and the subgraph. -/
structure SCCAnalysis where
  dfsClock : Nat
  tarjanStack : List Word
  ssg : SCCSubgraph

namespace SCCSubgraph

def setInfo (ssg : SCCSubgraph) (node : Word) (i : DfsInfo) : SCCSubgraph :=
  { ssg with info := fun x => if x = node then some i else ssg.info x }

/-- `vInfo.dfsLow = std::min(vInfo.dfsLow, low)`. -/
def lowerLow (ssg : SCCSubgraph) (v : Word) (low : Nat) : SCCSubgraph :=
  match ssg.info v with
  | none => ssg
  | some i => ssg.setInfo v { i with dfsLow := min i.dfsLow low }

/-- `info[w].dfsLow`. -/
def dfsLow (ssg : SCCSubgraph) (w : Word) : Nat :=
  ((ssg.info w).map DfsInfo.dfsLow).getD 0

/-- `info[w].sccRoot = v`. -/
def setRoot (ssg : SCCSubgraph) (v w : Word) : SCCSubgraph :=
  match ssg.info w with
  | none => ssg.setInfo w ⟨0, 0, some v⟩
  | some i => ssg.setInfo w { i with sccRoot := some v }

/-- `getSCCRoot`, for a node of the subgraph after the analysis. -/
def getSCCRoot (ssg : SCCSubgraph) (node : Word) : Option Word :=
  (ssg.info node).bind DfsInfo.sccRoot

end SCCSubgraph

namespace SCCAnalysis

/-- The node that the analysis goes to on an out edge: calls are left out in favour of
`SUBROUTINE_VIRTUAL_EDGE`, and so are the virtual edges of loops and likely uncoverable edges. -/
def target (uncoverable : Nat → Bool) (ssg : SCCSubgraph) (e : Nat × Edge) : Option Word :=
  if e.2.type = .jsr ∨ e.2.type = .jsrr then none
  else if e.2.type = .loopH2H ∨ e.2.type = .loopH2X then none
  else if uncoverable e.1 then none
  else match e.2.dst with
    | none => none
    | some w => if w ∈ ssg.nodes then some w else none

/-- The nodes from the stack up to `v` get `v` as their root. -/
def popSCC (v : Word) : List Word → SCCSubgraph → Nat → Except Abort (List Word × SCCSubgraph × Nat)
  | [], _, _ => throw .emptyStack
  | w :: stack, ssg, sccNodeCount =>
    let ssg := ssg.setRoot v w
    if w ≠ v then popSCC v stack ssg (sccNodeCount + 1) else pure (stack, ssg, sccNodeCount + 1)

/-- What `tarjanDFS` does for an out edge of `v`. -/
def scanEdge (uncoverable : Nat → Bool) (tarjanDFS : Word → SCCAnalysis → Except Abort SCCAnalysis)
    (v : Word) (s : SCCAnalysis) (e : Nat × Edge) : Except Abort SCCAnalysis :=
  match target uncoverable s.ssg e with
  | none => pure s
  | some w =>
    match s.ssg.info w with
    | none => do
      let s ← tarjanDFS w s
      return { s with ssg := s.ssg.lowerLow v (s.ssg.dfsLow w) }
    | some i =>
      pure (if i.sccRoot = none then { s with ssg := s.ssg.lowerLow v i.dfsPre } else s)

/-- What `tarjanDFS` does when the out edges of `v` are done. -/
def closeSCC (v : Word) (s : SCCAnalysis) : Except Abort SCCAnalysis :=
  match s.ssg.info v with
  | none => throw .nullDeref
  | some vInfo =>
    if vInfo.dfsLow = vInfo.dfsPre then do
      let (stack, ssg, sccNodeCount) ← popSCC v s.tarjanStack s.ssg 0
      return { s with
        tarjanStack := stack
        ssg := if sccNodeCount > 1 then { ssg with loopBlockRoot := v :: ssg.loopBlockRoot }
          else ssg }
    else return s

/-- The node is numbered and pushed. -/
def enterNode (v : Word) (s : SCCAnalysis) : SCCAnalysis :=
  let dfsClock := s.dfsClock + 1
  { s with
    dfsClock := dfsClock
    ssg := s.ssg.setInfo v ⟨dfsClock, dfsClock, none⟩
    tarjanStack := v :: s.tarjanStack }

/-- `tarjanDFS`. -/
def tarjanDFS (fg : FlowGraph) (uncoverable : Nat → Bool) :
    Nat → Word → SCCAnalysis → Except Abort SCCAnalysis
  | 0, _, _ => throw .outOfFuel
  | fuel + 1, v, s => do
    let s ← (fg.allOutEdges v).foldlM
      (scanEdge uncoverable (tarjanDFS fg uncoverable fuel) v) (enterNode v s)
    closeSCC v s

/-- `analysisSCC`. -/
def analysisSCC (fg : FlowGraph) (uncoverable : Nat → Bool) (s : SCCAnalysis) :
    Except Abort SCCAnalysis :=
  if s.tarjanStack ≠ [] then throw .tarjanStackNotEmpty
  else
    s.ssg.nodes.foldlM (fun s node =>
      if s.ssg.info node = none then tarjanDFS fg uncoverable s.ssg.nodes.length node s else pure s)
      { s with dfsClock := 0, ssg := ⟨s.ssg.nodes, fun _ => none, []⟩ }

end SCCAnalysis

end Klc3
