import Klc3.Lib.Loop
import Klc3.Model.FlowGraph

/-!
# Paths

`Path`, a list of edges that may leave out those which follow from the flow graph.
-/

namespace Klc3

namespace FlowGraph

/-- `e` is one of `allOutEdges()` of a node. -/
def isOutEdge (fg : FlowGraph) (node : Word) (e : Nat) : Bool :=
  fg.edges[e]?.any fun edge => edge.src = some node

/-- `uniqueRuntimeOutEdge()` of a node. -/
def uniqueRuntimeOutEdge (fg : FlowGraph) (node : Word) : Option Nat :=
  match fg.runtimeOutEdges node with
  | [e] => some e.1
  | _ => none

/-- `to()` of an edge. -/
def edgeTo (fg : FlowGraph) (e : Nat) : Option Word :=
  fg.edges[e]?.bind Edge.dst

end FlowGraph

namespace Path

/-- Whether `compress` keeps an edge. -/
def keeps (fg : FlowGraph) (front back e : Nat) : Except Abort Bool :=
  if e = front ∨ e = back then pure true
  else match fg.edges[e]? with
    | none => throw .nullDeref
    | some edge => CoverageTracker.isGuidingEdge fg edge

/-- The loop of `compress`. -/
def compressFrom (fg : FlowGraph) (front back : Nat) : List Nat → Except Abort (List Nat)
  | [] => pure []
  | e :: es => do
    let keep ← keeps fg front back e
    let res ← compressFrom fg front back es
    return if keep then e :: res else res

/-- `Path::compress`. -/
def compress (fg : FlowGraph) (es : List Nat) : Except Abort (List Nat) :=
  match es with
  | [] => pure []
  | front :: rest => compressFrom fg front (rest.getLastD front) (front :: rest)

/-- The variables of the loop in `reconstructedFullPath`. `it` are the edges that are still
to be met. -/
structure Reconstruction where
  res : List Nat
  curNode : Option Word
  it : List Nat

/-- The path goes on along `target`. -/
def Reconstruction.follow (fg : FlowGraph) (r : Reconstruction) (target : Nat) (it : List Nat) :
    Reconstruction :=
  ⟨r.res ++ [target], fg.edgeTo target, it⟩

/-- One iteration. The next edge is taken as soon as it leaves the current node. -/
def reconstructNext (fg : FlowGraph) (r : Reconstruction) : Except Abort (Option Reconstruction) :=
  match r.it with
  | [] => pure none
  | e :: it =>
    match r.curNode with
    | none => throw .deadEnd
    | some node =>
      if fg.isOutEdge node e then pure (some (r.follow fg e it))
      else match fg.uniqueRuntimeOutEdge node with
        | some target => pure (some (r.follow fg target (e :: it)))
        | none => throw .cannotReconstruct

/-- `Path::reconstructedFullPath`, in at most `fuel` iterations. -/
def reconstructedFullPath (fuel : Nat) (fg : FlowGraph) (es : List Nat) :
    Except Abort (Option (List Nat)) :=
  match es with
  | [] => pure (some [])
  | front :: it => do
    match ← Loop.run (reconstructNext fg) fuel ⟨[front], fg.edgeTo front, it⟩ with
    | none => pure none
    | some r => pure (some r.res)

end Path

end Klc3
