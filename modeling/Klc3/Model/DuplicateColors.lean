import Klc3.Model.SubroutineTracker
import Mathlib.Data.List.Dedup
import Mathlib.Data.List.Sort

/-!
# Shared code

`SubroutineTracker::checkDuplicateColors`, which reports the code of several subroutines
after the run.
-/

namespace Klc3

/-- `IssuePackage::newGlobalIssue`; `note` is what the caller fills in when the issue is
accepted. -/
def IssuePackage.newGlobalIssue (pkg : IssuePackage) (type : IssueType) (location : InstValue)
    (note : String) : Except Abort IssuePackage := do
  let (pkg, _) ← pkg.raiseIssue type (some location.location) ⟨none, -1, note, none⟩
  return pkg

/-- Whether `newGlobalIssue` would return an `IssueInfo` to fill in. -/
def IssuePackage.acceptsGlobal (pkg : IssuePackage) (type : IssueType) (location : InstValue) :
    Bool :=
  pkg.issueLevel type ≠ some .none ∧ pkg.find ⟨type, some location.location⟩ = none

namespace FlowAnalysis

/-- `node->subroutineColors`, in the order of the set. -/
def subroutineColors (fa : FlowAnalysis) (node : Word) : List Word :=
  (((fa.colors.filter fun p => p.1 = node).map Prod.snd).dedup).insertionSort (· ≤ ·)

/-- The note of the issue. -/
def sharedBy (fa : FlowAnalysis) (colors : List Word) : Except Abort String := do
  let labels ← colors.mapM fa.getLabelByAddr
  return "Shared by: " ++ String.intercalate " & " labels ++ "."

/-- A node with several colours is reported, unless they are the colours of the node
before. -/
def reportDuplicate (fa : FlowAnalysis) (pkg : IssuePackage) (inst : InstValue)
    (colors lastColors : List Word) : Except Abort IssuePackage :=
  if colors ≠ lastColors ∧ colors.length > 1 then do
    let note ← if pkg.acceptsGlobal .warnReuseCodeAcrossSubroutines inst then fa.sharedBy colors
      else pure ""
    pkg.newGlobalIssue .warnReuseCodeAcrossSubroutines inst note
  else pure pkg

/-- `checkedNodes` and the issues. -/
structure DuplicateCheck where
  checkedNodes : List Word
  pkg : IssuePackage

/-- `SubroutineTracker::checkDuplicateColorsOnPath`. Every nested call checks a node, which
bounds the recursion. -/
def checkDuplicateColorsOnPath : Nat → FlowAnalysis → DuplicateCheck → Word → List Word →
    Except Abort DuplicateCheck
  | 0, _, c, _, _ => pure c
  | n + 1, fa, c, node, lastColors =>
    if c.checkedNodes.contains node then pure c
    else match fa.fg.getNodeByAddr node with
      | none => throw .nullDeref
      | some inst => do
        let colors := fa.subroutineColors node
        let pkg ← fa.reportDuplicate c.pkg inst colors lastColors
        (fa.fg.runtimeOutEdges node).foldlM (fun (c : DuplicateCheck) e =>
          match e.2.dst with
          | some next => checkDuplicateColorsOnPath n fa c next colors
          | none => pure c) ⟨node :: c.checkedNodes, pkg⟩

/-- `SubroutineTracker::checkDuplicateColors`. -/
def checkDuplicateColors (fa : FlowAnalysis) (pkg : IssuePackage) : Except Abort DuplicateCheck :=
  fa.fg.nodes.foldlM (fun (c : DuplicateCheck) node =>
    if c.checkedNodes.contains node.1 then pure c
    else checkDuplicateColorsOnPath (fa.fg.nodes.length + 1) fa c node.1 []) ⟨[], pkg⟩

end FlowAnalysis

end Klc3
