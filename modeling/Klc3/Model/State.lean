import Klc3.Model.Constraints
import Klc3.Model.Memory

/-!
# States

One symbolic path of a program under execution, and the issues raised on it.
-/

namespace Klc3

/-- `State::Status`. -/
inductive Status where
  | normal
  | halted
  | broken
deriving DecidableEq, Repr

/-- `Reg`. -/
inductive Reg where
  | gpr (r : Fin 8)
  | pc
  | ir
  | psr
deriving DecidableEq, Repr

/-- `State::LoopLayer`. A loop is named by its index, and the path is one of edges. -/
structure LoopLayer where
  loop : Nat
  loopPathFromEntry : List Nat
  loopColor : Word
deriving DecidableEq, Repr

/-- `State`. Flow graph edges are named by their index, and a node is its instruction.
The stacks have their top at the head. The two logs are history variables: the
issues raised on this path, accepted or not, and the values stored to MCR. -/
structure State where
  uid : Nat
  status : Status
  constraints : ConstraintSet
  mem : MemoryManager
  lc3Out : List WordExpr
  triggerNewIssue : Bool
  latestInst : Option InstValue × Option InstValue
  latestNonOSInst : Option InstValue × Option InstValue
  stepCount : Nat
  regChangeLocation : Reg → Option InstValue
  ccChangeLocation : Option InstValue
  memStoringUninitReg : Word → Option (Fin 8 × InstValue)
  coveredNewEdge : Bool
  coveredNewSegment : Bool
  statePath : List Nat
  colorStack : List Word
  jsrStack : List InstValue
  stackHasMessedUp : Bool
  loopStack : List LoopLayer
  avoidLoopReductionPostpone : Bool
  pc : Word
  ir : WordExpr
  reg : Fin 8 → Option WordExpr
  ccRef : Option (Fin 8)
  issueLog : List Issue
  mcrLog : List WordExpr

namespace State

/-- The constructor for initial states. -/
def init (uid : Nat) (baseMem : Word → Option MemValue) (pc : Word) : State where
  uid := uid
  status := .normal
  constraints := []
  mem := ⟨baseMem, fun _ => none⟩
  lc3Out := []
  triggerNewIssue := false
  latestInst := (none, none)
  latestNonOSInst := (none, none)
  stepCount := 0
  regChangeLocation := fun _ => none
  ccChangeLocation := none
  memStoringUninitReg := fun _ => none
  coveredNewEdge := false
  coveredNewSegment := false
  statePath := []
  colorStack := []
  jsrStack := []
  stackHasMessedUp := false
  loopStack := []
  avoidLoopReductionPostpone := false
  pc := pc
  ir := .const 0
  reg := fun _ => none
  ccRef := none
  issueLog := []
  mcrLog := []

/-- `State::fork` with the uid the allocator gives to the copy. Flags that belong
to one state object are not copied. -/
def fork (s : State) (uid : Nat) : Except Abort State :=
  if s.status = .normal then
    pure { s with uid := uid, triggerNewIssue := false, coveredNewEdge := false,
                  coveredNewSegment := false, avoidLoopReductionPostpone := false }
  else throw .forkNotNormal

def addConstraint (s : State) (e : BoolExpr) : Except Abort State := do
  let constraints ← s.constraints.addConstraint e
  return { s with constraints := constraints }

def setReg (s : State) (r : Fin 8) (value : Option WordExpr) : State :=
  { s with reg := fun x => if x = r then value else s.reg x }

/-- `State::getCCExpr`. -/
def getCCExpr (s : State) : Option WordExpr :=
  s.ccRef.bind s.reg

/-- The location under which `newStateIssue` files an issue: inside OS code it is
the last user instruction. -/
def issueLocation (s : State) (location : Option InstValue) : Option InstValue :=
  if location.isSome ∧ s.latestNonOSInst.1 ≠ s.latestInst.1 then s.latestNonOSInst.1 else location

end State

/-- A state together with the issue package it points to. -/
structure Mach where
  s : State
  pkg : IssuePackage

namespace Mach

/-- `State::newStateIssue`; `note` and `arg` are what the caller fills in when the
issue is accepted. An `ERROR` breaks the state even when the issue is discarded. -/
def newStateIssueWith (m : Mach) (type : IssueType) (location : Option InstValue) (note : String)
    (arg : Option CallBackArg) : Except Abort Mach := do
  let loc := (m.s.issueLocation location).map InstValue.location
  let info : IssueInfo := ⟨some m.s.uid, m.s.stepCount, note, arg⟩
  let (pkg, accepted) ← m.pkg.raiseIssue type loc info
  let level ← pkg.getIssueLevel type
  return { s := { m.s with
              triggerNewIssue := m.s.triggerNewIssue || accepted
              status := if level = .error then .broken else m.s.status
              issueLog := m.s.issueLog ++ [⟨type, loc⟩] }
           pkg := pkg }

/-- Whether `newStateIssue` would return an `IssueInfo` to fill in. -/
def accepts (m : Mach) (type : IssueType) (location : Option InstValue) : Bool :=
  m.pkg.issueLevel type ≠ some .none ∧
    m.pkg.find ⟨type, (m.s.issueLocation location).map InstValue.location⟩ = none

/-- An issue without a description callback. -/
def newStateIssue (m : Mach) (type : IssueType) (location : Option InstValue) (note : String) :
    Except Abort Mach :=
  m.newStateIssueWith type location note none

end Mach

end Klc3
