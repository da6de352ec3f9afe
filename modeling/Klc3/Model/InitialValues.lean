import Klc3.Model.ByteAssignment

/-!
# Initial values from independent factors

`IndependentSolver::computeInitialValues`: the constraints of a query are split into factors
that share no array elements, the wrapped solver is asked for each, and the bytes of its
answers are merged.
-/

namespace Klc3.Klee

variable {ω : Type} [DecidableEq ω]

/-! ## Factors -/

namespace IndependentElementSet

/-- The variables of the inner loop of `getAllIndependentConstraintsSets`. -/
structure Absorbing (ω : Type) where
  current : IndependentElementSet ω
  doneLoop : Bool
  keep : List (IndependentElementSet ω)

def Absorbing.visit (r : Absorbing ω) (compare : IndependentElementSet ω) : Absorbing ω :=
  if r.current.intersects compare then
    let (modified, current) := r.current.add compare
    { r with current := current, doneLoop := r.doneLoop && !modified }
  else { r with keep := r.keep ++ [compare] }

/-- One pass over `factors`, which leaves `done`. The first argument bounds the number of
factors. -/
def pass : Nat → Bool → List (IndependentElementSet ω) → Bool × List (IndependentElementSet ω)
  | fuel + 1, doneLoop, current :: factors =>
    let r := factors.foldl Absorbing.visit ⟨current, doneLoop, []⟩
    let (doneLoop, done) := pass fuel r.doneLoop r.keep
    (doneLoop, r.current :: done)
  | _, doneLoop, _ => (doneLoop, [])

/-- The `do` loop. Each pass but the last leaves fewer factors. -/
def factorLoop : Nat → List (IndependentElementSet ω) → List (IndependentElementSet ω)
  | 0, factors => factors
  | fuel + 1, factors =>
    let (doneLoop, done) := pass factors.length true factors
    if doneLoop then done else factorLoop fuel done

/-- `calculateArrayReferences`: the arrays in the order of their addresses. -/
def calculateArrayReferences (s : IndependentElementSet ω) : List Array :=
  (s.elements.map Prod.fst ++ s.wholeObjects).dedup.mergeSort fun x y => x.addr ≤ y.addr

/-- `elements[array]`. -/
def indexesOf (s : IndependentElementSet ω) (array : Array) : List Nat :=
  (s.elements.filter fun p => p.1 = array).map Prod.snd

end IndependentElementSet

open IndependentElementSet

/-- `getAllIndependentConstraintsSets`, given `Expr::createIsZero`. An expression that is a
constant must be false. -/
def getAllIndependentConstraintsSets (createIsZero : Expr ω → Expr ω) (query : Query ω) :
    Except Fault (List (IndependentElementSet ω)) := do
  let constraints := query.constraints.map fun c => ofExpr c.expr
  let factors ← match query.expr with
    | .const value => if value = 0 then pure constraints else throw .notFalse
    | expr => pure (ofExpr (createIsZero expr) :: constraints)
  return factorLoop (factors.length + 1) factors

/-! ## Merging -/

/-- `retMap`. The entry of an array that was assigned last comes first. -/
abbrev RetMap := List (Array × List Byte)

/-- The bytes of one element are copied. -/
def copyElement (array : Array) (temp bytes : List Byte) (index : Nat) :
    Except Fault (List Byte) :=
  (List.range array.wordSize).foldlM (fun bytes k =>
    let pos := unsigned (index * array.wordSize + k)
    match temp[pos]? with
    | none => .error .outOfBounds
    | some b => store bytes pos b) bytes

/-- The body of the loop over `tempValues`. -/
def mergeValues (factor : IndependentElementSet ω) (retMap : RetMap) (p : Array × List Byte) :
    Except Fault RetMap :=
  match retMap.lookup p.1 with
  | some bytes =>
    if bytes.length = p.2.length then do
      let bytes ← (factor.indexesOf p.1).foldlM (copyElement p.1 p.2) bytes
      return (p.1, bytes) :: retMap
    else .error .sizesDiffer
  | none => return p :: retMap

/-- The wrapped solver on a query for the values of arrays; `none` is no solution. -/
abbrev InitialValues (ω : Type) := List (Expr ω) → List Array → Option (List (List Byte))

/-- The loop over the factors. -/
def mergeFactors (solver : InitialValues ω) :
    RetMap → List (IndependentElementSet ω) → Except Fault (Option RetMap)
  | retMap, [] => .ok (some retMap)
  | retMap, factor :: factors =>
    let arraysInFactor := factor.calculateArrayReferences
    if arraysInFactor = [] then mergeFactors solver retMap factors
    else match solver factor.exprs arraysInFactor with
      | none => .ok none
      | some tempValues =>
        if tempValues.length = arraysInFactor.length then do
          let retMap ← (arraysInFactor.zip tempValues).foldlM (mergeValues factor) retMap
          mergeFactors solver retMap factors
        else .error .sizesDiffer

/-- What is pushed to `values` for a requested array. -/
def requestedValue (retMap : RetMap) (array : Array) : List Byte :=
  match retMap.lookup array with
  | some bytes => bytes
  | none => List.replicate array.byteSize 0

/-- `computeInitialValues`: `values`, with `retMap` at the end. -/
def computeInitialValues (createIsZero : Expr ω → Expr ω) (solver : InitialValues ω)
    (query : Query ω) (objects : List Array) :
    Except Fault (Option (List (List Byte) × RetMap)) := do
  let factors ← getAllIndependentConstraintsSets createIsZero query
  match ← mergeFactors solver [] factors with
  | none => return none
  | some retMap => return some (objects.map (requestedValue retMap), retMap)

end Klc3.Klee
