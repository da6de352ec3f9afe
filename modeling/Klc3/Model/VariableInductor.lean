import Klc3.Model.MainLoop

/-!
# The variable inductor

`VariableInductor`, which turns the constraints of a reported state into values of
the symbolic arrays. The bytes of an element are taken together.
-/

namespace Klc3

/-- `Assignment::bindings`: the values of the elements of each array. -/
abbrev Bindings := List (SymArray × List Word)

namespace Bindings

/-- `Assignment::evaluate` without free values: what is not bound is 0. -/
def evaluate (b : Bindings) : Assignment :=
  fun array index =>
    match b.lookup array with
    | some values => values.getD index 0
    | none => 0

/-- The values that `getInitialValues` returns for the arrays it is asked for. -/
def ofSolution (arrays : List SymArray) (a : Assignment) : Bindings :=
  arrays.map fun array => (array, (List.range array.size).map (a array))

end Bindings

/-- `VariableInductor`. -/
structure VariableInductor where
  solver : Solver
  arrays : List SymArray
  preferences : List BoolExpr

namespace VariableInductor

/-- The body of the loop over the preferences. -/
def applyPreference (solver : Solver) (cs : ConstraintSet) (it : BoolExpr) :
    Except Abort ConstraintSet :=
  if solver.mayBeTrue cs it then cs.addConstraint it else pure cs

/-- The loop over the preferences, with the values that `compatible` takes. -/
def applyPreferences (solver : Solver) :
    ConstraintSet → List BoolExpr → Except Abort (ConstraintSet × List Bool)
  | cs, [] => pure (cs, [])
  | cs, it :: preferences => do
    let next ← applyPreference solver cs it
    let (result, accepted) ← applyPreferences solver next preferences
    return (result, solver.mayBeTrue cs it :: accepted)

/-- `induceVariables`. -/
def induceVariables (v : VariableInductor) (constraints : ConstraintSet) :
    Except Abort Bindings := do
  let a ← Report.induceVariables v.solver v.preferences constraints
  return .ofSolution v.arrays a

end VariableInductor

end Klc3
