import Klc3.Model.Constraints

/-!
# The solver

`klee::Solver` over the two primitive queries of its implementation. The
implementation itself is a parameter: it calls an external SMT solver.
-/

namespace Klc3

/-- `Solver::Validity`. -/
inductive Validity where
  | valid
  | invalid
  | unknown
deriving DecidableEq, Repr

structure Solver where
  computeTruth : ConstraintSet → BoolExpr → Bool
  computeValidity : ConstraintSet → BoolExpr → Validity
  computeInitialValues : ConstraintSet → Option Assignment

namespace Solver

variable (solver : Solver)

def mustBeTrue (cs : ConstraintSet) (e : BoolExpr) : Bool :=
  solver.computeTruth cs e

/-- The query is negated by `Query::negateExpr`. -/
def mustBeFalse (cs : ConstraintSet) (e : BoolExpr) : Bool :=
  solver.mustBeTrue cs e.createIsZero

def mayBeTrue (cs : ConstraintSet) (e : BoolExpr) : Bool :=
  !solver.mustBeFalse cs e

def mayBeFalse (cs : ConstraintSet) (e : BoolExpr) : Bool :=
  !solver.mustBeTrue cs e

def evaluate (cs : ConstraintSet) (e : BoolExpr) : Validity :=
  match e with
  | .const b => if b then .valid else .invalid
  | e => solver.computeValidity cs e

/-- The solver answers every query exactly. -/
structure Exact : Prop where
  computeTruth : ∀ cs e, solver.computeTruth cs e = true ↔ ∀ a, cs.Sat a → e.eval a = true
  valid : ∀ cs e, solver.computeValidity cs e = .valid ↔ ∀ a, cs.Sat a → e.eval a = true
  invalid : ∀ cs e, cs.Satisfiable →
    (solver.computeValidity cs e = .invalid ↔ ∀ a, cs.Sat a → e.eval a = false)
  initialValues : ∀ cs a, solver.computeInitialValues cs = some a → cs.Sat a
  hasSolution : ∀ cs : ConstraintSet, cs.Satisfiable → (solver.computeInitialValues cs).isSome

end Solver

end Klc3
