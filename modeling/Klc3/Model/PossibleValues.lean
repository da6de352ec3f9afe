import Klc3.Lib.Search
import Klc3.Model.ExprBuilder
import Klc3.Model.Solver

/-!
# Possible values of an expression

`Executor::evalPossibleValues`: all 16-bit values an expression takes under a set
of constraints, each with the equation that selects it.
-/

namespace Klc3.PossibleValues

/-- A value with the constraint that the expression equals it. -/
abbrev Value := Word × BoolExpr

section

variable (solver : Solver) (cs : ConstraintSet) (expr : WordExpr) (maxPossibleValueCount : Int)

/-- `buildConstant` of a bound that may not fit an `int16_t`. -/
def bound (n : Nat) : WordExpr :=
  .const (BitVec.ofNat 16 n)

/-- The queries of one range of at most four values. -/
def evalEach : List Nat → List Value → Bool × List Value
  | [], result => (true, result)
  | val :: vals, result =>
    let c := ExprBuilder.eq expr (bound val)
    let result :=
      if solver.mayBeTrue cs c then result ++ [(BitVec.ofNat 16 val, c)] else result
    if maxPossibleValueCount ≠ -1 ∧ (result.length : Int) > maxPossibleValueCount then
      (false, result)
    else evalEach vals result

/-- Whether the expression may lie in `[lo, hi]`. -/
def mayLieIn (lo hi : Nat) : Bool :=
  solver.mayBeTrue cs
    (ExprBuilder.boolAnd (ExprBuilder.ule (bound lo) expr) (ExprBuilder.ule expr (bound hi)))

/-- `Executor::evalPossibleValuesInRange`; the first argument bounds the recursion.
A half of a range of at least five values has at least two, so the branches of the
source for a half with one value are never taken. -/
def evalPossibleValuesInRange : Nat → Nat → Nat → List Value → Bool × List Value
  | 0, _, _, result => (true, result)
  | n + 1, minVal, maxVal, result =>
    if minVal > maxVal then (true, result)
    else if maxVal - minVal ≤ 3 then
      evalEach solver cs expr maxPossibleValueCount
        ((List.range (maxVal - minVal + 1)).map (minVal + ·)) result
    else
      let midVal := (minVal + maxVal) / 2
      let lower := mayLieIn solver cs expr minVal midVal
      let (continue_, result) :=
        if lower then evalPossibleValuesInRange n minVal midVal result else (true, result)
      if !continue_ then (false, result)
      -- if the lower half is not possible, then the upper half must be
      else if !lower || mayLieIn solver cs expr (midVal + 1) maxVal then
        evalPossibleValuesInRange n (midVal + 1) maxVal result
      else (true, result)

/-- The number of useful bits. -/
def usefulBits : Nat :=
  Search.lowerBound
    (fun mid => solver.mustBeTrue cs
      (ExprBuilder.eq (ExprBuilder.lshr expr (bound mid)) (.const 0))) 0 16

/-- `bits64::maxValueOfNBits`. -/
def maxValueOfNBits (n : Nat) : Nat := 2 ^ n - 1

def minValue : Nat :=
  Search.lowerBound (fun mid => solver.mayBeTrue cs (ExprBuilder.ule expr (bound mid)))
    0 (maxValueOfNBits (usefulBits solver cs expr))

def maxValue : Nat :=
  Search.lowerBound (fun mid => solver.mustBeTrue cs (ExprBuilder.ule expr (bound mid)))
    (minValue solver cs expr) (maxValueOfNBits (usefulBits solver cs expr))

/-- `Executor::evalPossibleValues`. The flag is false when there are more values
than allowed. -/
def evalPossibleValues : Bool × List Value :=
  let minVal := minValue solver cs expr
  let c := ExprBuilder.eq expr (bound minVal)
  if solver.mustBeTrue cs c then
    (decide (maxPossibleValueCount = -1 ∨ 1 ≤ maxPossibleValueCount), [(BitVec.ofNat 16 minVal, c)])
  else
    let maxVal := maxValue solver cs expr
    evalPossibleValuesInRange solver cs expr maxPossibleValueCount (maxVal - minVal + 1)
      minVal maxVal []

end

end Klc3.PossibleValues
