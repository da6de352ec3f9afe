import Klc3.Model.Abort
import Klc3.Model.Expr

/-!
# Constraint sets

`klee::ExprVisitor` with its two replacing subclasses, and the
`ConstraintManager` of `lib/Expr/Constraints.cpp`, which rewrites a constraint
set whenever a constraint is added.
-/

namespace Klc3

/-- An `ExprVisitor`. Both subclasses of `Constraints.cpp` replace expressions by
constants: `visitExpr` before the operands are visited, `visitExprPost` after. -/
structure ExprVisitor where
  visitWordExpr : WordExpr → Option Word
  visitBoolExpr : BoolExpr → Option Bool
  visitWordExprPost : WordExpr → Option Word
  visitBoolExprPost : BoolExpr → Option Bool
  recursive : Bool

/-- `Expr::rebuild`, provided that some operand changed. -/
def WordExpr.rebuild (f : WordExpr → WordExpr) : WordExpr → Option WordExpr
  | .not e => if f e = e then none else some (createNot (f e))
  | .add l r => if f l = l ∧ f r = r then none else some (createAdd (f l) (f r))
  | .mul l r => if f l = l ∧ f r = r then none else some (createMul (f l) (f r))
  | .and l r => if f l = l ∧ f r = r then none else some (createAnd (f l) (f r))
  | .lshr l r => if f l = l ∧ f r = r then none else some (createLShr (f l) (f r))
  | .const _ => none
  | .read _ _ => none

/-- `Expr::rebuild` for Boolean expressions, whose operands are words or Booleans. -/
def BoolExpr.rebuild (f : WordExpr → WordExpr) (g : BoolExpr → BoolExpr) :
    BoolExpr → Option BoolExpr
  | .and l r => if g l = l ∧ g r = r then none else some (createAnd (g l) (g r))
  | .or l r => if g l = l ∧ g r = r then none else some (createOr (g l) (g r))
  | .boolEq l r => if g l = l ∧ g r = r then none else some (createBoolEq (g l) (g r))
  | .eq l r => if f l = l ∧ f r = r then none else some (createEq (f l) (f r))
  | .ule l r => if f l = l ∧ f r = r then none else some (createUle (f l) (f r))
  | .slt l r => if f l = l ∧ f r = r then none else some (createSlt (f l) (f r))
  | .sle l r => if f l = l ∧ f r = r then none else some (createSle (f l) (f r))
  | .const _ => none

namespace ExprVisitor

/-- What `visitExprPost` makes of an expression; constants are left alone. -/
def postWord (v : ExprVisitor) (e : WordExpr) : WordExpr :=
  match e with
  | .const c => .const c
  | e => (v.visitWordExprPost e).elim e .const

def postBool (v : ExprVisitor) (e : BoolExpr) : BoolExpr :=
  match e with
  | .const b => .const b
  | e => (v.visitBoolExprPost e).elim e .const

/-- `ExprVisitor::visitActual` on words. The first argument bounds the nesting of
visits; every visit is of an operand or of a smaller rebuilt expression. -/
def visitWord (v : ExprVisitor) : Nat → WordExpr → WordExpr
  | 0, e => e
  | _ + 1, .const c => .const c
  | n + 1, e =>
    match v.visitWordExpr e with
    | some c => .const c
    | none =>
      match e.rebuild (visitWord v n) with
      | none => v.postWord e
      | some e' => v.postWord (if v.recursive then visitWord v n e' else e')

/-- `ExprVisitor::visitActual` on Booleans. -/
def visitBool (v : ExprVisitor) : Nat → BoolExpr → BoolExpr
  | 0, e => e
  | _ + 1, .const b => .const b
  | n + 1, e =>
    match v.visitBoolExpr e with
    | some b => .const b
    | none =>
      match e.rebuild (v.visitWord n) (visitBool v n) with
      | none => v.postBool e
      | some e' => v.postBool (if v.recursive then visitBool v n e' else e')

/-- `ExprVisitor::visit` from outside. -/
def visit (v : ExprVisitor) (e : BoolExpr) : BoolExpr :=
  v.visitBool e.size e

/-- `ExprReplaceVisitor(src, dst)` for a source that is a word. -/
def replaceWord (src : WordExpr) (dst : Word) : ExprVisitor where
  visitWordExpr e := if e = src then some dst else none
  visitBoolExpr _ := none
  visitWordExprPost e := if e = src then some dst else none
  visitBoolExprPost _ := none
  recursive := false

/-- `ExprReplaceVisitor(src, dst)` for a source that is a Boolean. -/
def replaceBool (src : BoolExpr) (dst : Bool) : ExprVisitor where
  visitWordExpr _ := none
  visitBoolExpr e := if e = src then some dst else none
  visitWordExprPost _ := none
  visitBoolExprPost e := if e = src then some dst else none
  recursive := false

/-- `ExprReplaceVisitor2(replacements)`. -/
def replaceAll (words : List (WordExpr × Word)) (bools : List (BoolExpr × Bool)) : ExprVisitor where
  visitWordExpr _ := none
  visitBoolExpr _ := none
  visitWordExprPost e := words.lookup e
  visitBoolExprPost e := bools.lookup e
  recursive := true

end ExprVisitor

abbrev ConstraintSet := List BoolExpr

namespace ConstraintSet

/-- The equalities that `ConstraintManager::simplifyExpr` reads off a constraint
set, for words. The map keeps the first entry of a key, and so does `lookup`. -/
def wordEqualities : ConstraintSet → List (WordExpr × Word)
  | [] => []
  | .eq (.const c) r :: cs => (r, c) :: wordEqualities cs
  | _ :: cs => wordEqualities cs

/-- The same for Booleans: a constraint that is no equality with a constant is
known to be true. -/
def boolEqualities : ConstraintSet → List (BoolExpr × Bool)
  | [] => []
  | .eq (.const _) _ :: cs => boolEqualities cs
  | .boolEq (.const b) r :: cs => (r, b) :: boolEqualities cs
  | c :: cs => (c, true) :: boolEqualities cs

/-- `ConstraintManager::simplifyExpr`. -/
def simplifyExpr (cs : ConstraintSet) (e : BoolExpr) : BoolExpr :=
  match e with
  | .const b => .const b
  | e => (ExprVisitor.replaceAll cs.wordEqualities cs.boolEqualities).visit e

/-- `ConstraintManager::rewriteConstraints`, given how a constraint is added. -/
def rewriteConstraints (add : ConstraintSet → BoolExpr → Except Abort ConstraintSet)
    (v : ExprVisitor) (cs : ConstraintSet) : Except Abort ConstraintSet :=
  cs.foldlM (fun acc ce =>
    let e := v.visit ce
    if e ≠ ce then add acc e else pure (acc ++ [ce])) []

/-- `ConstraintManager::addConstraintInternal`. The first argument bounds the
nesting of rewrites. -/
def addConstraintInternal : Nat → ConstraintSet → BoolExpr → Except Abort ConstraintSet
  | 0, cs, e => pure (cs ++ [e])
  | _ + 1, cs, .const b => if b then pure cs else throw .falseConstraint
  | n + 1, cs, .and l r => do
    let cs ← addConstraintInternal n cs l
    addConstraintInternal n cs r
  | n + 1, cs, .eq (.const c) r => do
    let cs ← rewriteConstraints (addConstraintInternal n) (.replaceWord r c) cs
    return cs ++ [.eq (.const c) r]
  | n + 1, cs, .boolEq (.const b) r => do
    let cs ← rewriteConstraints (addConstraintInternal n) (.replaceBool r b) cs
    return cs ++ [.boolEq (.const b) r]
  | _ + 1, cs, e => pure (cs ++ [e])

/-- `ConstraintManager::addConstraint`. -/
def addConstraint (cs : ConstraintSet) (e : BoolExpr) : Except Abort ConstraintSet :=
  let simplified := cs.simplifyExpr e
  addConstraintInternal ((cs.map BoolExpr.size).sum + simplified.size) cs simplified

/-- The solutions of a constraint set. -/
def Sat (cs : ConstraintSet) (a : Assignment) : Prop :=
  ∀ e ∈ cs, e.eval a = true

def Satisfiable (cs : ConstraintSet) : Prop :=
  ∃ a, cs.Sat a

end ConstraintSet

end Klc3
