import Klc3.Model.Expr

/-!
# The expression builder

The `ConstantFoldingExprBuilder` over the `DefaultExprBuilder` that
`tools/klc3/klc3.cpp` sets up, for the operations klc3 calls on it.
-/

namespace Klc3.ExprBuilder

open WordExpr

/-- `ConstantFoldingBuilder::Add` with a constant left operand. -/
def addConst (c : Word) : WordExpr → WordExpr
  | const c₁ => const (c + c₁)
  | add (const c₁) x => if c = 0 then add (const c₁) x else addConst (c + c₁) x
  | add x (const c₁) => if c = 0 then add x (const c₁) else addConst (c + c₁) x
  | r => if c = 0 then r else add (const c) r

/-- `ConstantFoldingBuilder::Add` for a left operand that is not a sum. -/
def addRight (l : WordExpr) : WordExpr → WordExpr
  | const c => addConst c l
  | add (const c) y => addConst c (addRight l y)
  | add y (const c) => addConst c (addRight l y)
  | r => add l r

/-- `builder->Add`. -/
def add : WordExpr → WordExpr → WordExpr
  | const c, r => addConst c r
  | l, const c => addConst c l
  | .add x y, r => add x (add y r)
  | l, r => addRight l r

/-- `builder->Mul`. -/
def mul : WordExpr → WordExpr → WordExpr
  | const c, const d => const (c * d)
  | const c, r => if c = 0 then const c else if c = 1 then r else .mul (const c) r
  | l, const d => if d = 0 then const d else if d = 1 then l else .mul (const d) l
  | l, r => .mul l r

/-- `builder->And` on words. -/
def and : WordExpr → WordExpr → WordExpr
  | const c, const d => const (c &&& d)
  | const c, r => if c = 0 then const c else if c = BitVec.allOnes 16 then r else .and (const c) r
  | l, const d => if d = 0 then const d else if d = BitVec.allOnes 16 then l else .and (const d) l
  | l, r => .and l r

/-- `builder->Not`. -/
def not : WordExpr → WordExpr
  | .not e => e
  | const c => const (~~~c)
  | e => .not e

/-- `builder->LShr`. -/
def lshr : WordExpr → WordExpr → WordExpr
  | const c, const d => const (c >>> d)
  | l, r => .lshr l r

/-- `builder->Eq` on words. -/
def eq : WordExpr → WordExpr → BoolExpr
  | const c, const d => .const (c == d)
  | l, const d => .eq (const d) l
  | l, r => .eq l r

/-- `builder->Ule`. -/
def ule : WordExpr → WordExpr → BoolExpr
  | const c, const d => .const (c.ule d)
  | l, r => .ule l r

/-- `builder->Slt`. -/
def slt : WordExpr → WordExpr → BoolExpr
  | const c, const d => .const (c.slt d)
  | l, r => .slt l r

/-- `builder->Sle`. -/
def sle : WordExpr → WordExpr → BoolExpr
  | const c, const d => .const (c.sle d)
  | l, r => .sle l r

/-- `builder->And` on Booleans. -/
def boolAnd : BoolExpr → BoolExpr → BoolExpr
  | .const b, .const c => .const (b && c)
  | .const b, r => if b then r else .const b
  | l, .const c => if c then l else .const c
  | l, r => .and l r

/-- `builder->Or` on Booleans. -/
def boolOr : BoolExpr → BoolExpr → BoolExpr
  | .const b, .const c => .const (b || c)
  | .const b, r => if b then .const b else r
  | l, .const c => if c then .const c else l
  | l, r => .or l r

end Klc3.ExprBuilder
