import Mathlib.Data.BitVec

/-!
# Expressions

The fragment of KLEE's expression language that klc3 builds: 16-bit words and
Booleans over reads of symbolic arrays. A symbolic array element is always read
at a constant index.
-/

namespace Klc3

abbrev Word := BitVec 16

/-- The numbers of the registers are written as literals of `Fin 8`. -/
instance (priority := 1100) neZero_eight : NeZero 8 := ⟨by decide⟩

instance (priority := 1100) lawfulBEq_word : LawfulBEq Word := inferInstance

/-- A symbolic array (`klee::Array`): one array for each symbolic variable. -/
structure SymArray where
  name : String
  size : Nat
deriving DecidableEq, Repr

/-- An assignment of the symbolic inputs (`klee::Assignment`). -/
abbrev Assignment := SymArray → Nat → Word

/-- Expressions of width `Int16`. -/
inductive WordExpr where
  | const (c : Word)
  | read (array : SymArray) (index : Nat)
  | not (e : WordExpr)
  | add (l r : WordExpr)
  | mul (l r : WordExpr)
  | and (l r : WordExpr)
  | lshr (l r : WordExpr)
deriving DecidableEq, Repr

/-- Expressions of width `Bool`. `eq` compares words, `boolEq` compares
Booleans; KLEE spells negation as `boolEq (const false) e`. -/
inductive BoolExpr where
  | const (b : Bool)
  | and (l r : BoolExpr)
  | or (l r : BoolExpr)
  | eq (l r : WordExpr)
  | boolEq (l r : BoolExpr)
  | ule (l r : WordExpr)
  | slt (l r : WordExpr)
  | sle (l r : WordExpr)
deriving DecidableEq, Repr

namespace WordExpr

@[simp] def eval (a : Assignment) : WordExpr → Word
  | const c => c
  | read array index => a array index
  | not e => ~~~(e.eval a)
  | add l r => l.eval a + r.eval a
  | mul l r => l.eval a * r.eval a
  | and l r => l.eval a &&& r.eval a
  | lshr l r => l.eval a >>> r.eval a

/-- `getKind() == Expr::Constant`, with the value. -/
def asConst : WordExpr → Option Word
  | const c => some c
  | _ => none

@[simp] theorem asConst_const (c : Word) : (const c).asConst = some c := rfl

theorem asConst_eq_some {e : WordExpr} {c : Word} (h : e.asConst = some c) : e = const c := by
  cases e <;> simp_all [asConst]

theorem eval_of_asConst {e : WordExpr} {c : Word} (h : e.asConst = some c) (a : Assignment) :
    e.eval a = c := by
  rw [asConst_eq_some h]
  rfl

@[simp] def size : WordExpr → Nat
  | const _ => 1
  | read _ _ => 1
  | not e => e.size + 1
  | add l r => l.size + r.size + 1
  | mul l r => l.size + r.size + 1
  | and l r => l.size + r.size + 1
  | lshr l r => l.size + r.size + 1

end WordExpr

namespace BoolExpr

@[simp] def eval (a : Assignment) : BoolExpr → Bool
  | const b => b
  | and l r => l.eval a && r.eval a
  | or l r => l.eval a || r.eval a
  | eq l r => l.eval a == r.eval a
  | boolEq l r => l.eval a == r.eval a
  | ule l r => (l.eval a).ule (r.eval a)
  | slt l r => (l.eval a).slt (r.eval a)
  | sle l r => (l.eval a).sle (r.eval a)

def asConst : BoolExpr → Option Bool
  | const b => some b
  | _ => none

theorem asConst_eq_some {e : BoolExpr} {b : Bool} (h : e.asConst = some b) : e = const b := by
  cases e <;> simp_all [asConst]

/-- A bound on the number of nested visits of an expression. An `or` counts
three, since negating it yields a conjunction of two negations. -/
@[simp] def size : BoolExpr → Nat
  | const _ => 1
  | and l r => l.size + r.size + 1
  | or l r => l.size + r.size + 3
  | eq l r => l.size + r.size + 1
  | boolEq l r => l.size + r.size + 1
  | ule l r => l.size + r.size + 1
  | slt l r => l.size + r.size + 1
  | sle l r => l.size + r.size + 1

end BoolExpr

/-! ## Smart constructors

`XExpr::create` of `lib/Expr/Expr.cpp`, used by `createIsZero` and whenever an
expression is rebuilt. -/

namespace WordExpr

/-- `AddExpr_createPartialR`. -/
def createAddConst (c : Word) : WordExpr → WordExpr
  | const c₁ => const (c + c₁)
  | add (const c₁) x => if c = 0 then add (const c₁) x else createAddConst (c + c₁) x
  | r => if c = 0 then r else add (const c) r

/-- `AddExpr_create` for a left operand that is not `k + a`. -/
def createAddRight (l : WordExpr) : WordExpr → WordExpr
  | const c => createAddConst c l
  | add (const k) b => createAddConst k (createAddRight l b)
  | r => add l r

/-- `AddExpr::create`. -/
def createAdd : WordExpr → WordExpr → WordExpr
  | const c, r => createAddConst c r
  | l, const c => createAddConst c l
  | add (const k) x, r => createAddConst k (createAdd x r)
  | l, r => createAddRight l r

/-- `MulExpr::create`. -/
def createMul : WordExpr → WordExpr → WordExpr
  | const c, const d => const (c * d)
  | const c, r => if c = 1 then r else if c = 0 then const c else mul (const c) r
  | l, const d => if d = 1 then l else if d = 0 then const d else mul (const d) l
  | l, r => mul l r

/-- `AndExpr::create`. The constant operand ends up on the right. -/
def createAnd : WordExpr → WordExpr → WordExpr
  | const c, const d => const (c &&& d)
  | const c, r => if c = BitVec.allOnes 16 then r else if c = 0 then const c else and r (const c)
  | l, const d => if d = BitVec.allOnes 16 then l else if d = 0 then const d else and l (const d)
  | l, r => and l r

/-- `NotExpr::create`. -/
def createNot : WordExpr → WordExpr
  | const c => const (~~~c)
  | e => not e

/-- `LShrExpr::create`. -/
def createLShr : WordExpr → WordExpr → WordExpr
  | const c, const d => const (c >>> d)
  | l, r => lshr l r

end WordExpr

namespace BoolExpr

open WordExpr (const add)

/-- `EqExpr_createPartialR` on words. -/
def createEqConst (c : Word) : WordExpr → BoolExpr
  | .add (.const c₁) b => createEqConst (c - c₁) b
  | r => if WordExpr.const c = r then const true else eq (.const c) r

/-- `EqExpr::create` on words. -/
def createEq : WordExpr → WordExpr → BoolExpr
  | .const c, .const d => const (c == d)
  | .const c, r => createEqConst c r
  | l, .const d => createEqConst d l
  | l, r => if l = r then const true else eq l r

/-- `AndExpr::create` on Booleans. -/
def createAnd : BoolExpr → BoolExpr → BoolExpr
  | const b, const c => const (b && c)
  | const b, r => if b then r else const b
  | l, const c => if c then l else const c
  | l, r => and l r

/-- `OrExpr::create`. -/
def createOr : BoolExpr → BoolExpr → BoolExpr
  | const b, const c => const (b || c)
  | const b, r => if b then const b else r
  | l, const c => if c then const c else l
  | l, r => or l r

/-- `Expr::createIsZero` on Booleans, i.e. `EqExpr_createPartialR` with the
constant `false`. -/
def createIsZero : BoolExpr → BoolExpr
  | const b => const (!b)
  | boolEq (const false) x => x
  | or l r => createAnd (createIsZero l) (createIsZero r)
  | r => boolEq (const false) r

/-- `EqExpr::create` on Booleans. -/
def createBoolEq : BoolExpr → BoolExpr → BoolExpr
  | const b, const c => const (b == c)
  | const b, r => if b then r else createIsZero r
  | l, const c => if c then l else createIsZero l
  | l, r => if l = r then const true else boolEq l r

/-- `UleExpr::create`. -/
def createUle : WordExpr → WordExpr → BoolExpr
  | .const c, .const d => const (c.ule d)
  | l, r => ule l r

/-- `SltExpr::create`. -/
def createSlt : WordExpr → WordExpr → BoolExpr
  | .const c, .const d => const (c.slt d)
  | l, r => slt l r

/-- `SleExpr::create`. -/
def createSle : WordExpr → WordExpr → BoolExpr
  | .const c, .const d => const (c.sle d)
  | l, r => sle l r

end BoolExpr

/-- `Expr::createIsZero` on words. -/
def WordExpr.createIsZero (e : WordExpr) : BoolExpr :=
  BoolExpr.createEq e (.const 0)

end Klc3
