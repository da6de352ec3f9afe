import Klc3.Model.ExprBuilder

/-!
# Meaning of built expressions

Every smart constructor and every builder operation denotes the operator it is
named after, whatever folding and reassociation it performs.
-/

namespace Klc3

variable (a : Assignment)

private theorem allOnes_and_word (x : Word) : 65535#16 &&& x = x := by
  rw [show 65535#16 = BitVec.allOnes 16 by decide, BitVec.allOnes_and]

namespace WordExpr

@[simp] theorem eval_createAddConst (c : Word) (e : WordExpr) :
    (createAddConst c e).eval a = c + e.eval a := by
  fun_induction createAddConst c e <;> grind [eval]

@[simp] theorem eval_createAddRight (l r : WordExpr) :
    (createAddRight l r).eval a = l.eval a + r.eval a := by
  fun_induction createAddRight l r <;> grind [eval, eval_createAddConst]

@[simp] theorem eval_createAdd (l r : WordExpr) :
    (createAdd l r).eval a = l.eval a + r.eval a := by
  fun_induction createAdd l r <;> grind [eval, eval_createAddConst, eval_createAddRight]

@[simp] theorem eval_createMul (l r : WordExpr) :
    (createMul l r).eval a = l.eval a * r.eval a := by
  fun_cases createMul l r <;> simp_all [BitVec.mul_comm]

@[simp] theorem eval_createAnd (l r : WordExpr) :
    (createAnd l r).eval a = l.eval a &&& r.eval a := by
  fun_cases createAnd l r <;> simp_all [BitVec.and_comm, allOnes_and_word]

@[simp] theorem eval_createNot (e : WordExpr) : (createNot e).eval a = ~~~(e.eval a) := by
  fun_cases createNot e <;> simp

@[simp] theorem eval_createLShr (l r : WordExpr) :
    (createLShr l r).eval a = l.eval a >>> r.eval a := by
  fun_cases createLShr l r <;> simp

end WordExpr

namespace BoolExpr

@[simp] theorem eval_createEqConst (c : Word) (e : WordExpr) :
    (createEqConst c e).eval a = (c == e.eval a) := by
  fun_induction createEqConst c e with
  | case1 c c₁ b ih =>
      rw [ih, Bool.eq_iff_iff]
      simp only [beq_iff_eq, WordExpr.eval]
      grind
  | case2 => grind [eval, WordExpr.eval]
  | case3 => simp

@[simp] theorem eval_createEq (l r : WordExpr) :
    (createEq l r).eval a = (l.eval a == r.eval a) := by
  fun_cases createEq l r with
  | case3 => simp [Bool.beq_comm]
  | _ => simp_all

@[simp] theorem eval_createAnd (l r : BoolExpr) :
    (createAnd l r).eval a = (l.eval a && r.eval a) := by
  fun_cases createAnd l r <;> simp_all

@[simp] theorem eval_createOr (l r : BoolExpr) :
    (createOr l r).eval a = (l.eval a || r.eval a) := by
  fun_cases createOr l r <;> simp_all

@[simp] theorem eval_createIsZero (e : BoolExpr) : (createIsZero e).eval a = !(e.eval a) := by
  fun_induction createIsZero e <;> simp_all

@[simp] theorem eval_createBoolEq (l r : BoolExpr) :
    (createBoolEq l r).eval a = (l.eval a == r.eval a) := by
  fun_cases createBoolEq l r <;> simp_all

@[simp] theorem eval_createUle (l r : WordExpr) :
    (createUle l r).eval a = (l.eval a).ule (r.eval a) := by
  fun_cases createUle l r <;> simp

@[simp] theorem eval_createSlt (l r : WordExpr) :
    (createSlt l r).eval a = (l.eval a).slt (r.eval a) := by
  fun_cases createSlt l r <;> simp

@[simp] theorem eval_createSle (l r : WordExpr) :
    (createSle l r).eval a = (l.eval a).sle (r.eval a) := by
  fun_cases createSle l r <;> simp

end BoolExpr

@[simp] theorem WordExpr.eval_createIsZero (e : WordExpr) :
    (WordExpr.createIsZero e).eval a = (e.eval a == 0) := by
  simp [WordExpr.createIsZero]

/-! ## Builder -/

namespace ExprBuilder

@[simp] theorem eval_addConst (c : Word) (e : WordExpr) :
    (addConst c e).eval a = c + e.eval a := by
  fun_induction addConst c e <;> grind [WordExpr.eval]

@[simp] theorem eval_addRight (l r : WordExpr) :
    (addRight l r).eval a = l.eval a + r.eval a := by
  fun_induction addRight l r <;> grind [WordExpr.eval, eval_addConst]

@[simp] theorem eval_add (l r : WordExpr) : (add l r).eval a = l.eval a + r.eval a := by
  fun_induction add l r <;> grind [WordExpr.eval, eval_addConst, eval_addRight]

@[simp] theorem eval_mul (l r : WordExpr) : (mul l r).eval a = l.eval a * r.eval a := by
  fun_cases mul l r <;> simp_all [BitVec.mul_comm]

@[simp] theorem eval_and (l r : WordExpr) : (and l r).eval a = l.eval a &&& r.eval a := by
  fun_cases and l r <;> simp_all [BitVec.and_comm, allOnes_and_word]

@[simp] theorem eval_not (e : WordExpr) : (not e).eval a = ~~~(e.eval a) := by
  fun_cases not e <;> simp

@[simp] theorem eval_lshr (l r : WordExpr) : (lshr l r).eval a = l.eval a >>> r.eval a := by
  fun_cases lshr l r <;> simp

@[simp] theorem eval_eq (l r : WordExpr) : (eq l r).eval a = (l.eval a == r.eval a) := by
  fun_cases eq l r with
  | case2 => simp [Bool.beq_comm]
  | _ => simp

@[simp] theorem eval_ule (l r : WordExpr) : (ule l r).eval a = (l.eval a).ule (r.eval a) := by
  fun_cases ule l r <;> simp

@[simp] theorem eval_slt (l r : WordExpr) : (slt l r).eval a = (l.eval a).slt (r.eval a) := by
  fun_cases slt l r <;> simp

@[simp] theorem eval_sle (l r : WordExpr) : (sle l r).eval a = (l.eval a).sle (r.eval a) := by
  fun_cases sle l r <;> simp

@[simp] theorem eval_boolAnd (l r : BoolExpr) :
    (boolAnd l r).eval a = (l.eval a && r.eval a) := by
  fun_cases boolAnd l r <;> simp_all

@[simp] theorem eval_boolOr (l r : BoolExpr) :
    (boolOr l r).eval a = (l.eval a || r.eval a) := by
  fun_cases boolOr l r <;> simp_all

end ExprBuilder

end Klc3
