import Klc3.Verification.Executor.Effect
import Klc3.Verification.Expr.Semantics
import Mathlib.Tactic.Ring

/-!
# Properties that expressions keep

Two properties of expressions that no instruction loses: every multiplication has a
constant left operand, and being constant. Under the first, `ADD` can take its
operands apart.
-/

namespace Klc3

namespace WordExpr

/-- Every multiplication in the expression has a constant left operand. -/
def MulForm : WordExpr → Prop
  | .const _ => True
  | .read _ _ => True
  | .not e => e.MulForm
  | .add l r => l.MulForm ∧ r.MulForm
  | .mul l r => l.asConst.isSome ∧ r.MulForm
  | .and l r => l.MulForm ∧ r.MulForm
  | .lshr l r => l.MulForm ∧ r.MulForm

def IsConst (e : WordExpr) : Prop :=
  e.asConst.isSome

theorem isConst_iff {e : WordExpr} : e.IsConst ↔ ∃ c, e = .const c := by
  cases e <;> simp [IsConst, asConst]

end WordExpr

namespace ExprBuilder

open WordExpr (MulForm IsConst)

theorem mulForm_addConst {c : Word} {e : WordExpr} (h : e.MulForm) : (addConst c e).MulForm := by
  fun_induction addConst c e <;> grind [MulForm]

theorem mulForm_addRight {l r : WordExpr} (hl : l.MulForm) (hr : r.MulForm) :
    (addRight l r).MulForm := by
  fun_induction addRight l r <;> grind [MulForm, mulForm_addConst]

theorem mulForm_add {l r : WordExpr} (hl : l.MulForm) (hr : r.MulForm) : (add l r).MulForm := by
  fun_induction add l r <;> grind [MulForm, mulForm_addConst, mulForm_addRight]

theorem mulForm_mul_const {c : Word} {e : WordExpr} (h : e.MulForm) :
    (mul (.const c) e).MulForm := by
  cases e with
  | const d => simp [mul, MulForm]
  | _ =>
      simp only [mul]
      split
      · trivial
      · split
        · exact h
        · exact ⟨rfl, h⟩

theorem mulForm_and {l r : WordExpr} (hl : l.MulForm) (hr : r.MulForm) : (and l r).MulForm := by
  fun_cases and l r <;> simp_all [MulForm]

theorem mulForm_not {e : WordExpr} (h : e.MulForm) : (not e).MulForm := by
  fun_cases not e <;> simp_all [MulForm]

end ExprBuilder

open WordExpr (MulForm IsConst)

theorem mulForm_mulBy {c : Word} {e : WordExpr} (h : e.MulForm) : (mulBy c e).MulForm := by
  unfold mulBy
  split
  · trivial
  · exact ExprBuilder.mulForm_mul_const h

theorem asMul_eq_some {e l r : WordExpr} (h : asMul e = some (l, r)) : e = .mul l r := by
  cases e with
  | mul => simpa [asMul] using h
  | _ => simp [asMul] at h

theorem castConstant_eq_ok {e : WordExpr} {c : Word} (h : castConstant e = .ok c) :
    e = .const c := by
  cases e with
  | const d =>
      cases h
      rfl
  | _ => simp [castConstant, WordExpr.asConst] at h

@[simp] theorem eval_mulBy (c : Word) (e : WordExpr) (a : Assignment) :
    (mulBy c e).eval a = c * e.eval a := by
  unfold mulBy
  split
  · simp_all
  · simp

/-- The shapes of a sum: a multiple of an operand or of its factor, or the plain sum. -/
inductive SumShape (op1 op2 e : WordExpr) : Prop
  | double (c : Word) (he : e = mulBy c op1)
      (hsum : ∀ a, c * op1.eval a = op1.eval a + op2.eval a)
  | left (c : Word) (l r : WordExpr) (hop : op1 = .mul l r) (he : e = mulBy c r)
      (hsum : ∀ a, c * r.eval a = op1.eval a + op2.eval a)
  | right (c : Word) (l r : WordExpr) (hop : op2 = .mul l r) (he : e = mulBy c r)
      (hsum : ∀ a, c * r.eval a = op1.eval a + op2.eval a)
  | plain (he : e = ExprBuilder.add op1 op2)

theorem addResult_shape {op1 op2 e : WordExpr} (h : addResult op1 op2 = .ok e) :
    SumShape op1 op2 e := by
  obtain ⟨_, -, h⟩ := Except.bind_eq_ok_iff.1 h
  obtain ⟨_, -, h⟩ := Except.bind_eq_ok_iff.1 h
  split at h
  · rename_i heq
    split at h
    · rename_i l r hmul
      obtain ⟨c, hc, h⟩ := Except.bind_eq_ok_iff.1 h
      rw [Except.pure_eq_ok_iff] at h
      have hop := asMul_eq_some hmul
      refine .left _ l r hop h.symm fun a => ?_
      simp only [← heq, hop, castConstant_eq_ok hc, WordExpr.eval]
      ring
    · rw [Except.pure_eq_ok_iff] at h
      refine .double 2 (by rw [← h]; rfl) fun a => ?_
      rw [← heq]
      ring
  · have hplain : ∀ {e}, (pure (ExprBuilder.add op1 op2) : Except Abort WordExpr) = .ok e →
        SumShape op1 op2 e := fun h => .plain (Except.pure_eq_ok_iff.1 h).symm
    have hleft : ∀ {l r e}, asMul op1 = some (l, r) → r = op2 →
        (castConstant l >>= fun c => pure (mulBy (c + 1) r)) = .ok e → SumShape op1 op2 e := by
      intro l r e hmul hr h
      obtain ⟨c, hc, h⟩ := Except.bind_eq_ok_iff.1 h
      have hop := asMul_eq_some hmul
      refine .left _ l r hop (Except.pure_eq_ok_iff.1 h).symm fun a => ?_
      simp only [hop, ← hr, castConstant_eq_ok hc, WordExpr.eval]
      ring
    have hright : ∀ {l r e}, asMul op2 = some (l, r) → r = op1 →
        (castConstant l >>= fun c => pure (mulBy (c + 1) r)) = .ok e → SumShape op1 op2 e := by
      intro l r e hmul hr h
      obtain ⟨c, hc, h⟩ := Except.bind_eq_ok_iff.1 h
      have hop := asMul_eq_some hmul
      refine .right _ l r hop (Except.pure_eq_ok_iff.1 h).symm fun a => ?_
      simp only [hop, ← hr, castConstant_eq_ok hc, WordExpr.eval]
      ring
    split at h
    · rename_i l1 r1 l2 r2 hmul1 hmul2
      split at h
      · exact hleft hmul1 ‹_› h
      · split at h
        · exact hright hmul2 ‹_› h
        · split at h
          · rename_i heq
            obtain ⟨c1, hc1, h⟩ := Except.bind_eq_ok_iff.1 h
            obtain ⟨c2, hc2, h⟩ := Except.bind_eq_ok_iff.1 h
            have hop := asMul_eq_some hmul1
            refine .left _ l1 r1 hop (Except.pure_eq_ok_iff.1 h).symm fun a => ?_
            simp only [hop, asMul_eq_some hmul2, ← heq, castConstant_eq_ok hc1,
              castConstant_eq_ok hc2, WordExpr.eval]
            ring
          · exact hplain h
    · rename_i l1 r1 hmul1 _
      split at h
      · exact hleft hmul1 ‹_› h
      · exact hplain h
    · rename_i l2 r2 _ hmul2
      split at h
      · exact hright hmul2 ‹_› h
      · exact hplain h
    · exact hplain h

/-- The folding of `ADD` does not change the sum. -/
theorem eval_addResult {op1 op2 e : WordExpr} (h : addResult op1 op2 = .ok e) (a : Assignment) :
    e.eval a = op1.eval a + op2.eval a := by
  cases addResult_shape h with
  | double c he hsum => rw [he, eval_mulBy, hsum]
  | left c l r _ he hsum => rw [he, eval_mulBy, hsum]
  | right c l r _ he hsum => rw [he, eval_mulBy, hsum]
  | plain he => rw [he, ExprBuilder.eval_add]

theorem closed_true : Closed fun _ => True :=
  ⟨fun _ => trivial, fun _ _ _ _ _ _ => trivial, fun _ _ _ _ => trivial, fun _ _ => trivial⟩

namespace Mach

/-- The property of expressions for frame conditions that need none. -/
def Any : WordExpr → Prop := fun _ => True

theorem all_any (s : State) : s.All Any :=
  ⟨fun _ _ _ => trivial, fun _ _ _ _ _ => trivial, fun _ _ => trivial⟩

theorem closed_any : Closed Any := closed_true

end Mach

theorem closed_mulForm : Closed MulForm where
  const _ := trivial
  add op1 op2 e h1 h2 h := by
    cases addResult_shape h with
    | double c he =>
        rw [he]
        exact mulForm_mulBy h1
    | left c l r hop he =>
        rw [hop] at h1
        rw [he]
        exact mulForm_mulBy h1.2
    | right c l r hop he =>
        rw [hop] at h2
        rw [he]
        exact mulForm_mulBy h2.2
    | plain he =>
        rw [he]
        exact ExprBuilder.mulForm_add h1 h2
  and _ _ h1 h2 := ExprBuilder.mulForm_and h1 h2
  not _ h := ExprBuilder.mulForm_not h

theorem closed_isConst : Closed IsConst where
  const _ := rfl
  add op1 op2 e h1 h2 h := by
    obtain ⟨c1, rfl⟩ := WordExpr.isConst_iff.1 h1
    obtain ⟨c2, rfl⟩ := WordExpr.isConst_iff.1 h2
    cases addResult_shape h with
    | double c he =>
        rw [he]
        unfold mulBy
        split <;> rfl
    | left c l r hop => cases hop
    | right c l r hop => cases hop
    | plain he =>
        rw [he]
        rfl
  and _ _ h1 h2 := by
    obtain ⟨c1, rfl⟩ := WordExpr.isConst_iff.1 h1
    obtain ⟨c2, rfl⟩ := WordExpr.isConst_iff.1 h2
    rfl
  not _ h := by
    obtain ⟨c, rfl⟩ := WordExpr.isConst_iff.1 h
    rfl

/-- With constant factors `ADD` never fails. -/
theorem addResult_isOk {op1 op2 : WordExpr} (h1 : op1.MulForm) (h2 : op2.MulForm) :
    ∃ e, addResult op1 op2 = .ok e := by
  have hform : ∀ {e : WordExpr}, e.MulForm → assertMulForm e = .ok () := by
    intro e he
    cases e with
    | mul l r =>
        obtain ⟨c, rfl⟩ := WordExpr.isConst_iff.1 he.1
        rfl
    | _ => rfl
  have hcast : ∀ {e l r : WordExpr}, e.MulForm → asMul e = some (l, r) →
      ∃ c, castConstant l = .ok c := by
    intro e l r he hmul
    rw [asMul_eq_some hmul] at he
    obtain ⟨c, rfl⟩ := WordExpr.isConst_iff.1 he.1
    exact ⟨c, rfl⟩
  unfold addResult
  simp only [hform h1, hform h2, Except.ok_bind']
  split
  · split
    · rename_i l r hmul
      obtain ⟨c, hc⟩ := hcast h1 hmul
      simp [hc]
    · exact ⟨_, rfl⟩
  · split
    · rename_i l1 r1 l2 r2 hmul1 hmul2
      obtain ⟨c1, hc1⟩ := hcast h1 hmul1
      obtain ⟨c2, hc2⟩ := hcast h2 hmul2
      simp only [hc1, hc2, Except.ok_bind']
      split
      · exact ⟨_, rfl⟩
      · split
        · exact ⟨_, rfl⟩
        · split <;> exact ⟨_, rfl⟩
    · rename_i l1 r1 hmul1 _
      obtain ⟨c1, hc1⟩ := hcast h1 hmul1
      simp only [hc1, Except.ok_bind']
      split <;> exact ⟨_, rfl⟩
    · rename_i l2 r2 _ hmul2
      obtain ⟨c2, hc2⟩ := hcast h2 hmul2
      simp only [hc2, Except.ok_bind']
      split <;> exact ⟨_, rfl⟩
    · exact ⟨_, rfl⟩

end Klc3
