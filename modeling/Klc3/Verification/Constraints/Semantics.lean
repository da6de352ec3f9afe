import Klc3.Lib.Except
import Klc3.Model.Constraints
import Klc3.Verification.Expr.Semantics

/-!
# Constraint sets keep their solutions

Adding a constraint conjoins it: the rewriting that `ConstraintManager` performs
on the new constraint and on the old ones neither loses nor invents a solution.
-/

namespace Klc3

/-! ## Visitors -/

namespace ExprVisitor

/-- A visitor whose replacements are right under the assignment `a`. -/
structure SoundAt (v : ExprVisitor) (a : Assignment) : Prop where
  visitWordExpr : ∀ e c, v.visitWordExpr e = some c → e.eval a = c
  visitBoolExpr : ∀ e b, v.visitBoolExpr e = some b → e.eval a = b
  visitWordExprPost : ∀ e c, v.visitWordExprPost e = some c → e.eval a = c
  visitBoolExprPost : ∀ e b, v.visitBoolExprPost e = some b → e.eval a = b

variable {v : ExprVisitor} {a : Assignment}

private theorem eval_wordRebuild {f : WordExpr → WordExpr} (hf : ∀ e, (f e).eval a = e.eval a)
    {e e' : WordExpr} (h : e.rebuild f = some e') : e'.eval a = e.eval a := by
  cases e <;> simp only [WordExpr.rebuild, reduceCtorEq] at h <;> split at h <;>
    simp only [reduceCtorEq, Option.some.injEq] at h <;> subst h <;> simp [hf]

private theorem eval_boolRebuild {f : WordExpr → WordExpr} {g : BoolExpr → BoolExpr}
    (hf : ∀ e, (f e).eval a = e.eval a) (hg : ∀ e, (g e).eval a = e.eval a)
    {e e' : BoolExpr} (h : e.rebuild f g = some e') : e'.eval a = e.eval a := by
  cases e <;> simp only [BoolExpr.rebuild, reduceCtorEq] at h <;> split at h <;>
    simp only [reduceCtorEq, Option.some.injEq] at h <;> subst h <;> simp [hf, hg]

theorem SoundAt.eval_postWord (hv : v.SoundAt a) (e : WordExpr) :
    (v.postWord e).eval a = e.eval a := by
  unfold postWord
  split
  · rfl
  · cases hpost : v.visitWordExprPost e with
    | none => rfl
    | some c => simp [hv.visitWordExprPost e c hpost]

theorem SoundAt.eval_postBool (hv : v.SoundAt a) (e : BoolExpr) :
    (v.postBool e).eval a = e.eval a := by
  unfold postBool
  split
  · rfl
  · cases hpost : v.visitBoolExprPost e with
    | none => rfl
    | some b => simp [hv.visitBoolExprPost e b hpost]

theorem SoundAt.eval_visitWord (hv : v.SoundAt a) (n : Nat) (e : WordExpr) :
    (v.visitWord n e).eval a = e.eval a := by
  induction n generalizing e with
  | zero => simp [visitWord]
  | succ n ih =>
      unfold visitWord
      split
      · rfl
      · rfl
      · rename_i e _ _ m hm _
        cases hm
        split
        · rename_i c hpre
          exact (hv.visitWordExpr e c hpre).symm
        · split
          · exact hv.eval_postWord e
          · rename_i e' hrebuild
            have he' := eval_wordRebuild ih hrebuild
            rw [hv.eval_postWord]
            split
            · rw [ih, he']
            · exact he'

theorem SoundAt.eval_visitBool (hv : v.SoundAt a) (n : Nat) (e : BoolExpr) :
    (v.visitBool n e).eval a = e.eval a := by
  induction n generalizing e with
  | zero => simp [visitBool]
  | succ n ih =>
      unfold visitBool
      split
      · rfl
      · rfl
      · rename_i e _ _ m hm _
        cases hm
        split
        · rename_i b hpre
          exact (hv.visitBoolExpr e b hpre).symm
        · split
          · exact hv.eval_postBool e
          · rename_i e' hrebuild
            have he' := eval_boolRebuild (hv.eval_visitWord n) ih hrebuild
            rw [hv.eval_postBool]
            split
            · rw [ih, he']
            · exact he'

theorem SoundAt.eval_visit (hv : v.SoundAt a) (e : BoolExpr) : (v.visit e).eval a = e.eval a :=
  hv.eval_visitBool e.size e

theorem replaceWord_soundAt {src : WordExpr} {dst : Word} (h : src.eval a = dst) :
    (replaceWord src dst).SoundAt a := by
  constructor <;> intro e c he <;> simp only [replaceWord, reduceCtorEq] at he <;>
    split at he <;> simp_all

theorem replaceBool_soundAt {src : BoolExpr} {dst : Bool} (h : src.eval a = dst) :
    (replaceBool src dst).SoundAt a := by
  constructor <;> intro e c he <;> simp only [replaceBool, reduceCtorEq] at he <;>
    split at he <;> simp_all

end ExprVisitor

/-! ## Adding a constraint -/

namespace ConstraintSet

variable {a : Assignment} {cs cs' : ConstraintSet} {e : BoolExpr}

@[simp] theorem sat_nil : Sat [] a := by
  simp [Sat]

@[simp] theorem sat_cons : Sat (e :: cs) a ↔ e.eval a = true ∧ cs.Sat a := by
  simp [Sat]

@[simp] theorem sat_append : Sat (cs ++ cs') a ↔ cs.Sat a ∧ cs'.Sat a := by
  simp [Sat, or_imp, forall_and]

theorem eval_of_mem_wordEqualities (h : cs.Sat a) {x : WordExpr} {c : Word}
    (hx : (x, c) ∈ wordEqualities cs) : x.eval a = c := by
  fun_induction wordEqualities cs with
  | case1 => simp at hx
  | case2 c r cs ih =>
      simp only [sat_cons, BoolExpr.eval, WordExpr.eval, beq_iff_eq] at h
      rcases List.mem_cons.1 hx with heq | hmem
      · cases heq
        exact h.1.symm
      · exact ih h.2 hmem
  | case3 _ cs _ ih => exact ih (sat_cons.1 h).2 hx

theorem eval_of_mem_boolEqualities (h : cs.Sat a) {x : BoolExpr} {b : Bool}
    (hx : (x, b) ∈ boolEqualities cs) : x.eval a = b := by
  fun_induction boolEqualities cs with
  | case1 => simp at hx
  | case2 _ _ cs ih => exact ih (sat_cons.1 h).2 hx
  | case3 b r cs ih =>
      simp only [sat_cons, BoolExpr.eval, beq_iff_eq] at h
      rcases List.mem_cons.1 hx with heq | hmem
      · cases heq
        exact h.1.symm
      · exact ih h.2 hmem
  | case4 c cs _ _ ih =>
      rcases List.mem_cons.1 hx with heq | hmem
      · cases heq
        exact (sat_cons.1 h).1
      · exact ih (sat_cons.1 h).2 hmem

theorem mem_of_lookup_eq_some {α β : Type*} [BEq α] [LawfulBEq α] {l : List (α × β)} {k : α} {v : β}
    (h : l.lookup k = some v) : (k, v) ∈ l := by
  induction l with
  | nil => simp at h
  | cons p l ih =>
      obtain ⟨k', v'⟩ := p
      rw [List.lookup_cons] at h
      by_cases hk : (k == k') = true
      · simp only [hk, Option.some.injEq] at h
        rw [← beq_iff_eq.1 hk, h]
        exact List.mem_cons_self
      · simp only [Bool.not_eq_true] at hk
        simp only [hk] at h
        exact List.mem_cons_of_mem _ (ih h)

theorem replaceAll_soundAt (h : cs.Sat a) :
    (ExprVisitor.replaceAll cs.wordEqualities cs.boolEqualities).SoundAt a where
  visitWordExpr _ _ he := by simp [ExprVisitor.replaceAll] at he
  visitBoolExpr _ _ he := by simp [ExprVisitor.replaceAll] at he
  visitWordExprPost _ _ he := eval_of_mem_wordEqualities h (mem_of_lookup_eq_some he)
  visitBoolExprPost _ _ he := eval_of_mem_boolEqualities h (mem_of_lookup_eq_some he)

/-- Under the constraints, simplifying an expression does not change its value. -/
theorem eval_simplifyExpr (h : cs.Sat a) (e : BoolExpr) :
    (cs.simplifyExpr e).eval a = e.eval a := by
  unfold simplifyExpr
  split
  · rfl
  · exact (replaceAll_soundAt h).eval_visit e

/-- `add` conjoins a constraint, as far as solution `a` is concerned, and only
fails when `a` is not a solution of the result. -/
structure ConjoinsAt (a : Assignment)
    (add : ConstraintSet → BoolExpr → Except Abort ConstraintSet) : Prop where
  sat_iff : ∀ cs e cs', add cs e = .ok cs' → (cs'.Sat a ↔ cs.Sat a ∧ e.eval a = true)
  isOk : ∀ cs e, cs.Sat a → e.eval a = true → ∃ cs', add cs e = .ok cs'

theorem rewriteConstraints_sat_iff {add} (hadd : ConjoinsAt a add) {v : ExprVisitor}
    (hv : v.SoundAt a) (h : rewriteConstraints add v cs = .ok cs') : cs'.Sat a ↔ cs.Sat a := by
  -- the accumulator always has the solutions of the constraints already visited
  refine Except.foldlM_ok_induction (motive := fun done acc => Sat acc a ↔ Sat done a)
    Iff.rfl ?_ h
  intro done ce acc acc' hacc hstep
  simp only at hstep
  split at hstep
  · rw [hadd.sat_iff _ _ _ hstep, hacc, hv.eval_visit, sat_append]
    simp
  · cases hstep
    rw [sat_append, sat_append, hacc]

theorem rewriteConstraints_isOk {add} (hadd : ConjoinsAt a add) {v : ExprVisitor}
    (hv : v.SoundAt a) (h : cs.Sat a) : ∃ cs', rewriteConstraints add v cs = .ok cs' := by
  obtain ⟨cs', hok, -⟩ := Except.foldlM_isOk (P := fun acc => Sat acc a)
    (f := fun acc ce =>
      let e := v.visit ce
      if e ≠ ce then add acc e else pure (acc ++ [ce])) sat_nil (by
    intro ce hce acc hacc
    have hval : (v.visit ce).eval a = true := by
      rw [hv.eval_visit]
      exact h ce hce
    simp only
    split
    · obtain ⟨acc', hok⟩ := hadd.isOk acc _ hacc hval
      exact ⟨acc', hok, (hadd.sat_iff _ _ _ hok).2 ⟨hacc, hval⟩⟩
    · exact ⟨acc ++ [ce], rfl, by simpa [hacc] using h ce hce⟩)
  exact ⟨cs', hok⟩

private theorem addEquality_conjoins {add} (hadd : ConjoinsAt a add) {v : ExprVisitor}
    (hv : e.eval a = true → v.SoundAt a) :
    (∀ cs', (rewriteConstraints add v cs >>= fun cs => pure (cs ++ [e])) = .ok cs' →
      (cs'.Sat a ↔ cs.Sat a ∧ e.eval a = true)) ∧
    (cs.Sat a → e.eval a = true →
      ∃ cs', (rewriteConstraints add v cs >>= fun cs => pure (cs ++ [e])) = .ok cs') := by
  constructor
  · intro cs' h
    obtain ⟨cs₁, hrewrite, hpush⟩ := Except.bind_eq_ok_iff.1 h
    cases hpush
    by_cases he : e.eval a = true
    · simp [sat_append, rewriteConstraints_sat_iff hadd (hv he) hrewrite, he]
    · simp [sat_append, he]
  · intro hcs he
    obtain ⟨cs₁, hrewrite⟩ := rewriteConstraints_isOk hadd (hv he) hcs
    exact ⟨cs₁ ++ [e], by simp [hrewrite]⟩

theorem addConstraintInternal_conjoins (a : Assignment) (n : Nat) :
    ConjoinsAt a (addConstraintInternal n) := by
  induction n with
  | zero =>
      refine ⟨?_, fun cs e _ _ => ⟨cs ++ [e], rfl⟩⟩
      intro cs e cs' h
      cases h
      simp
  | succ n ih =>
      suffices main : ∀ cs e,
          (∀ cs', addConstraintInternal (n + 1) cs e = .ok cs' →
            (cs'.Sat a ↔ cs.Sat a ∧ e.eval a = true)) ∧
          (cs.Sat a → e.eval a = true → ∃ cs', addConstraintInternal (n + 1) cs e = .ok cs') from
        ⟨fun cs e => (main cs e).1, fun cs e => (main cs e).2⟩
      intro cs e
      -- one case for each kind the source switches on
      unfold addConstraintInternal
      split
      case h_1 h => simp at h
      case h_2 cs _ _ _ _ b _ => cases b <;> simp
      case h_3 cs _ _ _ m l r hm =>
          cases hm
          constructor
          · intro cs' h
            obtain ⟨cs₁, hl, hr⟩ := Except.bind_eq_ok_iff.1 h
            rw [ih.sat_iff _ _ _ hr, ih.sat_iff _ _ _ hl]
            simp [and_assoc]
          · intro hcs he
            simp only [BoolExpr.eval, Bool.and_eq_true] at he
            obtain ⟨cs₁, hl⟩ := ih.isOk cs l hcs he.1
            obtain ⟨cs₂, hr⟩ := ih.isOk cs₁ r ((ih.sat_iff _ _ _ hl).2 ⟨hcs, he.1⟩) he.2
            exact ⟨cs₂, by simp [hl, hr]⟩
      case h_4 hm =>
          cases hm
          refine addEquality_conjoins ih fun he => ExprVisitor.replaceWord_soundAt ?_
          exact (beq_iff_eq.1 he).symm
      case h_5 hm =>
          cases hm
          refine addEquality_conjoins ih fun he => ExprVisitor.replaceBool_soundAt ?_
          exact (beq_iff_eq.1 he).symm
      case h_6 =>
          refine ⟨fun cs' h => ?_, fun _ _ => ⟨_, rfl⟩⟩
          cases h
          simp

/-- Adding a constraint keeps exactly the solutions that satisfy it. -/
theorem addConstraint_sat_iff (h : cs.addConstraint e = .ok cs') :
    cs'.Sat a ↔ cs.Sat a ∧ e.eval a = true := by
  rw [(addConstraintInternal_conjoins a _).sat_iff _ _ _ h]
  exact and_congr_right fun hcs => by rw [eval_simplifyExpr hcs]

/-- Adding a constraint that some solution satisfies does not fail. -/
theorem addConstraint_isOk (hcs : cs.Sat a) (he : e.eval a = true) :
    ∃ cs', cs.addConstraint e = .ok cs' :=
  (addConstraintInternal_conjoins a _).isOk _ _ hcs (by rwa [eval_simplifyExpr hcs])

end ConstraintSet

end Klc3
