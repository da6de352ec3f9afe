import Klc3.Model.Solver
import Klc3.Verification.Constraints.Semantics

/-!
# Exact solvers

What the queries of an exact solver mean, and that an exact solver exists.
-/

namespace Klc3.Solver

variable {solver : Solver} (exact : solver.Exact) {cs : ConstraintSet} {e : BoolExpr}

include exact

theorem mustBeTrue_iff : solver.mustBeTrue cs e = true ↔ ∀ a, cs.Sat a → e.eval a = true :=
  exact.computeTruth cs e

theorem mustBeFalse_iff : solver.mustBeFalse cs e = true ↔ ∀ a, cs.Sat a → e.eval a = false := by
  simp [mustBeFalse, mustBeTrue_iff exact]

theorem mayBeTrue_iff : solver.mayBeTrue cs e = true ↔ ∃ a, cs.Sat a ∧ e.eval a = true := by
  rw [mayBeTrue, Bool.not_eq_true', ← Bool.not_eq_true, mustBeFalse_iff exact]
  simp

theorem mayBeFalse_iff : solver.mayBeFalse cs e = true ↔ ∃ a, cs.Sat a ∧ e.eval a = false := by
  rw [mayBeFalse, Bool.not_eq_true', ← Bool.not_eq_true, mustBeTrue_iff exact]
  simp

theorem evaluate_valid_iff (hcs : cs.Satisfiable) :
    solver.evaluate cs e = .valid ↔ ∀ a, cs.Sat a → e.eval a = true := by
  obtain ⟨a₀, ha₀⟩ := hcs
  unfold evaluate
  split
  · rename_i b
    cases b
    · simpa using ⟨a₀, ha₀⟩
    · simp
  · exact exact.valid cs e

theorem evaluate_invalid_iff (hcs : cs.Satisfiable) :
    solver.evaluate cs e = .invalid ↔ ∀ a, cs.Sat a → e.eval a = false := by
  obtain ⟨a₀, ha₀⟩ := hcs
  unfold evaluate
  split
  · rename_i b
    cases b
    · simp
    · simpa using ⟨a₀, ha₀⟩
  · exact exact.invalid cs e ⟨a₀, ha₀⟩

theorem evaluate_unknown (hcs : cs.Satisfiable) (h : solver.evaluate cs e = .unknown) :
    (∃ a, cs.Sat a ∧ e.eval a = true) ∧ ∃ a, cs.Sat a ∧ e.eval a = false := by
  have hvalid := evaluate_valid_iff exact (e := e) hcs
  have hinvalid := evaluate_invalid_iff exact (e := e) hcs
  simp only [h, reduceCtorEq, false_iff, not_forall, Bool.not_eq_true, Bool.not_eq_false,
    exists_prop] at hvalid hinvalid
  exact ⟨hinvalid, hvalid⟩

omit exact

/-- A solver that decides every query by truth. -/
noncomputable def ideal : Solver where
  computeTruth cs e := @decide (∀ a, cs.Sat a → e.eval a = true) (Classical.propDecidable _)
  computeValidity cs e :=
    @ite _ (∀ a, cs.Sat a → e.eval a = true) (Classical.propDecidable _) .valid
      (@ite _ (∀ a, cs.Sat a → e.eval a = false) (Classical.propDecidable _) .invalid .unknown)
  computeInitialValues cs :=
    @dite _ cs.Satisfiable (Classical.propDecidable _) (fun h => some h.choose) fun _ => none

theorem ideal_exact : ideal.Exact where
  computeTruth cs e := by simp [ideal]
  valid cs e := by
    simp only [ideal]
    split
    · simpa
    · split <;> simp_all
  invalid cs e hcs := by
    obtain ⟨a₀, ha₀⟩ := hcs
    simp only [ideal]
    split
    · rename_i h
      simpa using ⟨a₀, ha₀, h a₀ ha₀⟩
    · split <;> simp_all
  initialValues cs a h := by
    simp only [ideal] at h
    split at h
    · rename_i hcs
      cases h
      exact hcs.choose_spec
    · cases h
  hasSolution cs h := by simp [ideal, h]

/-- `ideal`, with its answer to one query without constraints written out. -/
noncomputable def forking (query : BoolExpr) : Solver :=
  { ideal with
    computeValidity := fun cs e =>
      if cs.isEmpty ∧ e = query then .unknown else ideal.computeValidity cs e }

theorem forking_eq_ideal {query : BoolExpr} (htrue : ∃ a, query.eval a = true)
    (hfalse : ∃ a, query.eval a = false) : forking query = ideal := by
  obtain ⟨a, ha⟩ := htrue
  obtain ⟨b, hb⟩ := hfalse
  have hvalid : ¬ ∀ a, query.eval a = true := fun h => by simp [h b] at hb
  have hinvalid : ¬ ∀ a, query.eval a = false := fun h => by simp [h a] at ha
  have hquery : ideal.computeValidity [] query = .unknown := by simp [ideal, hvalid, hinvalid]
  have hvalidity : (forking query).computeValidity = ideal.computeValidity := by
    funext cs e
    unfold forking
    dsimp only
    split
    · rename_i h
      rw [List.isEmpty_iff.1 h.1, h.2, hquery]
    · rfl
  exact congrArg (fun f => { ideal with computeValidity := f }) hvalidity

theorem forking_exact {query : BoolExpr} (htrue : ∃ a, query.eval a = true)
    (hfalse : ∃ a, query.eval a = false) : (forking query).Exact :=
  forking_eq_ideal htrue hfalse ▸ ideal_exact

end Klc3.Solver
