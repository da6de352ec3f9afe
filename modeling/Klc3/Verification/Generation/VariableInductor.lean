import Klc3.Model.VariableInductor
import Klc3.Verification.Solver.Exact

/-!
# Variable induction

The preferences are accepted greedily. Every prefix of the list is decided by the
constraints and the preferences accepted in it, and at the end none that was rejected
could be added.
-/

namespace Klc3

/-! ## Reads of the symbolic arrays -/

/-- Every element that is read belongs to one of the arrays. -/
def WordExpr.ReadsWithin (arrays : List SymArray) : WordExpr → Prop
  | .const _ => True
  | .read array index => array ∈ arrays ∧ index < array.size
  | .not e => e.ReadsWithin arrays
  | .add l r => l.ReadsWithin arrays ∧ r.ReadsWithin arrays
  | .mul l r => l.ReadsWithin arrays ∧ r.ReadsWithin arrays
  | .and l r => l.ReadsWithin arrays ∧ r.ReadsWithin arrays
  | .lshr l r => l.ReadsWithin arrays ∧ r.ReadsWithin arrays

def BoolExpr.ReadsWithin (arrays : List SymArray) : BoolExpr → Prop
  | .const _ => True
  | .and l r => l.ReadsWithin arrays ∧ r.ReadsWithin arrays
  | .or l r => l.ReadsWithin arrays ∧ r.ReadsWithin arrays
  | .eq l r => l.ReadsWithin arrays ∧ r.ReadsWithin arrays
  | .boolEq l r => l.ReadsWithin arrays ∧ r.ReadsWithin arrays
  | .ule l r => l.ReadsWithin arrays ∧ r.ReadsWithin arrays
  | .slt l r => l.ReadsWithin arrays ∧ r.ReadsWithin arrays
  | .sle l r => l.ReadsWithin arrays ∧ r.ReadsWithin arrays

variable {arrays : List SymArray} {a a' : Assignment}

/-- Two assignments have the same values for the elements of the arrays. -/
def AgreeOn (arrays : List SymArray) (a a' : Assignment) : Prop :=
  ∀ array ∈ arrays, ∀ index < array.size, a array index = a' array index

theorem WordExpr.ReadsWithin.eval_eq {e : WordExpr} (he : e.ReadsWithin arrays)
    (h : AgreeOn arrays a a') : e.eval a = e.eval a' := by
  induction e with
  | const c => rfl
  | read array index => exact h array he.1 index he.2
  | not e ih => simp [ih he]
  | add l r ihl ihr => simp [ihl he.1, ihr he.2]
  | mul l r ihl ihr => simp [ihl he.1, ihr he.2]
  | and l r ihl ihr => simp [ihl he.1, ihr he.2]
  | lshr l r ihl ihr => simp [ihl he.1, ihr he.2]

theorem BoolExpr.ReadsWithin.eval_eq {e : BoolExpr} (he : e.ReadsWithin arrays)
    (h : AgreeOn arrays a a') : e.eval a = e.eval a' := by
  induction e with
  | const b => rfl
  | and l r ihl ihr => simp [ihl he.1, ihr he.2]
  | or l r ihl ihr => simp [ihl he.1, ihr he.2]
  | boolEq l r ihl ihr => simp [ihl he.1, ihr he.2]
  | eq l r => simp [he.1.eval_eq h, he.2.eval_eq h]
  | ule l r => simp [he.1.eval_eq h, he.2.eval_eq h]
  | slt l r => simp [he.1.eval_eq h, he.2.eval_eq h]
  | sle l r => simp [he.1.eval_eq h, he.2.eval_eq h]

namespace Bindings

theorem lookup_ofSolution {array : SymArray} (h : array ∈ arrays) :
    (ofSolution arrays a).lookup array = some ((List.range array.size).map (a array)) := by
  induction arrays with
  | nil => simp at h
  | cons first arrays ih =>
      by_cases heq : array = first
      · simp [ofSolution, heq]
      · have hne : (array == first) = false := by simpa using heq
        simp only [ofSolution, List.map_cons, List.lookup_cons, hne]
        exact ih ((List.mem_cons.1 h).resolve_left heq)

theorem evaluate_ofSolution (arrays : List SymArray) (a : Assignment) :
    AgreeOn arrays (ofSolution arrays a).evaluate a := by
  intro array harray index hindex
  simp only [evaluate, lookup_ofSolution harray]
  simp [List.getD_eq_getElem?_getD, hindex]

theorem sat_ofSolution {cs : ConstraintSet} (hcs : ∀ e ∈ cs, e.ReadsWithin arrays)
    (h : cs.Sat a) : cs.Sat (ofSolution arrays a).evaluate := by
  intro e he
  rw [(hcs e he).eval_eq (evaluate_ofSolution arrays a)]
  exact h e he

end Bindings

/-! ## The loop over the preferences -/

namespace VariableInductor

variable {solver : Solver} {cs cs' : ConstraintSet} {preferences : List BoolExpr}
  {flags : List Bool}

/-- The preferences that are accepted. -/
def acceptedOf (preferences : List BoolExpr) (flags : List Bool) : ConstraintSet :=
  ((preferences.zip flags).filter Prod.snd).map Prod.fst

@[simp] theorem acceptedOf_nil : acceptedOf [] flags = [] := by
  simp [acceptedOf]

@[simp] theorem acceptedOf_nil_right : acceptedOf preferences [] = [] := by
  simp [acceptedOf]

@[simp] theorem acceptedOf_cons_true (p : BoolExpr) :
    acceptedOf (p :: preferences) (true :: flags) = p :: acceptedOf preferences flags := by
  simp [acceptedOf]

@[simp] theorem acceptedOf_cons_false (p : BoolExpr) :
    acceptedOf (p :: preferences) (false :: flags) = acceptedOf preferences flags := by
  simp [acceptedOf]

theorem mem_acceptedOf {p : BoolExpr} (h : p ∈ acceptedOf preferences flags) :
    p ∈ preferences := by
  obtain ⟨q, hq, rfl⟩ := List.mem_map.1 h
  exact (List.of_mem_zip (List.mem_of_mem_filter hq)).1

/-- The values of `compatible` are those of the loop in `induceVariables`. -/
theorem foldlM_eq_applyPreferences :
    preferences.foldlM (applyPreference solver) cs =
      (applyPreferences solver cs preferences).map Prod.fst := by
  induction preferences generalizing cs with
  | nil => rfl
  | cons p preferences ih =>
      rw [List.foldlM_cons, applyPreferences]
      cases applyPreference solver cs p with
      | error e => rfl
      | ok cs₁ =>
          simp only [Except.ok_bind', ih]
          cases applyPreferences solver cs₁ preferences with
          | error e => rfl
          | ok r => rfl

/-- A preference is decided by what it is added to. -/
theorem applyPreference_spec (exact : solver.Exact) (hcs : cs.Satisfiable) (p : BoolExpr) :
    ∃ cs₁, applyPreference solver cs p = .ok cs₁ ∧ cs₁.Satisfiable ∧
      ∀ a, cs₁.Sat a ↔ cs.Sat a ∧ (solver.mayBeTrue cs p = true → p.eval a = true) := by
  by_cases hp : solver.mayBeTrue cs p = true
  · obtain ⟨a, ha, hpa⟩ := (Solver.mayBeTrue_iff exact).1 hp
    obtain ⟨cs₁, hadd⟩ := ConstraintSet.addConstraint_isOk ha hpa
    have hsat : ∀ a, cs₁.Sat a ↔ cs.Sat a ∧ p.eval a = true :=
      fun a => ConstraintSet.addConstraint_sat_iff hadd
    refine ⟨cs₁, (if_pos hp).trans hadd, ⟨a, (hsat a).2 ⟨ha, hpa⟩⟩, fun a => ?_⟩
    simp [hsat, hp]
  · refine ⟨cs, if_neg hp, hcs, fun a => ?_⟩
    simp [hp]

/-- What the loop leaves of a list of preferences. -/
structure Decided (cs : ConstraintSet) (preferences : List BoolExpr) (cs' : ConstraintSet)
    (flags : List Bool) : Prop where
  length : flags.length = preferences.length
  satisfiable : cs'.Satisfiable
  sat : ∀ a, cs'.Sat a ↔ cs.Sat a ∧ (acceptedOf preferences flags).Sat a
  accepted : ∀ i p, preferences[i]? = some p → (flags[i]? = some true ↔
    ∃ a, cs.Sat a ∧ (acceptedOf (preferences.take i) (flags.take i)).Sat a ∧ p.eval a = true)

theorem applyPreferences_decided (exact : solver.Exact) (hcs : cs.Satisfiable)
    (preferences : List BoolExpr) :
    ∃ cs' flags, applyPreferences solver cs preferences = .ok (cs', flags) ∧
      Decided cs preferences cs' flags := by
  induction preferences generalizing cs with
  | nil =>
      refine ⟨cs, [], rfl, rfl, hcs, fun a => by simp, ?_⟩
      intro i p hp
      simp at hp
  | cons p preferences ih =>
      obtain ⟨cs₁, hstep, hcs₁, hsat⟩ := applyPreference_spec exact hcs p
      obtain ⟨cs', flags, hrest, hdecided⟩ := ih hcs₁
      refine ⟨cs', solver.mayBeTrue cs p :: flags, ?_, ?_, hdecided.satisfiable, fun a => ?_, ?_⟩
      · rw [applyPreferences, hstep, Except.ok_bind', hrest]
        rfl
      · rw [List.length_cons, List.length_cons, hdecided.length]
      · rw [hdecided.sat, hsat, and_assoc]
        cases solver.mayBeTrue cs p with
        | true => simp
        | false => simp
      · intro i q hq
        cases i with
        | zero =>
            have hpq : p = q := Option.some.inj hq
            simp [← hpq, Solver.mayBeTrue_iff exact]
        | succ i =>
            have hiff := hdecided.accepted i q hq
            rw [List.getElem?_cons_succ, hiff]
            apply exists_congr
            intro a
            rw [hsat, and_assoc, List.take_succ_cons, List.take_succ_cons]
            cases solver.mayBeTrue cs p with
            | true => simp [and_assoc]
            | false => simp

/-- What is accepted up to some place is accepted at the end. -/
theorem sat_acceptedOf_take (h : (acceptedOf preferences flags).Sat a) (i : Nat) :
    (acceptedOf (preferences.take i) (flags.take i)).Sat a := by
  induction i generalizing preferences flags with
  | zero => simp
  | succ i ih =>
      cases preferences with
      | nil => simp
      | cons p preferences =>
          cases flags with
          | nil => simp
          | cons flag flags =>
              cases flag with
              | true =>
                  simp only [acceptedOf_cons_true, ConstraintSet.sat_cons] at h
                  simpa using ⟨h.1, ih h.2⟩
              | false =>
                  rw [acceptedOf_cons_false] at h
                  simpa using ih h

/-- No preference that was rejected is compatible with all that were accepted. -/
theorem Decided.maximal (h : Decided cs preferences cs' flags) {i : Nat} {p : BoolExpr}
    (hp : preferences[i]? = some p) (hflag : flags[i]? = some false) :
    ¬ ∃ a, cs.Sat a ∧ (acceptedOf preferences flags).Sat a ∧ p.eval a = true := by
  rintro ⟨a, ha, haccepted, hpa⟩
  have htrue := (h.accepted i p hp).2 ⟨a, ha, sat_acceptedOf_take haccepted i, hpa⟩
  rw [hflag] at htrue
  cases htrue

end VariableInductor

open VariableInductor in
/-- The induced variables satisfy the constraints and as many preferences as the order
of the list allows. -/
theorem induceVariables_maximal (v : VariableInductor) (exact : v.solver.Exact)
    (constraints : ConstraintSet) (hsat : constraints.Satisfiable)
    (hreads : ∀ e ∈ constraints ++ v.preferences, e.ReadsWithin v.arrays) :
    ∃ cs flags b, applyPreferences v.solver constraints v.preferences = .ok (cs, flags) ∧
      v.induceVariables constraints = .ok b ∧
      (b.map Prod.fst = v.arrays ∧ ∀ p ∈ b, p.2.length = p.1.size) ∧
      constraints.Sat b.evaluate ∧ (acceptedOf v.preferences flags).Sat b.evaluate ∧
      flags.length = v.preferences.length ∧
      (∀ (i : Nat) (p : BoolExpr), v.preferences[i]? = some p → (flags[i]? = some true ↔
        ∃ a, constraints.Sat a ∧
          (acceptedOf (v.preferences.take i) (flags.take i)).Sat a ∧ p.eval a = true)) ∧
      ∀ (i : Nat) (p : BoolExpr), v.preferences[i]? = some p → flags[i]? = some false →
        ¬ ∃ a, constraints.Sat a ∧ (acceptedOf v.preferences flags).Sat a ∧ p.eval a = true := by
  obtain ⟨cs, flags, hrun, hdecided⟩ := applyPreferences_decided exact hsat v.preferences
  obtain ⟨a, ha⟩ := Option.isSome_iff_exists.1 (exact.hasSolution cs hdecided.satisfiable)
  obtain ⟨hconstraints, haccepted⟩ := (hdecided.sat a).1 (exact.initialValues cs a ha)
  have hreport : Report.induceVariables v.solver v.preferences constraints = .ok a := by
    have hloop : v.preferences.foldlM (applyPreference v.solver) constraints =
        Except.map Prod.fst (.ok (cs, flags)) :=
      foldlM_eq_applyPreferences.trans (congrArg (Except.map Prod.fst) hrun)
    refine (congrArg (· >>= _) hloop).trans ?_
    simp only [Except.map, Except.ok_bind', ha]
    rfl
  refine ⟨cs, flags, .ofSolution v.arrays a, hrun, ?_, ⟨?_, ?_⟩, ?_, ?_, hdecided.length,
    hdecided.accepted, fun i p hp hflag => hdecided.maximal hp hflag⟩
  · rw [VariableInductor.induceVariables, hreport]
    rfl
  · simp [Bindings.ofSolution, Function.comp_def]
  · intro p hp
    obtain ⟨array, -, rfl⟩ := List.mem_map.1 hp
    simp
  · exact Bindings.sat_ofSolution (fun e he => hreads e (List.mem_append_left _ he)) hconstraints
  · apply Bindings.sat_ofSolution _ haccepted
    exact fun e he => hreads e (List.mem_append_right _ (mem_acceptedOf he))

/-- `N` shall be 1, which contradicts the constraint, or 2, or 3. -/
noncomputable def preferTwo : VariableInductor where
  solver := .ideal
  arrays := [⟨"N", 1⟩]
  preferences := [.eq (.const 1) (.read ⟨"N", 1⟩ 0), .eq (.const 2) (.read ⟨"N", 1⟩ 0),
    .eq (.const 3) (.read ⟨"N", 1⟩ 0)]

theorem preferTwo_induced :
    ∃ b, preferTwo.induceVariables [.slt (.const 1) (.read ⟨"N", 1⟩ 0)] = .ok b ∧
      b.map Prod.fst = [⟨"N", 1⟩] ∧ b.evaluate ⟨"N", 1⟩ 0 = 2 := by
  have hsat : ConstraintSet.Sat [.slt (.const 1) (.read ⟨"N", 1⟩ 0)] fun _ _ => 2 := by
    rw [ConstraintSet.sat_cons]
    exact ⟨by decide, ConstraintSet.sat_nil⟩
  obtain ⟨cs, flags, b, -, hb, ⟨harrays, -⟩, -, hall, hlength, haccepted, -⟩ :=
    induceVariables_maximal preferTwo Solver.ideal_exact [.slt (.const 1) (.read ⟨"N", 1⟩ 0)]
      ⟨_, hsat⟩ (by simp [preferTwo, BoolExpr.ReadsWithin, WordExpr.ReadsWithin])
  refine ⟨b, hb, harrays, ?_⟩
  have hfirst := haccepted 0 _ rfl
  have hsecond := haccepted 1 _ rfl
  match flags, hlength with
  | [one, two, three], _ =>
    have hone : one = false := by
      cases one with
      | false => rfl
      | true =>
          obtain ⟨a, ha, -, heq⟩ := hfirst.1 rfl
          have hless := (ConstraintSet.sat_cons.1 ha).1
          simp only [BoolExpr.eval, WordExpr.eval, beq_iff_eq] at hless heq
          rw [← heq] at hless
          exact absurd hless (by decide)
    have htwo : two = true := by
      apply Option.some.inj
      apply hsecond.2
      refine ⟨fun _ _ => 2, hsat, ?_, by decide⟩
      simp [hone, preferTwo, VariableInductor.acceptedOf]
    have heq := hall (.eq (.const 2) (.read ⟨"N", 1⟩ 0)) (by
      simp [htwo, preferTwo, VariableInductor.acceptedOf])
    simp only [BoolExpr.eval, WordExpr.eval, beq_iff_eq] at heq
    exact heq.symm

end Klc3
