import Klc3.Model.Executor
import Klc3.Verification.Executor.Effect
import Klc3.Verification.Solver.Exact

/-!
# Initial states

The constraints of a program are added one at a time, each checked against those
before it. A conflict is found however it is spread over them.
-/

namespace Klc3

variable {solver : Solver} {s : State}

/-- The body of the loop of `createInitState`. -/
def Executor.addInitConstraint (solver : Solver) (s : State) (c : BoolExpr) : Except Abort State :=
  if solver.mustBeFalse s.constraints c then throw .progExit else s.addConstraint c

namespace Executor

theorem addInitConstraint_of_unsat (exact : solver.Exact) {c : BoolExpr}
    (h : ∀ a, s.constraints.Sat a → c.eval a = false) :
    addInitConstraint solver s c = .error .progExit :=
  if_pos ((Solver.mustBeFalse_iff exact).2 h)

theorem addInitConstraint_of_sat (exact : solver.Exact) {c : BoolExpr} {a : Assignment}
    (ha : s.constraints.Sat a) (hc : c.eval a = true) :
    ∃ cs, addInitConstraint solver s c = .ok { s with constraints := cs } ∧
      ∀ a, cs.Sat a ↔ s.constraints.Sat a ∧ c.eval a = true := by
  have hmay : ¬ solver.mustBeFalse s.constraints c = true := by
    intro hfalse
    have hc' := (Solver.mustBeFalse_iff exact).1 hfalse a ha
    simp [hc] at hc'
  obtain ⟨cs, hadd⟩ := ConstraintSet.addConstraint_isOk ha hc
  refine ⟨cs, ?_, fun a => ConstraintSet.addConstraint_sat_iff hadd⟩
  rw [addInitConstraint, if_neg hmay, State.addConstraint, hadd]
  rfl

/-- The loop adds all constraints, or it stops at one that is unsatisfiable with
those before it. -/
theorem addInitConstraints (exact : solver.Exact) (constraints : ConstraintSet)
    (hs : s.constraints.Satisfiable) :
    (∃ cs, constraints.foldlM (addInitConstraint solver) s = .ok { s with constraints := cs } ∧
      cs.Satisfiable ∧ ∀ a, cs.Sat a ↔ s.constraints.Sat a ∧ constraints.Sat a) ∨
    (constraints.foldlM (addInitConstraint solver) s = .error .progExit ∧
      ∀ a, s.constraints.Sat a → ¬ constraints.Sat a) := by
  induction constraints generalizing s with
  | nil =>
      left
      exact ⟨s.constraints, rfl, hs, fun a => by simp⟩
  | cons c constraints ih =>
      by_cases hc : ∃ a, s.constraints.Sat a ∧ c.eval a = true
      · obtain ⟨a, ha, hca⟩ := hc
        obtain ⟨cs, hstep, hsat⟩ := addInitConstraint_of_sat exact ha hca
        have hcs : ConstraintSet.Satisfiable cs := ⟨a, (hsat a).2 ⟨ha, hca⟩⟩
        rw [List.foldlM_cons, hstep, Except.ok_bind']
        cases ih (s := { s with constraints := cs }) hcs with
        | inl hall =>
            obtain ⟨cs', hfold, hcs', hsat'⟩ := hall
            left
            refine ⟨cs', hfold, hcs', fun a => ?_⟩
            rw [hsat', hsat, ConstraintSet.sat_cons, and_assoc]
        | inr hsome =>
            right
            refine ⟨hsome.1, fun a ha hall => ?_⟩
            apply hsome.2 a ((hsat a).2 ⟨ha, hall c List.mem_cons_self⟩)
            exact fun d hd => hall d (List.mem_cons_of_mem c hd)
      · right
        have hfalse : ∀ a, s.constraints.Sat a → c.eval a = false := by
          intro a ha
          exact Bool.eq_false_of_not_eq_true fun hca => hc ⟨a, ha, hca⟩
        rw [List.foldlM_cons, addInitConstraint_of_unsat exact hfalse]
        refine ⟨rfl, fun a ha hall => hc ⟨a, ha, hall c List.mem_cons_self⟩⟩

variable {ex ex' : Executor} {constraints : List BoolExpr} {initPC : Word}

/-- The state before any constraint is added. -/
theorem createInitState_eq (ex : Executor) (constraints : List BoolExpr) (initPC : Word) :
    ex.createInitState constraints initPC =
      (constraints.foldlM (addInitConstraint ex.solver)
        (State.init ex.totalAllocatedStateCount ex.baseMem initPC)).map fun s =>
          ({ ex with
            totalAllocatedStateCount := ex.totalAllocatedStateCount + 1
            initConstraints := s.constraints }, s) :=
  bind_pure_comp _ _

theorem init_satisfiable (uid : Nat) (mem : Word → Option MemValue) (initPC : Word) :
    (State.init uid mem initPC).constraints.Satisfiable :=
  ⟨fun _ _ => 0, ConstraintSet.sat_nil⟩

/-- The initial state has exactly the constraints of the program, and they have a
solution. -/
theorem createInitState_spec (exact : ex.solver.Exact)
    (h : ex.createInitState constraints initPC = .ok (ex', s)) :
    (∃ cs, s = { State.init ex.totalAllocatedStateCount ex.baseMem initPC with
      constraints := cs }) ∧
    (∀ a, s.constraints.Sat a ↔ ∀ c ∈ constraints, c.eval a = true) ∧
    s.constraints.Satisfiable ∧
    ex' = { ex with
      totalAllocatedStateCount := ex.totalAllocatedStateCount + 1
      initConstraints := s.constraints } := by
  rw [createInitState_eq] at h
  cases addInitConstraints exact constraints (init_satisfiable ex.totalAllocatedStateCount
    ex.baseMem initPC) with
  | inl hall =>
      obtain ⟨cs, hfold, hcs, hsat⟩ := hall
      rw [hfold] at h
      cases h
      refine ⟨⟨cs, rfl⟩, fun a => (hsat a).trans ?_, hcs, rfl⟩
      exact and_iff_right ConstraintSet.sat_nil
  | inr hsome =>
      rw [hsome.1] at h
      cases h

end Executor

/-- An initial state is refused exactly when the constraints contradict each other. -/
theorem createInitState_exits_iff (ex : Executor) (exact : ex.solver.Exact)
    (constraints : List BoolExpr) (initPC : Word) :
    (ex.createInitState constraints initPC = .error .progExit ↔
      ¬ ∃ a, ∀ c ∈ constraints, c.eval a = true) ∧
    ((∃ a, ∀ c ∈ constraints, c.eval a = true) →
      ∃ ex' s, ex.createInitState constraints initPC = .ok (ex', s) ∧
        s.constraints.Satisfiable ∧
        (∀ a, s.constraints.Sat a ↔ ∀ c ∈ constraints, c.eval a = true) ∧
        ex'.initConstraints = s.constraints) := by
  have hinit := Executor.init_satisfiable ex.totalAllocatedStateCount ex.baseMem initPC
  have hnil : ∀ a, (State.init ex.totalAllocatedStateCount ex.baseMem initPC).constraints.Sat a :=
    fun a => ConstraintSet.sat_nil
  rw [Executor.createInitState_eq]
  cases Executor.addInitConstraints exact constraints hinit with
  | inl hall =>
      obtain ⟨cs, hfold, ⟨a, ha⟩, hsat⟩ := hall
      have hholds : ∀ a, cs.Sat a ↔ ∀ c ∈ constraints, c.eval a = true :=
        fun a => (hsat a).trans (and_iff_right (hnil a))
      rw [hfold]
      refine ⟨⟨?_, fun h => absurd ⟨a, (hholds a).1 ha⟩ h⟩, fun _ => ?_⟩
      · intro h
        cases h
      · exact ⟨_, _, rfl, ⟨a, ha⟩, hholds, rfl⟩
  | inr hsome =>
      obtain ⟨hfold, hunsat⟩ := hsome
      have hnone : ¬ ∃ a, ∀ c ∈ constraints, c.eval a = true := by
        rintro ⟨a, ha⟩
        exact hunsat a (hnil a) ha
      rw [hfold]
      exact ⟨⟨fun _ => hnone, fun _ => rfl⟩, fun h => absurd h hnone⟩

/-- `N > 0` and `N < 0`. -/
def conflictAssumes : List BoolExpr :=
  [.slt (.const 0) (.read ⟨"N", 1⟩ 0), .slt (.read ⟨"N", 1⟩ 0) (.const 0)]

theorem conflictAssumes_exits :
    (Executor.new Solver.ideal 0 fun _ => none).createInitState conflictAssumes 0x3000 =
      .error .progExit := by
  apply (createInitState_exits_iff _ Solver.ideal_exact conflictAssumes 0x3000).1.2
  rintro ⟨a, ha⟩
  have hpos := ha _ List.mem_cons_self
  have hneg := ha _ (List.mem_cons_of_mem _ List.mem_cons_self)
  simp only [BoolExpr.eval, WordExpr.eval, BitVec.slt_iff_toInt_lt] at hpos hneg
  omega

end Klc3
