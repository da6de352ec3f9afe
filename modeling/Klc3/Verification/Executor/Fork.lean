import Klc3.Lib.Splits
import Klc3.Model.Executor
import Klc3.Verification.PossibleValues.Correctness

/-!
# Forking on the values of an expression

With an exact solver, `forkOnRange` makes one instance for every value of the
expression under the constraints of the state. The cache never changes this: its
entries hold the values under the initial constraints, which every state implies.
-/

namespace Klc3

namespace State

/-- What belongs to one state object, or is changed when forking. -/
structure Tag where
  uid : Nat
  constraints : ConstraintSet
  triggerNewIssue : Bool
  coveredNewEdge : Bool
  coveredNewSegment : Bool
  avoidLoopReductionPostpone : Bool

def tagged (s : State) (tag : Tag) : State :=
  { s with
    uid := tag.uid
    constraints := tag.constraints
    triggerNewIssue := tag.triggerNewIssue
    coveredNewEdge := tag.coveredNewEdge
    coveredNewSegment := tag.coveredNewSegment
    avoidLoopReductionPostpone := tag.avoidLoopReductionPostpone }

/-- A state that only differs in what forking may change. -/
def Copy (s t : State) : Prop :=
  ∃ tag, t = s.tagged tag

theorem Copy.refl (s : State) : s.Copy s :=
  ⟨⟨s.uid, s.constraints, s.triggerNewIssue, s.coveredNewEdge, s.coveredNewSegment,
    s.avoidLoopReductionPostpone⟩, rfl⟩

variable {s t u : State} {e : BoolExpr}

theorem addConstraint_eq_ok (h : s.addConstraint e = .ok t) :
    ∃ cs, s.constraints.addConstraint e = .ok cs ∧ t = { s with constraints := cs } := by
  obtain ⟨cs, hcs, h⟩ := Except.bind_eq_ok_iff.1 h
  cases h
  exact ⟨cs, hcs, rfl⟩

theorem addConstraint_sat_iff (h : s.addConstraint e = .ok t) (a : Assignment) :
    t.constraints.Sat a ↔ s.constraints.Sat a ∧ e.eval a = true := by
  obtain ⟨cs, hcs, rfl⟩ := addConstraint_eq_ok h
  exact ConstraintSet.addConstraint_sat_iff hcs

theorem addConstraint_isOk {a : Assignment} (ha : s.constraints.Sat a) (he : e.eval a = true) :
    ∃ t, s.addConstraint e = .ok t := by
  obtain ⟨cs, hcs⟩ := ConstraintSet.addConstraint_isOk ha he
  exact ⟨{ s with constraints := cs }, by simp [addConstraint, hcs]⟩

theorem fork_eq_ok {uid : Nat} (h : s.fork uid = .ok t) :
    s.status = .normal ∧ t = { s with uid := uid, triggerNewIssue := false, coveredNewEdge := false,
                                      coveredNewSegment := false,
                                      avoidLoopReductionPostpone := false } := by
  unfold fork at h
  split at h
  · cases h
    exact ⟨‹_›, rfl⟩
  · cases h

end State

namespace Executor

open PossibleValues (Value evalPossibleValues evalPossibleValues_spec possible mem_possible_iff
  possible_nodup possible_ne_nil)

/-- The list has exactly the values of the expression under the constraints. -/
structure ValuesOf (cs : ConstraintSet) (expr : WordExpr) (values : List Value) : Prop where
  nodup : (values.map Prod.fst).Nodup
  mem_iff : ∀ v c, (v, c) ∈ values ↔
    (∃ a, cs.Sat a ∧ expr.eval a = v) ∧ c = ExprBuilder.eq expr (.const v)

/-- An executor with an exact solver and a cache that only has what it computed. -/
structure WF (ex : Executor) : Prop where
  exact : ex.solver.Exact
  cache : ∀ expr entry, ex.possibleValuesCache.lookup expr = some entry →
    entry = [] ∨ ValuesOf ex.initConstraints expr entry

/-- The constraints of a state that an executor may step. -/
structure Owns (ex : Executor) (cs : ConstraintSet) : Prop where
  satisfiable : cs.Satisfiable
  init : ∀ a, cs.Sat a → ex.initConstraints.Sat a

/-- What a step may change of its executor. -/
structure Grows (ex ex' : Executor) : Prop where
  solver : ex'.solver = ex.solver
  baseMem : ex'.baseMem = ex.baseMem
  initConstraints : ex'.initConstraints = ex.initConstraints
  count : ex.totalAllocatedStateCount ≤ ex'.totalAllocatedStateCount
  threshold : ex'.forkOnSymAddrThreshold = ex.forkOnSymAddrThreshold

theorem Grows.refl (ex : Executor) : ex.Grows ex := ⟨rfl, rfl, rfl, le_rfl, rfl⟩

theorem Grows.trans {ex ex' ex'' : Executor} (h : ex.Grows ex') (h' : ex'.Grows ex'') :
    ex.Grows ex'' :=
  ⟨h'.solver.trans h.solver, h'.baseMem.trans h.baseMem,
    h'.initConstraints.trans h.initConstraints, h.count.trans h'.count,
    h'.threshold.trans h.threshold⟩

variable {ex ex' : Executor} {cs : ConstraintSet} {expr : WordExpr}
variable {values : List Value} {entry : List Value}

theorem evalPossibleValues_unlimited (exact : ex.solver.Exact) (hcs : cs.Satisfiable) :
    ValuesOf cs expr (evalPossibleValues ex.solver cs expr (-1)).2 := by
  have hspec := evalPossibleValues_spec expr (-1) exact hcs
  rw [hspec.list (hspec.unlimited rfl), List.nil_append]
  exact ⟨possible_nodup, fun _ _ => mem_possible_iff exact⟩

theorem valuesOfEntry_spec (exact : ex.solver.Exact) (howns : ex.Owns cs)
    (hentry : entry = [] ∨ ValuesOf ex.initConstraints expr entry) :
    ValuesOf cs expr (ex.valuesOfEntry expr cs entry) := by
  unfold valuesOfEntry
  split
  · exact evalPossibleValues_unlimited exact howns.satisfiable
  · rename_i hne
    have hentry : ValuesOf ex.initConstraints expr entry := by
      rcases hentry with rfl | hentry
      · simp at hne
      · exact hentry
    refine ⟨(List.filter_sublist.map Prod.fst).nodup hentry.nodup, fun v c => ?_⟩
    rw [List.mem_filter, hentry.mem_iff, Solver.mayBeTrue_iff exact]
    constructor
    · rintro ⟨⟨-, rfl⟩, a, ha, heval⟩
      simp only [ExprBuilder.eval_eq, WordExpr.eval, beq_iff_eq] at heval
      exact ⟨⟨a, ha, heval⟩, rfl⟩
    · rintro ⟨⟨a, ha, heval⟩, rfl⟩
      exact ⟨⟨⟨a, howns.init a ha, heval⟩, rfl⟩, a, ha, by simp [heval]⟩

/-- The cache gives the same values as a computation from scratch, and stays sound. -/
theorem evalPossibleValuesWithCache_spec (hwf : ex.WF) (howns : ex.Owns cs)
    (h : ex.evalPossibleValuesWithCache expr cs = .ok (ex', values)) :
    ValuesOf cs expr values ∧ ex.Grows ex' ∧ ex'.WF := by
  unfold evalPossibleValuesWithCache at h
  split at h
  · cases h
    exact ⟨evalPossibleValues_unlimited hwf.exact howns.satisfiable, .refl ex, hwf⟩
  · split at h
    · rename_i entry hentry
      cases h
      exact ⟨valuesOfEntry_spec hwf.exact howns (hwf.cache _ _ hentry), .refl ex, hwf⟩
    · dsimp only at h
      split at h
      · cases h
      · cases h
        have hinit : ex.initConstraints.Satisfiable :=
          howns.satisfiable.imp fun a ha => howns.init a ha
        have hspec := evalPossibleValues_spec expr ex.forkOnSymAddrThreshold hwf.exact hinit
        generalize evalPossibleValues ex.solver ex.initConstraints expr
          ex.forkOnSymAddrThreshold = answer at hspec
        have hentry : (if answer.1 = true then answer.2 else []) = [] ∨
            ValuesOf ex.initConstraints expr (if answer.1 = true then answer.2 else []) := by
          split
          · rename_i hfits
            rw [hspec.list hfits, List.nil_append]
            exact .inr ⟨possible_nodup, fun _ _ => mem_possible_iff hwf.exact⟩
          · exact .inl rfl
        refine ⟨valuesOfEntry_spec hwf.exact ⟨howns.satisfiable, howns.init⟩ hentry,
          ⟨rfl, rfl, rfl, le_rfl, rfl⟩, hwf.exact, fun expr' entry' hlookup => ?_⟩
        rw [List.lookup_cons] at hlookup
        split at hlookup
        · rename_i heq
          cases hlookup
          rw [eq_of_beq heq]
          exact hentry
        · exact hwf.cache _ _ hlookup

theorem evalPossibleValuesWithCache_count
    (h : ex.evalPossibleValuesWithCache expr cs = .ok (ex', values)) :
    ex'.totalAllocatedStateCount = ex.totalAllocatedStateCount := by
  unfold evalPossibleValuesWithCache at h
  split at h
  · cases h
    rfl
  · split at h
    · cases h
      rfl
    · dsimp only at h
      split at h <;> cases h
      rfl

variable (expr) in
/-- With an exact solver there is always a value under the initial constraints. -/
theorem evalPossibleValuesWithCache_isOk (hwf : ex.WF) (howns : ex.Owns cs) :
    ∃ r, ex.evalPossibleValuesWithCache expr cs = .ok r := by
  unfold evalPossibleValuesWithCache
  split
  · exact ⟨_, rfl⟩
  · split
    · exact ⟨_, rfl⟩
    · have hinit : ex.initConstraints.Satisfiable :=
        howns.satisfiable.imp fun a ha => howns.init a ha
      have hspec := evalPossibleValues_spec expr ex.forkOnSymAddrThreshold hwf.exact hinit
      dsimp only
      rw [if_neg]
      · exact ⟨_, rfl⟩
      · rintro ⟨hfits, hempty⟩
        rw [hspec.list hfits, List.nil_append, List.isEmpty_iff] at hempty
        exact possible_ne_nil hwf.exact hinit hempty

/-! ## Instances -/

/-- The instances of a state that was forked on the values of an expression. The
state itself is the last one; the copies get the uids from `uid` on. -/
structure Forks (s : State) (expr : WordExpr) (uid : Nat) (instances : List (Word × State)) :
    Prop where
  copy : ∀ i ∈ instances, s.Copy i.2
  sat_iff : ∀ i ∈ instances, ∀ a, i.2.constraints.Sat a ↔ s.constraints.Sat a ∧ expr.eval a = i.1
  satisfiable : ∀ i ∈ instances, i.2.constraints.Satisfiable
  nodup : (instances.map Prod.fst).Nodup
  covers : ∀ a, s.constraints.Sat a → ∃ i ∈ instances, expr.eval a = i.1
  uids : instances.map (fun i => i.2.uid) = List.range' uid (instances.length - 1) ++ [s.uid]

variable {s : State} {uid : Nat} {instances : List (Word × State)} {single : Bool}

theorem forks_const {c : Word} (hs : s.constraints.Satisfiable) (h : expr.asConst = some c) :
    Forks s expr uid [(c, s)] := by
  have heval := WordExpr.eval_of_asConst h
  refine ⟨by simpa using .refl s, ?_, by simpa using hs, by simp, ?_, by simp⟩
  · simp [heval]
  · simp [heval]

/-- Every copy gets the equation of its value, and `s` that of the last. -/
theorem forkOnValues_spec
    (hvalues : ∀ v c, (v, c) ∈ values → c = ExprBuilder.eq expr (.const v))
    (hsingle : single = true → ∀ v c, (v, c) ∈ values → ∀ a, s.constraints.Sat a → expr.eval a = v)
    (h : forkOnValues s single uid values = .ok instances) :
    instances.map Prod.fst = values.map Prod.fst ∧
    (∀ i ∈ instances, s.Copy i.2) ∧
    (∀ i ∈ instances, ∀ a, i.2.constraints.Sat a ↔ s.constraints.Sat a ∧ expr.eval a = i.1) ∧
    (values ≠ [] →
      instances.map (fun i => i.2.uid) = List.range' uid (instances.length - 1) ++ [s.uid]) := by
  fun_induction forkOnValues s single uid values generalizing instances with
  | case1 =>
      cases h
      simp
  | case2 uid v c =>
      cases h
      refine ⟨rfl, by simpa using .refl s, ?_, by simp⟩
      intro i hi a
      obtain rfl := List.mem_singleton.1 hi
      exact ⟨fun ha => ⟨ha, hsingle (by assumption) v c (by simp) a ha⟩, And.left⟩
  | case3 uid v c =>
      obtain ⟨t, hadd, h⟩ := Except.bind_eq_ok_iff.1 h
      cases h
      obtain rfl := hvalues v c (by simp)
      have hsat := State.addConstraint_sat_iff hadd
      obtain ⟨cs, -, rfl⟩ := State.addConstraint_eq_ok hadd
      refine ⟨rfl, ?_, ?_, by simp⟩
      · simpa using ⟨⟨s.uid, cs, s.triggerNewIssue, s.coveredNewEdge, s.coveredNewSegment,
          s.avoidLoopReductionPostpone⟩, rfl⟩
      · intro i hi a
        obtain rfl := List.mem_singleton.1 hi
        simpa using hsat a
  | case4 uid v c rest hrest ih =>
      obtain ⟨t₀, hfork, h⟩ := Except.bind_eq_ok_iff.1 h
      obtain ⟨t, hadd, h⟩ := Except.bind_eq_ok_iff.1 h
      obtain ⟨others, hothers, h⟩ := Except.bind_eq_ok_iff.1 h
      cases h
      obtain rfl := hvalues v c (by simp)
      have hne : rest ≠ [] := by
        rintro rfl
        exact hrest rfl
      obtain ⟨hmap, hcopy, hsat, huid⟩ :=
        ih (fun v c hmem => hvalues v c (List.mem_cons_of_mem _ hmem))
          (fun hs v c hmem => hsingle hs v c (List.mem_cons_of_mem _ hmem)) hothers
      have hthis := State.addConstraint_sat_iff hadd
      obtain ⟨-, rfl⟩ := State.fork_eq_ok hfork
      obtain ⟨cs, -, rfl⟩ := State.addConstraint_eq_ok hadd
      have hlen : others.length = rest.length := by simpa using congrArg List.length hmap
      have hpos : 0 < rest.length := List.length_pos_iff.2 hne
      refine ⟨by simp [hmap], ?_, ?_, fun _ => ?_⟩
      · rintro i hi
        rcases List.mem_cons.1 hi with rfl | hi
        · exact ⟨⟨uid, cs, false, false, false, false⟩, rfl⟩
        · exact hcopy i hi
      · intro i hi a
        rcases List.mem_cons.1 hi with rfl | hi
        · simpa using hthis a
        · exact hsat i hi a
      · have hsucc : others.length = others.length - 1 + 1 := by omega
        rw [List.map_cons, huid hne, List.length_cons, Nat.add_sub_cancel]
        conv_rhs => rw [hsucc, List.range'_succ]
        rfl

/-- `forkOnRange` makes one instance for every value of the expression. -/
theorem forkOnRange_spec (hwf : ex.WF) (howns : ex.Owns s.constraints)
    (h : ex.forkOnRange s expr = .ok (ex', instances)) :
    Forks s expr ex.totalAllocatedStateCount instances ∧ ex.Grows ex' ∧ ex'.WF ∧
      ex'.totalAllocatedStateCount = ex.totalAllocatedStateCount + (instances.length - 1) := by
  obtain ⟨⟨ex₁, values⟩, hvalues, h⟩ := Except.bind_eq_ok_iff.1 h
  obtain ⟨instances', hfork, h⟩ := Except.bind_eq_ok_iff.1 h
  cases h
  obtain ⟨hspec, hgrows, hwf₁⟩ := evalPossibleValuesWithCache_spec hwf howns hvalues
  -- with a single value every solution has it
  have hsingle : (values.length == 1) = true → ∀ v c, (v, c) ∈ values →
      ∀ a, s.constraints.Sat a → expr.eval a = v := by
    intro hlen v c hmem a ha
    obtain ⟨entry, rfl⟩ := List.length_eq_one_iff.1 (by simpa using hlen)
    have hmem' := (hspec.mem_iff (expr.eval a) _).2 ⟨⟨a, ha, rfl⟩, rfl⟩
    rw [List.mem_singleton] at hmem hmem'
    rw [← hmem] at hmem'
    exact congrArg Prod.fst hmem'
  obtain ⟨hmap, hcopy, hsat, huid⟩ :=
    forkOnValues_spec (fun v c hmem => ((hspec.mem_iff v c).1 hmem).2) hsingle hfork
  have hlen : instances.length = values.length := by simpa using congrArg List.length hmap
  have hin : ∀ a, s.constraints.Sat a → expr.eval a ∈ values.map Prod.fst := fun a ha =>
    List.mem_map.2 ⟨_, (hspec.mem_iff (expr.eval a) _).2 ⟨⟨a, ha, rfl⟩, rfl⟩, rfl⟩
  have hcount : ex₁.totalAllocatedStateCount = ex.totalAllocatedStateCount :=
    evalPossibleValuesWithCache_count hvalues
  have hne : values ≠ [] := by
    obtain ⟨a, ha⟩ := howns.satisfiable
    rintro rfl
    simpa using hin a ha
  refine ⟨⟨hcopy, hsat, ?_, by rw [hmap]; exact hspec.nodup, ?_, by rw [huid hne, hcount]⟩, ?_, ?_,
    by simp [hcount, hlen]⟩
  · intro i hi
    obtain ⟨entry, hentry, heq⟩ := List.mem_map.1 (hmap ▸ List.mem_map_of_mem (f := Prod.fst) hi)
    obtain ⟨a, ha, heval⟩ := ((hspec.mem_iff entry.1 entry.2).1 hentry).1
    exact ⟨a, (hsat i hi a).2 ⟨ha, heval.trans heq⟩⟩
  · intro a ha
    obtain ⟨i, hi, heq⟩ := List.mem_map.1 (hmap ▸ hin a ha)
    exact ⟨i, hi, heq.symm⟩
  · exact ⟨hgrows.solver, hgrows.baseMem, hgrows.initConstraints,
      hgrows.count.trans (Nat.le_add_right _ _), hgrows.threshold⟩
  · exact ⟨hwf₁.exact, hwf₁.cache⟩

theorem Forks.splits (h : Forks s expr uid instances) :
    Splits s.constraints.Sat (instances.map fun i => i.2.constraints.Sat) where
  covers a := by
    constructor
    · intro ha
      obtain ⟨i, hi, heval⟩ := h.covers a ha
      exact ⟨_, List.mem_map_of_mem (f := fun i => i.2.constraints.Sat) hi,
        (h.sat_iff i hi a).2 ⟨ha, heval⟩⟩
    · rintro ⟨q, hq, hqa⟩
      obtain ⟨i, hi, rfl⟩ := List.mem_map.1 hq
      exact ((h.sat_iff i hi a).1 hqa).1
  disjoint := by
    rw [List.pairwise_map]
    refine (List.pairwise_map.1 h.nodup).imp_of_mem ?_
    intro i j hi hj hne a hia hja
    exact hne (((h.sat_iff i hi a).1 hia).2.symm.trans ((h.sat_iff j hj a).1 hja).2)
  inhabited q hq := by
    obtain ⟨i, hi, rfl⟩ := List.mem_map.1 hq
    exact h.satisfiable i hi

variable (single uid) in
/-- Forking only fails for a state that is not `NORMAL`. -/
theorem forkOnValues_isOk
    (hvalues : ∀ v c, (v, c) ∈ values → ∃ a, s.constraints.Sat a ∧ c.eval a = true)
    (hnormal : s.status = .normal) : ∃ instances, forkOnValues s single uid values = .ok instances := by
  induction values generalizing uid with
  | nil => exact ⟨_, rfl⟩
  | cons value rest ih =>
      obtain ⟨v, c⟩ := value
      obtain ⟨a, ha, hc⟩ := hvalues v c (by simp)
      cases rest with
      | nil =>
          cases single with
          | true => exact ⟨_, rfl⟩
          | false =>
              obtain ⟨t, ht⟩ := State.addConstraint_isOk ha hc
              exact ⟨[(v, t)], by simp [forkOnValues, ht]⟩
      | cons value' rest =>
          obtain ⟨others, hothers⟩ :=
            ih (uid + 1) fun v c hmem => hvalues v c (List.mem_cons_of_mem _ hmem)
          have hfork : s.fork uid = .ok { s with
              uid := uid, triggerNewIssue := false, coveredNewEdge := false,
              coveredNewSegment := false, avoidLoopReductionPostpone := false } := by
            simp [State.fork, hnormal]
          obtain ⟨t, ht⟩ := State.addConstraint_isOk (s := { s with
              uid := uid, triggerNewIssue := false, coveredNewEdge := false,
              coveredNewSegment := false, avoidLoopReductionPostpone := false }) ha hc
          exact ⟨(v, t) :: others, by simp [forkOnValues, hfork, ht, hothers]⟩

variable (expr) in
theorem forkOnRange_isOk (hwf : ex.WF) (howns : ex.Owns s.constraints)
    (hnormal : s.status = .normal) :
    ∃ ex' instances, ex.forkOnRange s expr = .ok (ex', instances) ∧ instances ≠ [] := by
  obtain ⟨⟨ex₁, values⟩, hvalues⟩ := evalPossibleValuesWithCache_isOk expr hwf howns
  obtain ⟨hspec, -, -⟩ := evalPossibleValuesWithCache_spec hwf howns hvalues
  obtain ⟨instances, hfork⟩ := forkOnValues_isOk
    ex₁.totalAllocatedStateCount (values.length == 1) (s := s) (by
      intro v c hmem
      obtain ⟨⟨a, ha, heval⟩, rfl⟩ := (hspec.mem_iff v c).1 hmem
      exact ⟨a, ha, by simp [heval]⟩) hnormal
  have hrange : ex.forkOnRange s expr = .ok ({ ex₁ with
      totalAllocatedStateCount := ex₁.totalAllocatedStateCount + (values.length - 1) },
      instances) := by
    simp [forkOnRange, hvalues, hfork]
  refine ⟨_, instances, hrange, ?_⟩
  obtain ⟨hforks, -⟩ := forkOnRange_spec hwf howns hrange
  obtain ⟨a, ha⟩ := howns.satisfiable
  obtain ⟨i, hi, -⟩ := hforks.covers a ha
  exact List.ne_nil_of_mem hi

/-- More than one instance are only made of a `NORMAL` state. -/
theorem forkOnRange_normal (h : ex.forkOnRange s expr = .ok (ex', instances))
    (hlen : 1 < instances.length) : s.status = .normal := by
  obtain ⟨⟨ex₁, values⟩, -, h⟩ := Except.bind_eq_ok_iff.1 h
  obtain ⟨instances', hfork, h⟩ := Except.bind_eq_ok_iff.1 h
  cases h
  match values, hfork with
  | [], hfork =>
      cases hfork
      simp at hlen
  | [(v, c)], hfork =>
      simp only [forkOnValues] at hfork
      split at hfork
      · cases hfork
        simp at hlen
      · obtain ⟨t, -, h⟩ := Except.bind_eq_ok_iff.1 hfork
        cases h
        simp at hlen
  | (v, c) :: value :: rest, hfork =>
      obtain ⟨t, hfork, -⟩ := Except.bind_eq_ok_iff.1 hfork
      exact (State.fork_eq_ok hfork).1

end Executor

end Klc3
