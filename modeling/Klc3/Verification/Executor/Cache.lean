import Klc3.Verification.Executor.Fork

/-!
# The cache of possible values

`evalPossibleValuesWithCache` filters what it computed once under the initial constraints.
With an exact solver this gives what `evalPossibleValues` would list.
-/

namespace Klc3.Executor

open PossibleValues (Value evalPossibleValues evalPossibleValues_spec possible possible_ne_nil select
  mayBeTrue_eq_bound_iff)

variable {ex ex₀ ex' : Executor} {cs : ConstraintSet} {expr : WordExpr} {values entry : List Value}

/-- Constraints leave those of the possible values that are possible under them. -/
theorem filter_possible {solver : Solver} (exact : solver.Exact) {init : ConstraintSet}
    (hinit : ∀ a, cs.Sat a → init.Sat a) :
    ((possible solver init expr).filter fun item => solver.mayBeTrue cs item.2) =
      possible solver cs expr := by
  simp only [possible, select, List.filter_map, List.filter_filter]
  refine congrArg (List.map _) (List.filter_congr ?_)
  intro val _
  rw [Bool.eq_iff_iff, Bool.and_eq_true]
  simp only [Function.comp, mayBeTrue_eq_bound_iff exact]
  constructor
  · exact fun h => h.1
  · rintro ⟨a, ha, heq⟩
    exact ⟨⟨a, ha, heq⟩, a, hinit a ha, heq⟩

/-- What the cache may hold: for each expression its possible values under the initial
constraints, or nothing when there are too many. -/
def Remembers (ex : Executor) : Prop :=
  ∀ expr entry, ex.possibleValuesCache.lookup expr = some entry →
    entry = [] ∨ entry = possible ex.solver ex.initConstraints expr

variable (exact : ex.solver.Exact) (howns : ex.Owns cs)

include exact howns

theorem evalPossibleValues_eq : (evalPossibleValues ex.solver cs expr (-1)).2 =
    possible ex.solver cs expr := by
  have hspec := evalPossibleValues_spec expr (-1) exact howns.satisfiable
  rw [hspec.list (hspec.unlimited rfl), List.nil_append]

theorem valuesOfEntry_eq
    (hentry : entry = [] ∨ entry = possible ex.solver ex.initConstraints expr) :
    ex.valuesOfEntry expr cs entry = (evalPossibleValues ex.solver cs expr (-1)).2 := by
  unfold valuesOfEntry
  split
  · rfl
  · rename_i hne
    rcases hentry with hempty | hlist
    · exact absurd (List.isEmpty_iff.2 hempty) hne
    · rw [hlist, filter_possible exact howns.init, evalPossibleValues_eq exact howns]

/-- A call answers as `evalPossibleValues` does without a limit, and remembers what it
computed. -/
theorem evalPossibleValuesWithCache_eq (expr : WordExpr) (hcache : ex.Remembers) :
    ∃ ex', ex.evalPossibleValuesWithCache expr cs =
        .ok (ex', (evalPossibleValues ex.solver cs expr (-1)).2) ∧
      ex'.solver = ex.solver ∧ ex'.initConstraints = ex.initConstraints ∧ ex'.Remembers := by
  unfold evalPossibleValuesWithCache
  split
  · exact ⟨ex, rfl, rfl, rfl, hcache⟩
  · split
    · rename_i entry hentry
      exact ⟨ex, by rw [valuesOfEntry_eq exact howns (hcache _ _ hentry)]; rfl, rfl, rfl, hcache⟩
    · have hinit : ex.initConstraints.Satisfiable :=
        howns.satisfiable.imp fun a ha => howns.init a ha
      have hspec := evalPossibleValues_spec expr ex.forkOnSymAddrThreshold exact hinit
      dsimp only
      generalize evalPossibleValues ex.solver ex.initConstraints expr
        ex.forkOnSymAddrThreshold = answer at hspec
      have hentry : (if answer.1 = true then answer.2 else []) = [] ∨
          (if answer.1 = true then answer.2 else []) =
            possible ex.solver ex.initConstraints expr := by
        split
        · rename_i hfits
          rw [hspec.list hfits, List.nil_append]
          exact .inr rfl
        · exact .inl rfl
      rw [if_neg]
      · refine ⟨_, congrArg (fun values => Except.ok (_, values)) ?_, rfl, rfl, ?_⟩
        · exact valuesOfEntry_eq exact ⟨howns.satisfiable, howns.init⟩ hentry
        · intro expr' entry' hlookup
          rw [List.lookup_cons] at hlookup
          split at hlookup
          · rename_i heq
            cases hlookup
            rw [eq_of_beq heq]
            exact hentry
          · exact hcache expr' entry' hlookup
      · rintro ⟨hfits, hempty⟩
        rw [hspec.list hfits, List.nil_append, List.isEmpty_iff] at hempty
        exact possible_ne_nil exact hinit hempty

omit exact howns

/-- The executors that calls with any expressions and constraints lead to. -/
inductive Called (ex₀ : Executor) : Executor → Prop where
  | start : Called ex₀ ex₀
  | call {ex ex' : Executor} {expr : WordExpr} {cs : ConstraintSet} {values : List Value} :
      Called ex₀ ex → ex.Owns cs → ex.evalPossibleValuesWithCache expr cs = .ok (ex', values) →
      Called ex₀ ex'

theorem Called.remembers (exact : ex₀.solver.Exact) (hempty : ex₀.possibleValuesCache = [])
    (h : Called ex₀ ex) : ex.solver = ex₀.solver ∧ ex.initConstraints = ex₀.initConstraints ∧
      ex.Remembers := by
  induction h with
  | start =>
    refine ⟨rfl, rfl, ?_⟩
    intro expr entry hlookup
    rw [hempty] at hlookup
    cases hlookup
  | @call ex ex' expr cs values _ howns hcall ih =>
    obtain ⟨hsolver, hinit, hcache⟩ := ih
    obtain ⟨ex₁, hcall₁, hsolver₁, hinit₁, hcache₁⟩ :=
      evalPossibleValuesWithCache_eq (hsolver ▸ exact) howns expr hcache
    rw [hcall₁] at hcall
    cases hcall
    exact ⟨hsolver₁.trans hsolver, hinit₁.trans hinit, hcache₁⟩

/-- The cache is transparent: after any calls, each call answers as `evalPossibleValues` does
without a limit. -/
theorem called_transparent (exact : ex₀.solver.Exact) (hempty : ex₀.possibleValuesCache = [])
    (hcalls : Called ex₀ ex) (howns : ex.Owns cs) (expr : WordExpr) :
    ∃ ex', ex.evalPossibleValuesWithCache expr cs =
      .ok (ex', (evalPossibleValues ex₀.solver cs expr (-1)).2) := by
  obtain ⟨hsolver, -, hcache⟩ := hcalls.remembers exact hempty
  obtain ⟨ex', hcall, -⟩ := evalPossibleValuesWithCache_eq (hsolver ▸ exact) howns expr hcache
  rw [hsolver] at hcall
  exact ⟨ex', hcall⟩

/-- What a call answered is in the cache. -/
theorem evalPossibleValuesWithCache_cached (hthreshold : ex.forkOnSymAddrThreshold ≠ 0)
    (h : ex.evalPossibleValuesWithCache expr cs = .ok (ex', values)) :
    (ex'.possibleValuesCache.lookup expr).isSome := by
  unfold evalPossibleValuesWithCache at h
  rw [if_neg hthreshold] at h
  split at h
  · rename_i hentry
    cases h
    rw [hentry]
    rfl
  · dsimp only at h
    split at h
    · cases h
    · cases h
      rw [List.lookup_cons_self]
      rfl

/-- The last two bits of an input. -/
def lowBits : WordExpr := .and (.read ⟨"INPUT", 1⟩ 0) (.const 3)

/-- With a threshold of four values, the second call on the same expression finds them in the
cache and filters them by the constraint that the state has by then. -/
theorem called_transparent_again : ∃ (ex ex' : Executor) (values : List Value),
    (Executor.new Solver.ideal 4 fun _ => none).evalPossibleValuesWithCache lowBits [] =
      .ok (ex, values) ∧
    Called (Executor.new Solver.ideal 4 fun _ => none) ex ∧
    (ex.possibleValuesCache.lookup lowBits).isSome ∧
    ex.evalPossibleValuesWithCache lowBits [.ule lowBits (.const 1)] =
      .ok (ex', (evalPossibleValues Solver.ideal [.ule lowBits (.const 1)] lowBits (-1)).2) := by
  have howns : (Executor.new Solver.ideal 4 fun _ => none).Owns [] :=
    ⟨⟨fun _ _ => 0, by simp⟩, fun _ h => h⟩
  obtain ⟨ex, hcall⟩ := called_transparent Solver.ideal_exact rfl .start howns lowBits
  have hcalled := Called.call .start howns hcall
  have hinit := (hcalled.remembers Solver.ideal_exact rfl).2.1
  have hcached := evalPossibleValuesWithCache_cached (by decide) hcall
  have howns' : ex.Owns [.ule lowBits (.const 1)] := by
    refine ⟨⟨fun _ _ => 0, fun e he => ?_⟩, fun a _ => ?_⟩
    · obtain rfl := List.mem_singleton.1 he
      decide
    · rw [hinit]
      exact ConstraintSet.sat_nil
  obtain ⟨ex', hcall'⟩ := called_transparent Solver.ideal_exact rfl hcalled howns' lowBits
  exact ⟨ex, ex', _, hcall, hcalled, hcached, hcall'⟩

end Klc3.Executor
