import Klc3.Model.PossibleValues
import Klc3.Verification.Solver.Exact
import Mathlib.Data.List.Range
import Mathlib.Data.Set.Card

/-!
# Exactness of the possible values

With an exact solver, `evalPossibleValues` lists, in ascending order, exactly the
values the expression takes under the constraints.
-/

namespace Klc3.PossibleValues

section

variable (solver : Solver) (cs : ConstraintSet) (expr : WordExpr)

/-- The entries for the values among `vals` that the expression takes. -/
def select (vals : List Nat) : List Value :=
  (vals.filter fun val => solver.mayBeTrue cs (ExprBuilder.eq expr (bound val))).map
    fun val => (BitVec.ofNat 16 val, ExprBuilder.eq expr (bound val))

end

variable {solver : Solver} {cs : ConstraintSet} {expr : WordExpr}
variable {maxPossibleValueCount : Int} {result : List Value}

@[simp] theorem select_nil : select solver cs expr [] = [] := rfl

theorem select_append (xs ys : List Nat) :
    select solver cs expr (xs ++ ys) = select solver cs expr xs ++ select solver cs expr ys := by
  simp [select]

theorem select_cons (val : Nat) (vals : List Nat) :
    select solver cs expr (val :: vals) =
      (if solver.mayBeTrue cs (ExprBuilder.eq expr (bound val)) then
        [(BitVec.ofNat 16 val, ExprBuilder.eq expr (bound val))] else []) ++
        select solver cs expr vals := by
  by_cases h : solver.mayBeTrue cs (ExprBuilder.eq expr (bound val)) = true <;>
    simp [select, h]

/-- A search went on from `result` and appended `new`, unless it stopped at the limit. -/
structure Lists (limit : Int) (result new : List Value) (r : Bool × List Value) : Prop where
  list : r.1 = true → r.2 = result ++ new
  unlimited : limit = -1 → r.1 = true
  limited : 0 ≤ limit → (result.length : Int) ≤ limit →
    (r.1 = true ↔ ((result ++ new).length : Int) ≤ limit)

theorem Lists.nothing (limit : Int) (result : List Value) : Lists limit result [] (true, result) :=
  ⟨fun _ => (List.append_nil result).symm, fun _ => rfl, fun _ h => by simpa using h⟩

/-- One search after another that did not stop. -/
theorem Lists.append {limit : Int} {result new new' : List Value} {r r' : Bool × List Value}
    (h : Lists limit result new r) (hr : r.1 = true) (h' : Lists limit r.2 new' r') :
    Lists limit result (new ++ new') r' := by
  rw [h.list hr] at h'
  refine ⟨?_, h'.unlimited, ?_⟩
  · intro hr'
    rw [h'.list hr', List.append_assoc]
  · intro hlimit hstart
    rw [h'.limited hlimit ((h.limited hlimit hstart).1 hr), List.append_assoc]

/-- A search that stops ends the ones after it. -/
theorem Lists.stopped {limit : Int} {result new : List Value} {r : Bool × List Value}
    (h : Lists limit result new r) (hr : r.1 = false) (new' : List Value) :
    Lists limit result (new ++ new') (false, r.2) := by
  refine ⟨fun hr' => absurd hr' Bool.false_ne_true, ?_, ?_⟩
  · intro hlimit
    rw [h.unlimited hlimit] at hr
    cases hr
  · intro hlimit hstart
    have hmore := (h.limited hlimit hstart).not.1 (by simp [hr])
    simp only [Bool.false_eq_true, false_iff, List.length_append] at hmore ⊢
    omega

/-- The loop over a short range appends the possible values of the range, unless it
stops at the limit. -/
theorem evalEach_spec (vals : List Nat) (result : List Value) :
    Lists maxPossibleValueCount result (select solver cs expr vals)
      (evalEach solver cs expr maxPossibleValueCount vals result) := by
  induction vals generalizing result with
  | nil => exact .nothing _ result
  | cons val vals ih =>
      rw [evalEach, select_cons]
      generalize hone : (if solver.mayBeTrue cs (ExprBuilder.eq expr (bound val)) = true then
        [(BitVec.ofNat 16 val, ExprBuilder.eq expr (bound val))] else []) = one
      have hnext : (if solver.mayBeTrue cs (ExprBuilder.eq expr (bound val)) = true then
          result ++ [(BitVec.ofNat 16 val, ExprBuilder.eq expr (bound val))] else result) =
          result ++ one := by
        rw [← hone]
        split <;> simp
      rw [hnext]
      split
      · rename_i hlimit
        refine ⟨fun h => absurd h Bool.false_ne_true, fun h => absurd h hlimit.1, fun _ _ => ?_⟩
        have hmore := hlimit.2
        simp only [Bool.false_eq_true, false_iff, List.length_append] at hmore ⊢
        omega
      · rename_i hlimit
        refine ⟨fun h => by rw [(ih _).list h, List.append_assoc], (ih _).unlimited, ?_⟩
        intro hpos hstart
        have hfits : ((result ++ one).length : Int) ≤ maxPossibleValueCount := by
          by_contra hmore
          exact hlimit ⟨by omega, by omega⟩
        rw [(ih _).limited hpos hfits, List.append_assoc]

/-! ## Ranges -/

variable (solver cs expr) in
/-- All possible values, in ascending order. -/
def possible : List Value :=
  select solver cs expr (List.range 65536)

section Range

variable (exact : solver.Exact)

include exact

theorem mayBeTrue_eq_bound_iff (val : Nat) :
    solver.mayBeTrue cs (ExprBuilder.eq expr (bound val)) = true ↔
      ∃ a, cs.Sat a ∧ expr.eval a = BitVec.ofNat 16 val := by
  simp [Solver.mayBeTrue_iff exact, bound]

theorem mayLieIn_iff {lo hi : Nat} (hhi : hi < 65536) (hle : lo ≤ hi) :
    mayLieIn solver cs expr lo hi = true ↔
      ∃ a, cs.Sat a ∧ lo ≤ (expr.eval a).toNat ∧ (expr.eval a).toNat ≤ hi := by
  have hlo : lo < 65536 := by omega
  simp [mayLieIn, Solver.mayBeTrue_iff exact, bound, BitVec.ule, Nat.mod_eq_of_lt hlo,
    Nat.mod_eq_of_lt hhi]

/-- A range without a possible value contributes nothing. -/
theorem select_eq_nil (vals : List Nat) (hvals : ∀ val ∈ vals, val < 65536)
    (h : ∀ a, cs.Sat a → (expr.eval a).toNat ∉ vals) : select solver cs expr vals = [] := by
  rw [select, List.map_eq_nil_iff, List.filter_eq_nil_iff]
  intro val hval hmay
  obtain ⟨a, ha, heq⟩ := (mayBeTrue_eq_bound_iff exact val).1 hmay
  refine h a ha ?_
  rw [heq, BitVec.toNat_ofNat, Nat.mod_eq_of_lt (hvals val hval)]
  exact hval

variable (cs expr maxPossibleValueCount) in
/-- Halving: the possible values of `[minVal, maxVal]` are appended in order. -/
theorem evalPossibleValuesInRange_spec (n minVal maxVal : Nat) (result : List Value)
    (hn : maxVal < minVal + n) (hmax : maxVal < 65536) :
    Lists maxPossibleValueCount result
      (select solver cs expr (List.range' minVal (maxVal + 1 - minVal)))
      (evalPossibleValuesInRange solver cs expr maxPossibleValueCount n minVal maxVal result) := by
  induction n generalizing minVal maxVal result with
  | zero =>
      have hempty : maxVal + 1 - minVal = 0 := by omega
      rw [hempty]
      exact .nothing _ result
  | succ n ih =>
      unfold evalPossibleValuesInRange
      split
      · have hempty : maxVal + 1 - minVal = 0 := by omega
        rw [hempty]
        exact .nothing _ result
      · rename_i hle
        split
        · have hlen : maxVal - minVal + 1 = maxVal + 1 - minVal := by omega
          rw [← List.range'_eq_map_range, hlen]
          exact evalEach_spec _ _
        · rename_i hwide
          have hlow := ih minVal ((minVal + maxVal) / 2) result (by omega) (by omega)
          have hhigh := fun result =>
            ih ((minVal + maxVal) / 2 + 1) maxVal result (by omega) hmax
          have hsplit : List.range' minVal (maxVal + 1 - minVal) =
              List.range' minVal ((minVal + maxVal) / 2 + 1 - minVal) ++
                List.range' ((minVal + maxVal) / 2 + 1)
                  (maxVal + 1 - ((minVal + maxVal) / 2 + 1)) := by
            have hstart : (minVal + maxVal) / 2 + 1 =
                minVal + ((minVal + maxVal) / 2 + 1 - minVal) := by omega
            have hlen : maxVal + 1 - minVal = ((minVal + maxVal) / 2 + 1 - minVal) +
                (maxVal + 1 - ((minVal + maxVal) / 2 + 1)) := by omega
            rw [hlen, ← List.range'_append_1, ← hstart]
          rw [hsplit, select_append]
          by_cases hlower : mayLieIn solver cs expr minVal ((minVal + maxVal) / 2) = true
          · simp only [hlower, if_true, Bool.not_true, Bool.false_or]
            cases hflag : (evalPossibleValuesInRange solver cs expr maxPossibleValueCount n minVal
                ((minVal + maxVal) / 2) result).1 with
            | false =>
                simp only [Bool.not_false, if_true]
                exact hlow.stopped hflag _
            | true =>
                simp only [Bool.not_true, Bool.false_eq_true, if_false]
                split
                · exact hlow.append hflag (hhigh _)
                · rename_i hupper
                  have hnone : select solver cs expr (List.range' ((minVal + maxVal) / 2 + 1)
                      (maxVal + 1 - ((minVal + maxVal) / 2 + 1))) = [] := by
                    refine select_eq_nil exact _ (fun val hval => ?_) fun a ha hmem => ?_
                    · rw [List.mem_range'_1] at hval
                      omega
                    · rw [List.mem_range'_1] at hmem
                      exact hupper ((mayLieIn_iff exact hmax (by omega)).2
                        ⟨a, ha, by omega, by omega⟩)
                  rw [hnone]
                  exact hlow.append hflag (.nothing _ _)
          · have hnone : select solver cs expr
                (List.range' minVal ((minVal + maxVal) / 2 + 1 - minVal)) = [] := by
              refine select_eq_nil exact _ (fun val hval => ?_) fun a ha hmem => ?_
              · rw [List.mem_range'_1] at hval
                omega
              · rw [List.mem_range'_1] at hmem
                exact hlower ((mayLieIn_iff exact (by omega) (by omega)).2
                  ⟨a, ha, by omega, by omega⟩)
            simp only [hlower, hnone, Bool.not_true, Bool.not_false, Bool.true_or, if_true,
              Bool.false_eq_true, if_false, List.nil_append]
            exact hhigh result

/-! ## Bounds -/

variable (cs expr) in
theorem usefulBits_le : usefulBits solver cs expr ≤ 16 ∧
    ∀ a, cs.Sat a → (expr.eval a).toNat < 2 ^ usefulBits solver cs expr := by
  have hp : ∀ mid, mid < 16 →
      (solver.mustBeTrue cs (ExprBuilder.eq (ExprBuilder.lshr expr (bound mid)) (.const 0)) = true ↔
        ∀ a, cs.Sat a → (expr.eval a).toNat < 2 ^ mid) := by
    intro mid hmid
    rw [Solver.mustBeTrue_iff exact]
    refine forall₂_congr fun a _ => ?_
    simp only [ExprBuilder.eval_eq, ExprBuilder.eval_lshr, bound, WordExpr.eval, beq_iff_eq]
    rw [← BitVec.toNat_inj, BitVec.ushiftRight_eq', BitVec.toNat_ushiftRight, BitVec.toNat_ofNat,
      Nat.mod_eq_of_lt (by omega), Nat.shiftRight_eq_div_pow]
    simp [Nat.div_eq_zero_iff]
  have hspec : Search.IsLowerBound _ 0 16 (usefulBits solver cs expr) :=
    Search.lowerBound_spec (fun x y hxy hy hx => by
      rw [hp y hy]
      intro a ha
      exact lt_of_lt_of_le ((hp x (by omega)).1 hx a ha) (Nat.pow_le_pow_right (by omega) hxy))
      (Nat.zero_le _)
  refine ⟨hspec.ge, fun a ha => ?_⟩
  by_cases hlt : usefulBits solver cs expr < 16
  · exact (hp _ hlt).1 (hspec.true_at hlt) a ha
  · have heq : usefulBits solver cs expr = 16 := by
      have := hspec.ge
      omega
    rw [heq]
    exact (expr.eval a).isLt

variable (cs expr) in
theorem maxValueOfNBits_bound : maxValueOfNBits (usefulBits solver cs expr) < 65536 ∧
    ∀ a, cs.Sat a → (expr.eval a).toNat ≤ maxValueOfNBits (usefulBits solver cs expr) := by
  obtain ⟨hbits, hvals⟩ := usefulBits_le cs expr exact
  have hpow : 2 ^ usefulBits solver cs expr ≤ 2 ^ 16 := Nat.pow_le_pow_right (by omega) hbits
  refine ⟨?_, fun a ha => ?_⟩
  · simp only [maxValueOfNBits]
    omega
  · have := hvals a ha
    simp only [maxValueOfNBits]
    omega

omit exact in
private theorem eval_ule_bound {mid : Nat} (hmid : mid < 65536) (a : Assignment) :
    (ExprBuilder.ule expr (bound mid)).eval a = decide ((expr.eval a).toNat ≤ mid) := by
  simp [bound, BitVec.ule, Nat.mod_eq_of_lt hmid]

variable (expr) in
/-- The minimum is a bound that is attained. -/
theorem minValue_spec (hcs : cs.Satisfiable) :
    (∀ a, cs.Sat a → minValue solver cs expr ≤ (expr.eval a).toNat) ∧
    minValue solver cs expr ≤ maxValueOfNBits (usefulBits solver cs expr) ∧
    ∃ a, cs.Sat a ∧ (expr.eval a).toNat = minValue solver cs expr := by
  obtain ⟨hbound, hvals⟩ := maxValueOfNBits_bound cs expr exact
  have hp : ∀ mid, mid < 65536 →
      (solver.mayBeTrue cs (ExprBuilder.ule expr (bound mid)) = true ↔
        ∃ a, cs.Sat a ∧ (expr.eval a).toNat ≤ mid) := by
    intro mid hmid
    simp [Solver.mayBeTrue_iff exact, eval_ule_bound hmid]
  have hspec : Search.IsLowerBound _ 0 _ (minValue solver cs expr) :=
    Search.lowerBound_spec (fun x y hxy hy hx => by
      obtain ⟨a, ha, hle⟩ := (hp x (by omega)).1 hx
      exact (hp y (by omega)).2 ⟨a, ha, by omega⟩) (Nat.zero_le _)
  have hmin : ∀ a, cs.Sat a → minValue solver cs expr ≤ (expr.eval a).toNat := by
    intro a ha
    by_contra hlt
    have hfalse := hspec.false_below (expr.eval a).toNat (Nat.zero_le _) (by omega)
    have htrue := (hp _ (expr.eval a).isLt).2 ⟨a, ha, le_refl _⟩
    rw [hfalse] at htrue
    cases htrue
  refine ⟨hmin, hspec.ge, ?_⟩
  by_cases hlt : minValue solver cs expr < maxValueOfNBits (usefulBits solver cs expr)
  · obtain ⟨a, ha, hle⟩ := (hp _ (by omega)).1 (hspec.true_at hlt)
    exact ⟨a, ha, le_antisymm hle (hmin a ha)⟩
  · obtain ⟨a, ha⟩ := hcs
    have := hvals a ha
    have := hmin a ha
    exact ⟨a, ha, by omega⟩

variable (expr) in
theorem maxValue_spec (hcs : cs.Satisfiable) :
    maxValue solver cs expr < 65536 ∧ minValue solver cs expr ≤ maxValue solver cs expr ∧
    ∀ a, cs.Sat a → (expr.eval a).toNat ≤ maxValue solver cs expr := by
  obtain ⟨hbound, hvals⟩ := maxValueOfNBits_bound cs expr exact
  obtain ⟨-, hle, -⟩ := minValue_spec expr exact hcs
  have hp : ∀ mid, mid < 65536 →
      (solver.mustBeTrue cs (ExprBuilder.ule expr (bound mid)) = true ↔
        ∀ a, cs.Sat a → (expr.eval a).toNat ≤ mid) := by
    intro mid hmid
    simp [Solver.mustBeTrue_iff exact, eval_ule_bound hmid]
  have hspec : Search.IsLowerBound _ _ _ (maxValue solver cs expr) :=
    Search.lowerBound_spec (fun x y hxy hy hx => by
      refine (hp y (by omega)).2 fun a ha => ?_
      exact le_trans ((hp x (by omega)).1 hx a ha) hxy) hle
  have hge := hspec.ge
  refine ⟨by omega, hspec.le, fun a ha => ?_⟩
  by_cases hlt : maxValue solver cs expr < maxValueOfNBits (usefulBits solver cs expr)
  · exact (hp _ (by omega)).1 (hspec.true_at hlt) a ha
  · have := hvals a ha
    omega

/-- Only the values between the bounds count. -/
theorem select_range (lo hi : Nat) (hle : lo ≤ hi) (hhi : hi ≤ 65536)
    (h : ∀ a, cs.Sat a → lo ≤ (expr.eval a).toNat ∧ (expr.eval a).toNat < hi) :
    select solver cs expr (List.range 65536) = select solver cs expr (List.range' lo (hi - lo)) := by
  have hsplit : List.range 65536 =
      List.range' 0 lo ++ (List.range' lo (hi - lo) ++ List.range' hi (65536 - hi)) := by
    have hmid : List.range' lo (hi - lo) ++ List.range' hi (65536 - hi) =
        List.range' lo (65536 - lo) := by
      have hstart : hi = lo + (hi - lo) := by omega
      rw [show 65536 - lo = (hi - lo) + (65536 - hi) by omega, ← List.range'_append_1, ← hstart]
    rw [hmid, List.range_eq_range', show (65536 : Nat) = lo + (65536 - lo) by omega,
      ← List.range'_append_1]
    simp
  have hlow : select solver cs expr (List.range' 0 lo) = [] := by
    refine select_eq_nil exact _ (fun val hval => ?_) fun a ha hmem => ?_
    · rw [List.mem_range'_1] at hval
      omega
    · rw [List.mem_range'_1] at hmem
      have := h a ha
      omega
  have hhigh : select solver cs expr (List.range' hi (65536 - hi)) = [] := by
    refine select_eq_nil exact _ (fun val hval => ?_) fun a ha hmem => ?_
    · rw [List.mem_range'_1] at hval
      omega
    · rw [List.mem_range'_1] at hmem
      have := h a ha
      omega
  rw [hsplit, select_append, select_append, hlow, hhigh]
  simp

variable (expr maxPossibleValueCount) in
/-- `evalPossibleValues` lists exactly the possible values, unless it stops at the limit;
without a limit it never stops early. -/
theorem evalPossibleValues_spec (hcs : cs.Satisfiable) :
    Lists maxPossibleValueCount [] (possible solver cs expr)
      (evalPossibleValues solver cs expr maxPossibleValueCount) := by
  rw [possible]
  obtain ⟨hmin, hminle, a₀, ha₀, hattained⟩ := minValue_spec expr exact hcs
  obtain ⟨hmax, hminmax, hvals⟩ := maxValue_spec expr exact hcs
  unfold evalPossibleValues
  simp only
  split
  · rename_i hmust
    -- every solution gives the minimum, so the list has this one entry
    have hall : ∀ a, cs.Sat a → (expr.eval a).toNat = minValue solver cs expr := by
      intro a ha
      have heval := (Solver.mustBeTrue_iff exact).1 hmust a ha
      simp only [ExprBuilder.eval_eq, bound, WordExpr.eval, beq_iff_eq] at heval
      rw [heval, BitVec.toNat_ofNat, Nat.mod_eq_of_lt (by omega)]
    rw [select_range exact (minValue solver cs expr) (minValue solver cs expr + 1)
      (by omega) (by omega) fun a ha => by rw [hall a ha]; omega]
    have hmay : solver.mayBeTrue cs
        (ExprBuilder.eq expr (bound (minValue solver cs expr))) = true :=
      (mayBeTrue_eq_bound_iff exact _).2 ⟨a₀, ha₀, by rw [← hattained]; simp⟩
    have hone : select solver cs expr (List.range' (minValue solver cs expr)
        (minValue solver cs expr + 1 - minValue solver cs expr)) =
        [(BitVec.ofNat 16 (minValue solver cs expr),
          ExprBuilder.eq expr (bound (minValue solver cs expr)))] := by
      simp [select, hmay]
    rw [hone]
    refine ⟨fun _ => rfl, fun h => by simp [h], fun hpos _ => ?_⟩
    have hne : maxPossibleValueCount ≠ -1 := by omega
    simp [hne]
  · have hrange := evalPossibleValuesInRange_spec cs expr maxPossibleValueCount exact
      (maxValue solver cs expr - minValue solver cs expr + 1)
      (minValue solver cs expr) (maxValue solver cs expr) [] (by omega) hmax
    rw [select_range exact (minValue solver cs expr) (maxValue solver cs expr + 1)
      (by omega) (by omega) fun a ha => ⟨hmin a ha, by have := hvals a ha; omega⟩]
    exact hrange

end Range

/-! ## The list of all possible values -/

theorem mem_possible_iff (exact : solver.Exact) {v : Word} {c : BoolExpr} :
    (v, c) ∈ possible solver cs expr ↔
      (∃ a, cs.Sat a ∧ expr.eval a = v) ∧ c = ExprBuilder.eq expr (.const v) := by
  simp only [possible, select, List.mem_map, List.mem_filter, List.mem_range, Prod.mk.injEq,
    mayBeTrue_eq_bound_iff exact]
  constructor
  · rintro ⟨val, ⟨-, a, ha, heq⟩, rfl, rfl⟩
    exact ⟨⟨a, ha, heq⟩, rfl⟩
  · rintro ⟨⟨a, ha, rfl⟩, rfl⟩
    exact ⟨(expr.eval a).toNat, ⟨(expr.eval a).isLt, a, ha, by simp⟩, by simp, by simp [bound]⟩

/-- The values of the list are pairwise different. -/
theorem possible_nodup : ((possible solver cs expr).map Prod.fst).Nodup := by
  simp only [possible, select, List.map_map]
  refine List.Nodup.map_on ?_ (List.nodup_range.filter _)
  intro x hx y hy heq
  simp only [List.mem_filter, List.mem_range] at hx hy
  simp only [Function.comp] at heq
  have := congrArg BitVec.toNat heq
  simpa [Nat.mod_eq_of_lt hx.1, Nat.mod_eq_of_lt hy.1] using this

theorem possible_ne_nil (exact : solver.Exact) (hcs : cs.Satisfiable) :
    possible solver cs expr ≠ [] := by
  obtain ⟨a, ha⟩ := hcs
  exact List.ne_nil_of_mem ((mem_possible_iff exact).2 ⟨⟨a, ha, rfl⟩, rfl⟩)

/-! ## Exactness -/

variable (cs expr) in
/-- The values that the expression takes under the constraints. -/
def feasible : Set Word :=
  {v | ∃ a, cs.Sat a ∧ expr.eval a = v}

/-- The feasible values in ascending order, each with the equation that selects it. -/
structure IsListing (cs : ConstraintSet) (expr : WordExpr) (values : List Value) : Prop where
  ascending : (values.map Prod.fst).Pairwise (· < ·)
  mem_iff : ∀ v c, (v, c) ∈ values ↔ v ∈ feasible cs expr ∧ c = ExprBuilder.eq expr (.const v)

theorem isListing_possible (exact : solver.Exact) : IsListing cs expr (possible solver cs expr) where
  ascending := by
    simp only [possible, select, List.map_map]
    have hrange : (List.range 65536).Pairwise fun x y => x < y ∧ y < 65536 := by
      refine List.pairwise_lt_range.imp_of_mem ?_
      intro x y _ hy hxy
      exact ⟨hxy, List.mem_range.1 hy⟩
    refine (hrange.filter _).map _ ?_
    rintro x y ⟨hxy, hy⟩
    simp only [Function.comp, BitVec.lt_def, BitVec.toNat_ofNat]
    omega
  mem_iff v c := mem_possible_iff exact

theorem IsListing.length_eq {values : List Value} (h : IsListing cs expr values) :
    values.length = (feasible cs expr).ncard := by
  have hnodup : (values.map Prod.fst).Nodup := h.ascending.imp fun hlt => BitVec.ne_of_lt hlt
  have hset : ((values.map Prod.fst).toFinset : Set Word) = feasible cs expr := by
    ext v
    rw [List.coe_toFinset, Set.mem_ofPred_eq, List.mem_map]
    constructor
    · rintro ⟨⟨v, c⟩, hmem, rfl⟩
      exact ((h.mem_iff v c).1 hmem).1
    · intro hv
      exact ⟨(v, _), (h.mem_iff v _).2 ⟨hv, rfl⟩, rfl⟩
  rw [← hset, Set.ncard_coe_finset, List.toFinset_card_of_nodup hnodup, List.length_map]

/-- `evalPossibleValues` is exact: it lists the feasible values, and with a limit it gives up
exactly when there are more. -/
theorem evalPossibleValues_exact (exact : solver.Exact) (hcs : cs.Satisfiable) (expr : WordExpr) :
    ((evalPossibleValues solver cs expr (-1)).1 = true ∧
      IsListing cs expr (evalPossibleValues solver cs expr (-1)).2) ∧
    ∀ m : Int, 1 ≤ m →
      ((evalPossibleValues solver cs expr m).1 = false ↔ m < (feasible cs expr).ncard) ∧
      ((evalPossibleValues solver cs expr m).1 = true →
        IsListing cs expr (evalPossibleValues solver cs expr m).2) := by
  have hlisting : IsListing cs expr (possible solver cs expr) := isListing_possible exact
  have hspec := fun limit => evalPossibleValues_spec expr limit exact hcs
  have hlists : ∀ limit, (evalPossibleValues solver cs expr limit).1 = true →
      IsListing cs expr (evalPossibleValues solver cs expr limit).2 := by
    intro limit htrue
    rw [(hspec limit).list htrue, List.nil_append]
    exact hlisting
  refine ⟨⟨(hspec (-1)).unlimited rfl, hlists (-1) ((hspec (-1)).unlimited rfl)⟩, fun m hm => ?_⟩
  refine ⟨?_, hlists m⟩
  have hlimited := (hspec m).limited (by omega) (by simpa using by omega)
  rw [List.nil_append] at hlimited
  rw [← hlisting.length_eq, ← Bool.not_eq_true, hlimited, not_le]

/-- An input without constraints takes more than one value. -/
theorem evalPossibleValues_exact_input :
    ((evalPossibleValues Solver.ideal [] (.read ⟨"INPUT", 1⟩ 0) (-1)).1 = true ∧
      IsListing [] (.read ⟨"INPUT", 1⟩ 0)
        (evalPossibleValues Solver.ideal [] (.read ⟨"INPUT", 1⟩ 0) (-1)).2) ∧
    ((evalPossibleValues Solver.ideal [] (.read ⟨"INPUT", 1⟩ 0) 1).1 = false ↔
      1 < (feasible [] (.read ⟨"INPUT", 1⟩ 0)).ncard) := by
  have hcs : ConstraintSet.Satisfiable [] := ⟨fun _ _ => 0, by simp⟩
  obtain ⟨hall, hlimit⟩ := evalPossibleValues_exact Solver.ideal_exact hcs (.read ⟨"INPUT", 1⟩ 0)
  exact ⟨hall, by simpa using (hlimit 1 le_rfl).1⟩

end Klc3.PossibleValues
