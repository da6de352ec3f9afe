import Mathlib.Data.Set.Piecewise
import Mathlib.Logic.Function.DependsOn

/-!
# Independent constraints

Constraints on the values of variables that share no variable with a goal do not restrict
it, as long as they can be met at all.
-/

namespace Independence

variable {ι : Type*} {α : ι → Type*} {κ : Type*}

open Classical in
/-- A solution of the constraints over `s` and one of the constraints over the other variables
make a solution of both. -/
theorem piecewise_solves {c : κ → ((i : ι) → α i) → Prop} {inside rest : List κ} {s : Set ι}
    (hover : ∀ k ∈ inside, DependsOn (c k) s) (hrest : ∀ k ∈ rest, DependsOn (c k) sᶜ)
    {a b : (i : ι) → α i} (ha : ∀ k ∈ inside, c k a) (hb : ∀ k ∈ rest, c k b) :
    ∀ k ∈ inside ++ rest, c k (s.piecewise a b) := by
  intro k hk
  rcases List.mem_append.1 hk with hk | hk
  · have hsame : c k (s.piecewise a b) = c k a :=
      hover k hk fun i hi => Set.piecewise_eq_of_mem s a b hi
    rw [hsame]
    exact ha k hk
  · have hsame : c k (s.piecewise a b) = c k b :=
      hrest k hk fun i hi => Set.piecewise_eq_of_notMem s a b hi
    rw [hsame]
    exact hb k hk

/-- What holds of all solutions of the constraints over the variables of a goal holds of the
solutions of all constraints, and conversely. -/
theorem forall_solutions_iff {c : κ → ((i : ι) → α i) → Prop} {goal : ((i : ι) → α i) → Prop}
    {all inside rest : List κ} {s : Set ι} (hall : ∀ k, k ∈ all ↔ k ∈ inside ∨ k ∈ rest)
    (hover : ∀ k ∈ inside, DependsOn (c k) s) (hrest : ∀ k ∈ rest, DependsOn (c k) sᶜ)
    (hgoal : DependsOn goal s) (hsat : ∃ a, ∀ k ∈ all, c k a) :
    (∀ a, (∀ k ∈ inside, c k a) → goal a) ↔ ∀ a, (∀ k ∈ all, c k a) → goal a := by
  classical
  obtain ⟨b, hb⟩ := hsat
  constructor
  · intro h a ha
    exact h a fun k hk => ha k ((hall k).2 (.inl hk))
  · intro h a ha
    have hsolves := piecewise_solves hover hrest ha fun k hk => hb k ((hall k).2 (.inr hk))
    have hsame : goal (s.piecewise a b) = goal a :=
      hgoal fun i hi => Set.piecewise_eq_of_mem s a b hi
    rw [← hsame]
    apply h
    intro k hk
    exact hsolves k (List.mem_append.2 ((hall k).1 hk))

end Independence
