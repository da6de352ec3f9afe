import Klc3.Lib.Except
import Mathlib.Logic.Relation

/-!
# Loops that may fail

A `while` loop over an explicit state, bounded by a number of iterations. `next`
returns `none` when the loop is left.
-/

namespace Loop

universe u v

variable {ε : Type u} {σ : Type v}

/-- At most the given number of iterations; `none` when they do not suffice. -/
def run (next : σ → Except ε (Option σ)) : Nat → σ → Except ε (Option σ)
  | 0, _ => pure none
  | n + 1, s => do
    match ← next s with
    | none => pure (some s)
    | some s' => run next n s'

/-- The states that a loop passes through. -/
def Reaches (next : σ → Except ε (Option σ)) : σ → σ → Prop :=
  Relation.ReflTransGen fun s s' => next s = .ok (some s')

variable {next : σ → Except ε (Option σ)} {motive : σ → Prop} {s s' : σ}

theorem run_succ {n : Nat} (h : next s = .ok (some s')) : run next (n + 1) s = run next n s' := by
  rw [run, h]
  rfl

/-- A loop keeps every invariant of its body. -/
theorem Reaches.invariant (h : Reaches next s s') (start : motive s)
    (step : ∀ s s', motive s → next s = .ok (some s') → motive s') : motive s' := by
  induction h with
  | refl => exact start
  | tail _ hstep ih => exact step _ _ ih hstep

/-- A loop that ends has passed through its last state, in which it is left. -/
theorem reaches_of_run {n : Nat} (h : run next n s = .ok (some s')) :
    Reaches next s s' ∧ next s' = .ok none := by
  induction n generalizing s with
  | zero => cases h
  | succ n ih =>
      obtain ⟨r, hnext, hrest⟩ := Except.bind_eq_ok_iff.1 h
      cases r with
      | none =>
          cases hrest
          exact ⟨.refl, hnext⟩
      | some s₁ =>
          obtain ⟨hreach, hend⟩ := ih hrest
          exact ⟨.head hnext hreach, hend⟩

/-- The invariant rule for a loop that ends. -/
theorem run_invariant {n : Nat} (h : run next n s = .ok (some s')) (start : motive s)
    (step : ∀ s s', motive s → next s = .ok (some s') → motive s') : motive s' ∧ next s' = .ok none :=
  let ⟨hreach, hend⟩ := reaches_of_run h
  ⟨hreach.invariant start step, hend⟩

end Loop
