import Klc3.Lib.Spread
import Mathlib.Data.List.Nodup

/-!
# The order of a depth-first search

A search as a derivation over the list of the vertices that it has met, the last one first.
-/

universe u

variable {α : Type u}

/-- From the vertices `s`, the search for what is behind `vs` comes to `t`. -/
inductive Dfs (succ : α → List α) : List α → List α → List α → Prop
  | nil {s : List α} : Dfs succ s [] s
  | seen {v : α} {s vs t : List α} (hseen : v ∈ s) (hrest : Dfs succ s vs t) :
      Dfs succ s (v :: vs) t
  | visit {v : α} {s vs t u : List α} (hnew : v ∉ s) (hbelow : Dfs succ (v :: s) (succ v) t)
      (hrest : Dfs succ t vs u) : Dfs succ s (v :: vs) u

namespace Dfs

variable {succ : α → List α} {v : α} {s t t' u vs ws : List α}

theorem append (h : Dfs succ s vs t) (h' : Dfs succ t ws u) : Dfs succ s (vs ++ ws) u := by
  induction h with
  | nil => exact h'
  | seen hseen _ ih => exact .seen hseen (ih h')
  | visit hnew hbelow _ _ ih => exact .visit hnew hbelow (ih h')

/-- There is only one depth-first order. -/
theorem unique (h : Dfs succ s vs t) (h' : Dfs succ s vs t') : t = t' := by
  induction h generalizing t' with
  | nil =>
      cases h'
      rfl
  | seen hseen _ ih =>
      cases h' with
      | seen _ hrest => exact ih hrest
      | visit hnew => exact absurd hseen hnew
  | visit hnew _ _ ihbelow ih =>
      cases h' with
      | seen hseen => exact absurd hseen hnew
      | visit _ hbelow hrest =>
          obtain rfl := ihbelow hbelow
          exact ih hrest

/-- The search only adds to what it has met. -/
theorem suffix (h : Dfs succ s vs t) : s <:+ t := by
  induction h with
  | nil => exact List.suffix_refl _
  | seen _ _ ih => exact ih
  | visit _ _ _ ihbelow ih => exact (List.suffix_cons _ _).trans (ihbelow.trans ih)

/-- Every vertex is met once. -/
theorem nodup (h : Dfs succ s vs t) (hs : s.Nodup) : t.Nodup := by
  induction h with
  | nil => exact hs
  | seen _ _ ih => exact ih hs
  | visit hnew _ _ ihbelow ih => exact ih (ihbelow (List.nodup_cons.2 ⟨hnew, hs⟩))

/-- The order of a search is about the vertices that the search spreads to. -/
theorem spreads (h : Dfs succ s vs t) : Spreads succ {w | w ∈ s} vs {w | w ∈ t} := by
  induction h with
  | nil => exact .nil _
  | @seen v s vs t hseen _ ih => exact (Spreads.seen (M := {w | w ∈ s}) hseen).append ih
  | @visit v s vs t u hnew _ _ ihbelow ih =>
      have hinsert : {w | w ∈ v :: s} = insert v {w | w ∈ s} := by
        ext w
        simp
      rw [hinsert] at ihbelow
      exact ihbelow.visit.append ih

end Dfs
