import Mathlib.Data.Set.Insert
import Mathlib.Logic.Relation

/-!
# Marking by depth-first search

A search that marks a vertex, and then what comes after it, skipping what is marked
already. The rules say what each part of such a search achieves; together they give that
the marks are those of the reachable vertices.
-/

universe u

variable {α : Type u}

/-- From the marks `M`, the search from the vertices `vs` has come to the marks `M'`. -/
structure Spreads (succ : α → List α) (M : Set α) (vs : List α) (M' : Set α) : Prop where
  mono : M ⊆ M'
  starts : ∀ v ∈ vs, v ∈ M'
  closed : ∀ w ∈ M', w ∉ M → ∀ x ∈ succ w, x ∈ M'
  sound : ∀ w ∈ M', w ∉ M → ∃ v ∈ vs, Relation.ReflTransGen (fun a b => b ∈ succ a) v w

namespace Spreads

variable {succ : α → List α} {M M₁ M' : Set α} {v : α} {vs ws : List α}

theorem nil (M : Set α) : Spreads succ M [] M where
  mono := subset_rfl
  starts _ h := absurd h List.not_mem_nil
  closed _ h hnot := absurd h hnot
  sound _ h hnot := absurd h hnot

/-- A search from no vertex marks nothing. -/
theorem eq_of_nil (h : Spreads succ M [] M') : M' = M := by
  refine Set.Subset.antisymm (fun w hw => ?_) h.mono
  by_contra hnot
  obtain ⟨v, hv, -⟩ := h.sound w hw hnot
  exact absurd hv List.not_mem_nil

theorem seen (h : v ∈ M) : Spreads succ M [v] M where
  mono := subset_rfl
  starts w hw := by
    obtain rfl := List.mem_singleton.1 hw
    exact h
  closed _ h hnot := absurd h hnot
  sound _ h hnot := absurd h hnot

/-- A vertex that is marked first, and then everything behind it. -/
theorem visit (h : Spreads succ (insert v M) (succ v) M') : Spreads succ M [v] M' where
  mono := (Set.subset_insert v M).trans h.mono
  starts w hw := by
    obtain rfl := List.mem_singleton.1 hw
    exact h.mono (Set.mem_insert w M)
  closed w hw hnot x hx := by
    by_cases heq : w = v
    · subst heq
      exact h.starts x hx
    · exact h.closed w hw (fun hmem => hmem.elim heq hnot) x hx
  sound w hw hnot := by
    refine ⟨v, List.mem_singleton.2 rfl, ?_⟩
    by_cases heq : w = v
    · rw [heq]
    · obtain ⟨u, hu, hreach⟩ := h.sound w hw fun hmem => hmem.elim heq hnot
      exact .head hu hreach

theorem append (h : Spreads succ M vs M₁) (h' : Spreads succ M₁ ws M') :
    Spreads succ M (vs ++ ws) M' where
  mono := h.mono.trans h'.mono
  starts v hv := (List.mem_append.1 hv).elim (fun hv => h'.mono (h.starts v hv)) (h'.starts v)
  closed w hw hnot x hx := by
    by_cases hmid : w ∈ M₁
    · exact h'.mono (h.closed w hmid hnot x hx)
    · exact h'.closed w hw hmid x hx
  sound w hw hnot := by
    by_cases hmid : w ∈ M₁
    · obtain ⟨v, hv, hreach⟩ := h.sound w hmid hnot
      exact ⟨v, List.mem_append_left _ hv, hreach⟩
    · obtain ⟨v, hv, hreach⟩ := h'.sound w hw hmid
      exact ⟨v, List.mem_append_right _ hv, hreach⟩

/-- A search from nothing marks what is reachable. -/
theorem mem_iff (h : Spreads succ ∅ vs M') (w : α) :
    w ∈ M' ↔ ∃ v ∈ vs, Relation.ReflTransGen (fun a b => b ∈ succ a) v w := by
  refine ⟨fun hw => h.sound w hw (Set.notMem_empty w), ?_⟩
  rintro ⟨v, hv, hreach⟩
  induction hreach with
  | refl => exact h.starts v hv
  | tail _ hstep ih => exact h.closed _ ih (Set.notMem_empty _) _ hstep

end Spreads
