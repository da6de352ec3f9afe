import Mathlib.Data.List.Pairwise
import Mathlib.Logic.ExistsUnique
import Mathlib.Order.Fin.Basic

/-!
# Splitting a predicate

A predicate is split by a list of predicates when these cover it, do not overlap and
all have a solution. A part may in turn be replaced by what splits it.
-/

universe u

/-- The predicates of `parts` split `p`. -/
structure Splits {α : Type u} (p : α → Prop) (parts : List (α → Prop)) : Prop where
  covers : ∀ x, p x ↔ ∃ q ∈ parts, q x
  disjoint : parts.Pairwise fun q q' => ∀ x, q x → ¬ q' x
  inhabited : ∀ q ∈ parts, ∃ x, q x

namespace Splits

variable {α : Type u} {p q : α → Prop} {parts qs before after : List (α → Prop)}

theorem single (h : ∃ x, p x) : Splits p [p] := by
  refine ⟨by simp, by simp, ?_⟩
  simpa using h

/-- Every solution belongs to exactly one position of the list. -/
theorem existsUnique (h : Splits p parts) {x : α} (hx : p x) :
    ∃! i : Fin parts.length, parts.get i x := by
  obtain ⟨q, hq, hqx⟩ := (h.covers x).1 hx
  obtain ⟨i, rfl⟩ := List.get_of_mem hq
  refine ⟨i, hqx, fun j hj => ?_⟩
  have hne := List.pairwise_iff_get.1 h.disjoint
  rcases lt_trichotomy i j with hlt | heq | hgt
  · exact absurd hj (hne i j hlt x hqx)
  · exact heq.symm
  · exact absurd hqx (hne j i hgt x hj)

/-- One part is taken out and replaced, at the end, by what splits it. -/
theorem refine_part (h : Splits p (before ++ q :: after)) (hq : Splits q qs) :
    Splits p (before ++ after ++ qs) where
  covers x := by
    rw [h.covers]
    simp only [List.mem_append, List.mem_cons]
    constructor
    · rintro ⟨q', hq' | rfl | hq', hx⟩
      · exact ⟨q', .inl (.inl hq'), hx⟩
      · obtain ⟨q'', hmem, hx⟩ := (hq.covers x).1 hx
        exact ⟨q'', .inr hmem, hx⟩
      · exact ⟨q', .inl (.inr hq'), hx⟩
    · rintro ⟨q', (hq' | hq') | hq', hx⟩
      · exact ⟨q', .inl hq', hx⟩
      · exact ⟨q', .inr (.inr hq'), hx⟩
      · exact ⟨q, .inr (.inl rfl), (hq.covers x).2 ⟨q', hq', hx⟩⟩
  disjoint := by
    have hdisj := h.disjoint
    simp only [List.pairwise_append, List.pairwise_cons, List.mem_cons, forall_eq_or_imp] at hdisj
    obtain ⟨hbefore, ⟨hqafter, hafter⟩, hcross⟩ := hdisj
    have hin : ∀ q' ∈ qs, ∀ x, q' x → q x := fun q' hmem x hx => (hq.covers x).2 ⟨q', hmem, hx⟩
    simp only [List.pairwise_append, List.mem_append]
    refine ⟨⟨hbefore, hafter, fun b hb => (hcross b hb).2⟩, hq.disjoint, ?_⟩
    rintro b (hb | hb) c hc x hbx hcx
    · exact (hcross b hb).1 x hbx (hin c hc x hcx)
    · exact hqafter b hb x (hin c hc x hcx) hbx
  inhabited q' hq' := by
    simp only [List.mem_append] at hq'
    rcases hq' with (hq' | hq') | hq'
    · exact h.inhabited q' (by simp [hq'])
    · exact h.inhabited q' (by simp [hq'])
    · exact hq.inhabited q' hq'

end Splits
