import Mathlib.Data.List.Forall2

/-!
# Lists related element by element

What `List.Forall₂` says about mapped lists and about single elements.
-/

namespace List.Forall₂

universe u v w

variable {α : Type u} {β : Type v} {γ : Type w} {R : α → β → Prop} {l : List α} {l' : List β}

/-- Maps that agree on related elements give the same list. -/
theorem map_eq_map {f : α → γ} {g : β → γ} (h : Forall₂ R l l') (hfg : ∀ a b, R a b → f a = g b) :
    l.map f = l'.map g := by
  induction h with
  | nil => rfl
  | cons hR _ ih => rw [map_cons, map_cons, hfg _ _ hR, ih]

theorem exists_left (h : Forall₂ R l l') {b : β} (hb : b ∈ l') : ∃ a ∈ l, R a b := by
  induction h with
  | nil => cases hb
  | cons hR _ ih =>
      rcases mem_cons.1 hb with rfl | hb
      · exact ⟨_, mem_cons_self, hR⟩
      · obtain ⟨a, ha, hR⟩ := ih hb
        exact ⟨a, mem_cons_of_mem _ ha, hR⟩

/-- The last element of one list is related to the last one of the other. -/
theorem concat_left {a : α} (h : Forall₂ R (l ++ [a]) l') :
    ∃ front b, l' = front ++ [b] ∧ Forall₂ R l front ∧ R a b := by
  induction l generalizing l' with
  | nil =>
      cases h with
      | cons hR htail =>
          cases htail
          exact ⟨[], _, rfl, .nil, hR⟩
  | cons x l ih =>
      cases h with
      | cons hR htail =>
          obtain ⟨front, b, rfl, hfront, hab⟩ := ih htail
          exact ⟨_ :: front, b, rfl, .cons hR hfront, hab⟩

end List.Forall₂
