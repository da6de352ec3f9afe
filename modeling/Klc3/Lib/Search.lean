import Mathlib.Order.Basic

/-!
# Binary search

The loop `while (lo < hi)` that halves an interval to find where a monotone
predicate becomes true.
-/

namespace Search

/-- One probe per iteration. The first argument bounds the number of iterations;
`hi - lo` of them are always enough. -/
def lowerBoundFrom (p : Nat → Bool) : Nat → Nat → Nat → Nat
  | 0, lo, _ => lo
  | n + 1, lo, hi =>
    if lo < hi then
      let mid := lo + (hi - lo) / 2
      if p mid then lowerBoundFrom p n lo mid else lowerBoundFrom p n (mid + 1) hi
    else lo

def lowerBound (p : Nat → Bool) (lo hi : Nat) : Nat :=
  lowerBoundFrom p (hi - lo) lo hi

/-- The predicate stays true once it is true, below `hi`. -/
def MonoBelow (p : Nat → Bool) (hi : Nat) : Prop :=
  ∀ x y, x ≤ y → y < hi → p x = true → p y = true

/-- `r` is the first place in `[lo, hi)` where `p` holds, or `hi`. -/
structure IsLowerBound (p : Nat → Bool) (lo hi r : Nat) : Prop where
  le : lo ≤ r
  ge : r ≤ hi
  false_below : ∀ x, lo ≤ x → x < r → p x = false
  true_at : r < hi → p r = true

variable {p : Nat → Bool}

theorem lowerBoundFrom_spec {n lo hi : Nat} (hmono : MonoBelow p hi) (hle : lo ≤ hi)
    (hn : hi - lo ≤ n) : IsLowerBound p lo hi (lowerBoundFrom p n lo hi) := by
  induction n generalizing lo hi with
  | zero =>
      have heq : lo = hi := by omega
      subst heq
      exact ⟨Nat.le_refl _, Nat.le_refl _, fun x hx hxr => absurd hxr (by simp [lowerBoundFrom]; omega),
        fun h => absurd h (Nat.lt_irrefl _)⟩
  | succ n ih =>
      unfold lowerBoundFrom
      split
      · rename_i hlt
        -- the midpoint lies in the interval, so either half is shorter
        have hmid : lo + (hi - lo) / 2 < hi := by omega
        simp only
        split
        · rename_i hp
          have hrec := @ih lo (lo + (hi - lo) / 2)
            (fun x y hxy hy => hmono x y hxy (by omega)) (by omega) (by omega)
          refine ⟨hrec.le, by have := hrec.ge; omega, hrec.false_below, fun _ => ?_⟩
          by_cases hr : lowerBoundFrom p n lo (lo + (hi - lo) / 2) < lo + (hi - lo) / 2
          · exact hrec.true_at hr
          · have heq : lowerBoundFrom p n lo (lo + (hi - lo) / 2) = lo + (hi - lo) / 2 := by
              have := hrec.ge
              omega
            rw [heq]
            exact hp
        · rename_i hp
          simp only [Bool.not_eq_true] at hp
          have hrec := @ih (lo + (hi - lo) / 2 + 1) hi hmono (by omega) (by omega)
          refine ⟨by have := hrec.le; omega, hrec.ge, fun x hx hxr => ?_, hrec.true_at⟩
          by_cases hxm : x ≤ lo + (hi - lo) / 2
          · by_contra hpx
            have := hmono x _ hxm hmid (by simpa using hpx)
            simp [hp] at this
          · exact hrec.false_below x (by omega) hxr
      · exact ⟨Nat.le_refl _, hle, fun x _ _ => by omega, fun h => by omega⟩

theorem lowerBound_spec {lo hi : Nat} (hmono : MonoBelow p hi) (hle : lo ≤ hi) :
    IsLowerBound p lo hi (lowerBound p lo hi) :=
  lowerBoundFrom_spec hmono hle (Nat.le_refl _)

end Search
