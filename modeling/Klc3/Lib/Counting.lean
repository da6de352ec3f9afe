import Klc3.Lib.Except
import Mathlib.Data.List.Basic
import Mathlib.Data.List.Range

/-!
# Counting loops

Folds over the numbers below a bound in which a step may fail.
-/

namespace Except

variable {ε : Type u} {β : Type v}

theorem foldlM_congr {α : Type w} {f g : β → α → Except ε β} {xs : List α} (init : β)
    (h : ∀ x ∈ xs, ∀ acc, f acc x = g acc x) : xs.foldlM f init = xs.foldlM g init := by
  induction xs generalizing init with
  | nil => rfl
  | cons x xs ih =>
      rw [List.foldlM_cons, List.foldlM_cons, h x List.mem_cons_self]
      refine congrArg (_ >>= ·) (funext fun acc => ?_)
      exact ih acc fun y hy => h y (List.mem_cons_of_mem x hy)

/-- Two nested loops over the numbers below a bound are one. -/
theorem foldlM_range_mul (f : β → Nat → Nat → Except ε β) (n : Nat) {w : Nat} (hw : 0 < w)
    (init : β) :
    (List.range n).foldlM (fun acc i => (List.range w).foldlM (fun acc j => f acc i j) acc) init =
      (List.range (n * w)).foldlM (fun acc k => f acc (k / w) (k % w)) init := by
  induction n with
  | zero => rw [Nat.zero_mul]; rfl
  | succ n ih =>
      rw [List.range_succ, List.foldlM_append, ih, Nat.succ_mul, List.range_add,
        List.foldlM_append]
      refine congrArg (_ >>= ·) (funext fun acc => ?_)
      simp only [List.foldlM_cons, List.foldlM_nil, bind_pure, List.foldlM_map]
      apply foldlM_congr
      intro j hj acc
      have hlt := List.mem_range.1 hj
      rw [Nat.mul_comm n w, Nat.mul_add_div hw, Nat.div_eq_of_lt hlt, Nat.mul_add_mod,
        Nat.mod_eq_of_lt hlt, Nat.add_zero]

theorem foldlM_range_isOk {f : β → Nat → Except ε β} {P : Nat → β → Prop} {n : Nat} {b : β}
    (start : P 0 b)
    (step : ∀ k < n, ∀ acc, P k acc → ∃ acc', f acc k = .ok acc' ∧ P (k + 1) acc') :
    ∃ acc', (List.range n).foldlM f b = .ok acc' ∧ P n acc' := by
  induction n with
  | zero => exact ⟨b, rfl, start⟩
  | succ n ih =>
      obtain ⟨acc, hfold, hacc⟩ := ih fun k hk => step k (Nat.lt_succ_of_lt hk)
      obtain ⟨acc', hstep, hacc'⟩ := step n (Nat.lt_succ_self n) acc hacc
      refine ⟨acc', ?_, hacc'⟩
      rw [List.range_succ, List.foldlM_append, hfold, ok_bind', List.foldlM_cons, hstep, ok_bind']
      rfl

/-- A loop that comes to its end has passed each of its numbers. -/
theorem foldlM_range_step {f : β → Nat → Except ε β} {P : Nat → β → Prop} {n : Nat} {init r : β}
    (start : P 0 init)
    (step : ∀ k < n, ∀ acc acc', P k acc → f acc k = .ok acc' → P (k + 1) acc')
    (h : (List.range n).foldlM f init = .ok r) :
    P n r ∧ ∀ k < n, ∃ acc acc', P k acc ∧ f acc k = .ok acc' := by
  induction n generalizing r with
  | zero =>
      cases h
      exact ⟨start, fun k hk => absurd hk (Nat.not_lt_zero k)⟩
  | succ n ih =>
      rw [List.range_succ, List.foldlM_append, bind_eq_ok_iff] at h
      obtain ⟨acc, hfold, hlast⟩ := h
      rw [List.foldlM_cons, bind_eq_ok_iff] at hlast
      obtain ⟨acc', hstep, hnil⟩ := hlast
      cases hnil
      obtain ⟨hacc, hbefore⟩ := ih (fun k hk => step k (Nat.lt_succ_of_lt hk)) hfold
      refine ⟨step n (Nat.lt_succ_self n) acc r hacc hstep, fun k hk => ?_⟩
      by_cases hkn : k = n
      · subst hkn
        exact ⟨acc, r, hacc, hstep⟩
      · exact hbefore k (by omega)

end Except
