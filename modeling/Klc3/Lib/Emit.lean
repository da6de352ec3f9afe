import Mathlib.Init

/-!
# Computations that emit

A value together with the list of what was emitted on the way to it.
-/

universe u v

structure Emit (ω : Type u) (α : Type v) where
  val : α
  out : List ω

namespace Emit

variable {ω : Type u} {α β : Type v}

instance : Monad (Emit ω) where
  pure a := ⟨a, []⟩
  bind x f := ⟨(f x.val).val, x.out ++ (f x.val).out⟩

@[simp] theorem pure_val (a : α) : (pure a : Emit ω α).val = a := rfl

@[simp] theorem pure_out (a : α) : (pure a : Emit ω α).out = [] := rfl

@[simp] theorem bind_val (x : Emit ω α) (f : α → Emit ω β) : (x >>= f).val = (f x.val).val := rfl

@[simp] theorem bind_out (x : Emit ω α) (f : α → Emit ω β) :
    (x >>= f).out = x.out ++ (f x.val).out := rfl

end Emit
