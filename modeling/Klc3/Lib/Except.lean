import Mathlib.Init

/-!
# Computations that may fail

Inversion rules for `Except`, and the rules for a fold whose step may fail.
-/

namespace Except

universe u v

variable {ε : Type u} {α β : Type v}

theorem bind_eq_ok_iff {x : Except ε α} {f : α → Except ε β} {b : β} :
    (x >>= f) = .ok b ↔ ∃ a, x = .ok a ∧ f a = .ok b := by
  cases x with
  | error e => simp [bind, Except.bind]
  | ok a => simp [bind, Except.bind]

theorem bind_eq_error_iff {x : Except ε α} {f : α → Except ε β} {e : ε} :
    (x >>= f) = .error e ↔ x = .error e ∨ ∃ a, x = .ok a ∧ f a = .error e := by
  cases x with
  | error e => simp [bind, Except.bind]
  | ok a => simp [bind, Except.bind]

theorem map_eq_ok_iff {x : Except ε α} {f : α → β} {b : β} :
    f <$> x = .ok b ↔ ∃ a, x = .ok a ∧ f a = b := by
  cases x with
  | error e => simp [Functor.map, Except.map]
  | ok a => simp [Functor.map, Except.map]

/-- A sequence succeeds when its parts do. -/
theorem exists_bind_eq_ok_iff {x : Except ε α} {f : α → Except ε β} :
    (∃ b, (x >>= f) = .ok b) ↔ ∃ a, x = .ok a ∧ ∃ b, f a = .ok b := by
  simp only [bind_eq_ok_iff]
  rw [exists_comm]
  simp only [exists_and_left]

/-- Branches that go on in the same way. -/
theorem ite_bind_eq {c : Prop} [Decidable c] {x y : Except ε α} {f : α → Except ε β} :
    (if c then x >>= f else y >>= f) = (if c then x else y) >>= f := by
  split <;> rfl

@[simp] theorem ok_bind' (a : α) (f : α → Except ε β) : (Except.ok a >>= f) = f a := rfl

@[simp] theorem error_bind' (e : ε) (f : α → Except ε β) :
    ((Except.error e : Except ε α) >>= f) = .error e := rfl

@[simp] theorem pure_eq_ok_iff {a b : α} : (pure a : Except ε α) = .ok b ↔ a = b := by
  simp [pure, Except.pure]

@[simp] theorem throw_ne_ok {e : ε} {b : α} : (throw e : Except ε α) = .ok b ↔ False := by
  simp [throw, throwThe, MonadExceptOf.throw]

@[simp] theorem throw_bind (e : ε) (f : α → Except ε β) :
    ((throw e : Except ε α) >>= f) = throw e := rfl

/-- A fold that succeeds keeps every invariant that its successful steps keep. The
invariant may mention the elements consumed so far, and the step those that are left. -/
theorem foldlM_ok_split {f : β → α → Except ε β} {motive : List α → β → Prop} {xs : List α}
    {init acc' : β} (start : motive [] init)
    (step : ∀ done x rest acc acc', done ++ x :: rest = xs → motive done acc →
      f acc x = .ok acc' → motive (done ++ [x]) acc')
    (h : xs.foldlM f init = .ok acc') : motive xs acc' := by
  suffices aux : ∀ (ys done : List α) (acc : β), done ++ ys = xs → motive done acc →
      ys.foldlM f acc = .ok acc' → motive xs acc' from aux xs [] init rfl start h
  intro ys
  induction ys with
  | nil =>
      intro done acc hsplit hacc hfold
      cases hfold
      rwa [← hsplit, List.append_nil]
  | cons y ys ih =>
      intro done acc hsplit hacc hfold
      rw [List.foldlM_cons, bind_eq_ok_iff] at hfold
      obtain ⟨acc₁, hstep, hrest⟩ := hfold
      have hnext := step done y ys acc acc₁ hsplit hacc hstep
      exact ih (done ++ [y]) acc₁ (by simpa using hsplit) hnext hrest

theorem foldlM_ok_induction {f : β → α → Except ε β} {motive : List α → β → Prop}
    {init : β} (start : motive [] init)
    (step : ∀ done x acc acc', motive done acc → f acc x = .ok acc' → motive (done ++ [x]) acc')
    {xs : List α} {acc' : β} (h : xs.foldlM f init = .ok acc') : motive xs acc' :=
  foldlM_ok_split start (fun done x _ acc acc' _ => step done x acc acc') h

/-- A fold that succeeds keeps what its steps keep at the elements of the list. -/
theorem foldlM_ok_invariant {f : β → α → Except ε β} {P : β → Prop} {xs : List α} {init acc' : β}
    (start : P init) (step : ∀ x ∈ xs, ∀ acc acc', P acc → f acc x = .ok acc' → P acc')
    (h : xs.foldlM f init = .ok acc') : P acc' := by
  refine foldlM_ok_split (motive := fun _ acc => P acc) start ?_ h
  intro done x rest acc acc' hsplit
  exact step x (hsplit ▸ List.mem_append_right done List.mem_cons_self) acc acc'

/-- A fold only fails in the ways its steps fail. -/
theorem foldlM_error {f : β → α → Except ε β} {P : ε → Prop}
    (step : ∀ acc x e, f acc x = .error e → P e) {xs : List α} {init : β} {e : ε}
    (h : xs.foldlM f init = .error e) : P e := by
  induction xs generalizing init with
  | nil => cases h
  | cons x xs ih =>
      rw [List.foldlM_cons, bind_eq_error_iff] at h
      rcases h with hstep | ⟨acc, -, hrest⟩
      · exact step init x e hstep
      · exact ih hrest

/-- A fold succeeds when each of its steps does under an invariant. The invariant may
mention the elements consumed so far, and the step those that are left. -/
theorem foldlM_isOk_split {f : β → α → Except ε β} {motive : List α → β → Prop} {xs : List α}
    {init : β} (start : motive [] init)
    (step : ∀ done x rest acc, done ++ x :: rest = xs → motive done acc →
      ∃ acc', f acc x = .ok acc' ∧ motive (done ++ [x]) acc') :
    ∃ acc', xs.foldlM f init = .ok acc' ∧ motive xs acc' := by
  suffices aux : ∀ (ys done : List α) (acc : β), done ++ ys = xs → motive done acc →
      ∃ acc', ys.foldlM f acc = .ok acc' ∧ motive xs acc' from aux xs [] init rfl start
  intro ys
  induction ys with
  | nil =>
      intro done acc hsplit hacc
      rw [List.append_nil] at hsplit
      exact ⟨acc, rfl, hsplit ▸ hacc⟩
  | cons y ys ih =>
      intro done acc hsplit hacc
      obtain ⟨acc₁, hstep, hacc₁⟩ := step done y ys acc hsplit hacc
      obtain ⟨acc', hrest, hacc'⟩ := ih (done ++ [y]) acc₁ (by simpa using hsplit) hacc₁
      exact ⟨acc', by simp [List.foldlM_cons, hstep, hrest], hacc'⟩

theorem foldlM_isOk {f : β → α → Except ε β} {P : β → Prop} {xs : List α} {init : β}
    (start : P init) (step : ∀ x ∈ xs, ∀ acc, P acc → ∃ acc', f acc x = .ok acc' ∧ P acc') :
    ∃ acc', xs.foldlM f init = .ok acc' ∧ P acc' := by
  refine foldlM_isOk_split (motive := fun _ acc => P acc) start ?_
  intro done x rest acc hsplit
  exact step x (hsplit ▸ List.mem_append_right done List.mem_cons_self) acc

end Except
