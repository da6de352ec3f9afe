import Mathlib.Data.List.Basic

/-!
# Deposits

Values with the mark of their owner are put into cells. A mark stays until something else
is put into its cell or somebody else reads it.
-/

namespace Deposit

universe u v

variable {α : Type u} {β : Type v}

/-- An access to a cell: by a reader, if it is one that owns marks, or with the mark that
is put there, if any. -/
inductive Access (α : Type u) (β : Type v) where
  | load (addr : α) (reader : Option β)
  | store (addr : α) (mark : Option β)

variable [DecidableEq α] [DecidableEq β]

/-- The marks after an access. -/
def Access.apply : Access α β → (α → Option β) → α → Option β
  | .load x reader, marks, y => if y = x ∧ reader ≠ marks y then none else marks y
  | .store x mark, marks, y => if y = x then mark else marks y

/-- The marks after a history, which has the latest access first. -/
def replay (marks : α → Option β) (history : List (Access α β)) : α → Option β :=
  history.foldr Access.apply marks

omit [DecidableEq α] [DecidableEq β] in
/-- The last value put into `x` had the mark `b`, and nobody else has read it since. -/
def Pending (history : List (Access α β)) (x : α) (b : β) : Prop :=
  ∃ since before, history = since ++ .store x (some b) :: before ∧
    (∀ mark, .store x mark ∉ since) ∧ ∀ reader, .load x reader ∈ since → reader = some b

variable {marks : α → Option β} {history history' : List (Access α β)} {x : α} {b : β}

@[simp] theorem replay_nil : replay marks [] = marks := rfl

@[simp] theorem replay_cons (a : Access α β) :
    replay marks (a :: history) = a.apply (replay marks history) := rfl

theorem replay_load (reader : Option β) (y : α) : replay marks [.load x reader] y =
    if y = x ∧ reader ≠ marks y then none else marks y := rfl

theorem replay_store (mark : Option β) (y : α) : replay marks [.store x mark] y =
    if y = x then mark else marks y := rfl

theorem replay_append : replay marks (history' ++ history) = replay (replay marks history) history' :=
  List.foldr_append

/-- What becomes of a cell depends on its own mark only. -/
theorem replay_congr {marks' : α → Option β} (h : marks x = marks' x) :
    replay marks history x = replay marks' history x := by
  induction history with
  | nil => exact h
  | cons a history ih =>
      rw [replay_cons, replay_cons]
      cases a <;> simp only [Access.apply, ih]

omit [DecidableEq α] [DecidableEq β] in
theorem pending_cons {a : Access α β} : Pending (a :: history) x b ↔
    a = .store x (some b) ∨ Pending history x b ∧ (∀ mark, a ≠ .store x mark) ∧
      ∀ reader, a = .load x reader → reader = some b := by
  constructor
  · rintro ⟨since, before, heq, hstore, hload⟩
    cases since with
    | nil =>
        cases heq
        exact .inl rfl
    | cons a' since =>
        cases heq
        refine .inr ⟨⟨since, before, rfl, fun mark h => hstore mark (List.mem_cons_of_mem _ h),
          fun reader h => hload reader (List.mem_cons_of_mem _ h)⟩, ?_, ?_⟩
        · rintro mark rfl
          exact hstore mark List.mem_cons_self
        · rintro reader rfl
          exact hload reader List.mem_cons_self
  · rintro (rfl | ⟨⟨since, before, rfl, hstore, hload⟩, hne, hreader⟩)
    · exact ⟨[], history, rfl, by simp, by simp⟩
    · refine ⟨a :: since, before, rfl, fun mark h => ?_, fun reader h => ?_⟩
      · rcases List.mem_cons.1 h with h | h
        · exact hne mark h.symm
        · exact hstore mark h
      · rcases List.mem_cons.1 h with h | h
        · exact hreader reader h.symm
        · exact hload reader h

/-- Without marks at the start, those after a history are the ones that are pending. -/
theorem replay_eq_some_iff : replay (fun _ => none) history x = some b ↔ Pending history x b := by
  induction history with
  | nil =>
      refine iff_of_false (by simp) ?_
      rintro ⟨since, before, heq, -⟩
      simp at heq
  | cons a history ih =>
      rw [replay_cons, pending_cons, ← ih]
      cases a with
      | load y reader =>
          by_cases hy : x = y
          · subst hy
            by_cases hreader : reader = replay (fun _ => none) history x
            · simp [Access.apply, hreader]
            · simp only [Access.apply, true_and, ne_eq, hreader, not_false_eq_true, if_true,
                reduceCtorEq, false_or, false_iff, implies_true, not_and, not_forall]
              intro hmark
              exact ⟨reader, rfl, fun h => hreader (h.trans hmark.symm)⟩
          · simp [Access.apply, hy, Ne.symm hy]
      | store y mark =>
          by_cases hy : x = y
          · subst hy
            simp [Access.apply]
          · simp [Access.apply, hy, Ne.symm hy]

end Deposit
