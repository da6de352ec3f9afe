import Mathlib.Init
import Mathlib.Data.List.Basic

/-!
# Regular expressions

Regular expressions over named classes of letters, their derivatives, and the longest
match at the start of a text.
-/

universe u v

inductive Regex (κ : Type u) where
  | empty
  | eps
  | cls (k : κ)
  | cat (r s : Regex κ)
  | alt (r s : Regex κ)
  | star (r : Regex κ)
deriving DecidableEq

namespace Regex

variable {κ : Type u} {α : Type v}

def opt (r : Regex κ) : Regex κ := alt eps r

def plus (r : Regex κ) : Regex κ := cat r (star r)

section Language

variable (letters : κ → α → Bool)

/-- The words that an expression denotes. -/
def Matches : Regex κ → List α → Prop
  | empty, _ => False
  | eps, w => w = []
  | cls k, w => ∃ a, letters k a = true ∧ w = [a]
  | cat r s, w => ∃ u v, r.Matches u ∧ s.Matches v ∧ w = u ++ v
  | alt r s, w => r.Matches w ∨ s.Matches w
  | star r, w => ∃ parts : List (List α), (∀ u ∈ parts, r.Matches u) ∧ w = parts.flatten

@[simp] theorem matches_opt {r : Regex κ} {w : List α} :
    (opt r).Matches letters w ↔ w = [] ∨ r.Matches letters w :=
  Iff.rfl

theorem matches_star_nil (r : Regex κ) : (star r).Matches letters [] :=
  ⟨[], by simp⟩

theorem matches_star_append {r : Regex κ} {u v : List α} (hu : r.Matches letters u)
    (hv : (star r).Matches letters v) : (star r).Matches letters (u ++ v) := by
  obtain ⟨parts, hparts, rfl⟩ := hv
  refine ⟨u :: parts, ?_, rfl⟩
  intro p hp
  rcases List.mem_cons.1 hp with rfl | hp
  · exact hu
  · exact hparts p hp

/-- A word of letters of one class. -/
theorem matches_star_cls {k : κ} {w : List α} :
    (star (cls k)).Matches letters w ↔ ∀ a ∈ w, letters k a = true := by
  constructor
  · rintro ⟨parts, hparts, rfl⟩ a ha
    obtain ⟨u, hu, hau⟩ := List.mem_flatten.1 ha
    obtain ⟨b, hb, rfl⟩ := hparts u hu
    rw [List.mem_singleton.1 hau]
    exact hb
  · intro h
    induction w with
    | nil => exact matches_star_nil letters _
    | cons a w ih =>
      have ha : (cls k).Matches letters [a] := ⟨a, h a List.mem_cons_self, rfl⟩
      have hw := ih fun b hb => h b (List.mem_cons_of_mem a hb)
      exact matches_star_append letters ha hw

theorem matches_plus_cls {k : κ} {w : List α} :
    (plus (cls k)).Matches letters w ↔ w ≠ [] ∧ ∀ a ∈ w, letters k a = true := by
  constructor
  · rintro ⟨u, v, ⟨a, ha, rfl⟩, hv, rfl⟩
    refine ⟨by simp, ?_⟩
    intro b hb
    rcases List.mem_cons.1 hb with rfl | hb
    · exact ha
    · exact (matches_star_cls letters).1 hv b hb
  · rintro ⟨hne, h⟩
    obtain ⟨a, w, rfl⟩ := List.exists_cons_of_ne_nil hne
    refine ⟨[a], w, ⟨a, h a List.mem_cons_self, rfl⟩, ?_, rfl⟩
    exact (matches_star_cls letters).2 fun b hb => h b (List.mem_cons_of_mem a hb)

/-- A word of a sequence that starts with `a`. -/
theorem matches_cat_cons {r s : Regex κ} {a : α} {w : List α} :
    (cat r s).Matches letters (a :: w) ↔
      (∃ u v, r.Matches letters (a :: u) ∧ s.Matches letters v ∧ w = u ++ v) ∨
        (r.Matches letters [] ∧ s.Matches letters (a :: w)) := by
  constructor
  · rintro ⟨u, v, hu, hv, huv⟩
    cases u with
    | nil =>
      right
      rw [List.nil_append] at huv
      exact ⟨hu, huv ▸ hv⟩
    | cons b u =>
      left
      obtain ⟨rfl, rfl⟩ := List.cons.inj huv
      exact ⟨u, v, hu, hv, rfl⟩
  · rintro (⟨u, v, hu, hv, rfl⟩ | ⟨hr, hs⟩)
    · exact ⟨a :: u, v, hu, hv, rfl⟩
    · exact ⟨[], a :: w, hr, hs, rfl⟩

theorem matches_star_cons {r : Regex κ} {a : α} {w : List α} :
    (star r).Matches letters (a :: w) ↔
      ∃ u v, r.Matches letters (a :: u) ∧ (star r).Matches letters v ∧ w = u ++ v := by
  constructor
  · rintro ⟨parts, hparts, hw⟩
    induction parts with
    | nil => simp at hw
    | cons u parts ih =>
      have hu := hparts u List.mem_cons_self
      have hrest : ∀ p ∈ parts, r.Matches letters p := fun p hp =>
        hparts p (List.mem_cons_of_mem u hp)
      cases u with
      | nil => exact ih hrest (by simpa using hw)
      | cons b u =>
        rw [List.flatten_cons, List.cons_append, List.cons.injEq] at hw
        obtain ⟨rfl, rfl⟩ := hw
        exact ⟨u, parts.flatten, hu, ⟨parts, hrest, rfl⟩, rfl⟩
  · rintro ⟨u, v, hu, hv, rfl⟩
    exact matches_star_append letters hu hv

def nullable : Regex κ → Bool
  | empty => false
  | eps => true
  | cls _ => false
  | cat r s => r.nullable && s.nullable
  | alt r s => r.nullable || s.nullable
  | star _ => true

theorem nullable_iff (r : Regex κ) : r.nullable = true ↔ r.Matches letters [] := by
  induction r with
  | empty => simp [nullable, Matches]
  | eps => simp [nullable, Matches]
  | cls k => simp [nullable, Matches]
  | cat r s ihr ihs =>
    simp only [nullable, Bool.and_eq_true, ihr, ihs, Matches, List.nil_eq, List.append_eq_nil_iff]
    constructor
    · rintro ⟨hr, hs⟩
      exact ⟨[], [], hr, hs, rfl, rfl⟩
    · rintro ⟨u, v, hr, hs, rfl, rfl⟩
      exact ⟨hr, hs⟩
  | alt r s ihr ihs => simp [nullable, ihr, ihs, Matches]
  | star r ih => simp [nullable, matches_star_nil]

end Language

/-! ## Derivatives -/

section Derivative

variable [DecidableEq κ]

/-- A sequence, simplified. -/
def mkCat (r s : Regex κ) : Regex κ :=
  if r = empty then empty
  else if r = eps then s
  else cat r s

/-- A choice, simplified. -/
def mkAlt (r s : Regex κ) : Regex κ :=
  if r = empty then s
  else if s = empty then r
  else if r = s then r
  else alt r s

variable (letters : κ → α → Bool)

/-- What has to follow the letter `a`. -/
def deriv (a : α) : Regex κ → Regex κ
  | empty => empty
  | eps => empty
  | cls k => if letters k a then eps else empty
  | cat r s =>
    if r.nullable then mkAlt (mkCat (r.deriv a) s) (s.deriv a) else mkCat (r.deriv a) s
  | alt r s => mkAlt (r.deriv a) (s.deriv a)
  | star r => mkCat (r.deriv a) (star r)

/-- The length of the longest match at the start of a text, which continues a match of `n`
letters. -/
def longestFrom (r : Regex κ) (n : Nat) (best : Option Nat) : List α → Option Nat
  | [] => if r.nullable then some n else best
  | a :: w =>
    if r = empty then best
    else (r.deriv letters a).longestFrom (n + 1) (if r.nullable then some n else best) w

def longest (r : Regex κ) (w : List α) : Option Nat :=
  r.longestFrom letters 0 none w

theorem matches_mkCat {r s : Regex κ} {w : List α} :
    (mkCat r s).Matches letters w ↔ (cat r s).Matches letters w := by
  unfold mkCat
  split
  · rename_i hr
    simp [hr, Matches]
  · split
    · rename_i hr
      simp [hr, Matches]
    · rfl

theorem matches_mkAlt {r s : Regex κ} {w : List α} :
    (mkAlt r s).Matches letters w ↔ r.Matches letters w ∨ s.Matches letters w := by
  unfold mkAlt
  split
  · rename_i hr
    simp [hr, Matches]
  · split
    · rename_i hs
      simp [hs, Matches]
    · split
      · rename_i hrs
        simp [hrs]
      · rfl

theorem matches_deriv {r : Regex κ} {a : α} {w : List α} :
    (r.deriv letters a).Matches letters w ↔ r.Matches letters (a :: w) := by
  induction r generalizing w with
  | empty => simp [deriv, Matches]
  | eps => simp [deriv, Matches]
  | cls k =>
    by_cases hk : letters k a
    · simp [deriv, Matches, hk]
    · simp [deriv, Matches, hk]
  | cat r s ihr ihs =>
    rw [matches_cat_cons, ← nullable_iff]
    by_cases hr : r.nullable
    · simp only [deriv, hr, if_true, matches_mkAlt, matches_mkCat, Matches, ihr, ihs, true_and]
    · simp [deriv, hr, matches_mkCat, Matches, ihr]
  | alt r s ihr ihs => simp [deriv, matches_mkAlt, ihr, ihs, Matches]
  | star r ih =>
    rw [matches_star_cons]
    simp only [deriv, matches_mkCat, Matches, ih]

/-- A word matches when nothing has to follow it. -/
theorem matches_iff_nullable {r : Regex κ} {w : List α} :
    r.Matches letters w ↔ (w.foldl (fun s a => s.deriv letters a) r).nullable = true := by
  induction w generalizing r with
  | nil => exact (nullable_iff letters r).symm
  | cons a w ih => rw [List.foldl_cons, ← ih, matches_deriv]

instance decidableMatches (r : Regex κ) (w : List α) : Decidable (r.Matches letters w) :=
  decidable_of_iff _ (matches_iff_nullable letters).symm

/-! ## The longest match -/

/-- What `longestFrom` returns: either the best match so far, when there is none in the
rest of the text, or the longest one. -/
theorem longestFrom_spec (r : Regex κ) (n : Nat) (best : Option Nat) (w : List α) :
    (r.longestFrom letters n best w = best ∧
        ∀ k ≤ w.length, ¬r.Matches letters (w.take k)) ∨
      ∃ k ≤ w.length, r.longestFrom letters n best w = some (n + k) ∧
        r.Matches letters (w.take k) ∧
        ∀ j ≤ w.length, r.Matches letters (w.take j) → j ≤ k := by
  induction w generalizing r n best with
  | nil =>
    unfold longestFrom
    by_cases hr : r.nullable
    · right
      refine ⟨0, (Nat.le_refl _), by simp [hr], (nullable_iff letters r).1 hr, ?_⟩
      intro j hj _
      exact hj
    · left
      refine ⟨by simp [hr], ?_⟩
      intro k _
      rw [List.take_nil, ← nullable_iff]
      exact hr
  | cons a w ih =>
    unfold longestFrom
    split
    · rename_i hr
      left
      refine ⟨rfl, ?_⟩
      intro k _
      simp [hr, Matches]
    · rcases ih (r.deriv letters a) (n + 1) (if r.nullable then some n else best) with
        ⟨heq, hnone⟩ | ⟨k, hk, heq, hmatch, hmax⟩
      · rw [heq]
        by_cases hr : r.nullable
        · right
          refine ⟨0, Nat.zero_le _, by simp [hr], (nullable_iff letters r).1 hr, ?_⟩
          intro j hj hmatch
          cases j with
          | zero => exact (Nat.le_refl _)
          | succ j =>
            rw [List.take_succ_cons, ← matches_deriv] at hmatch
            exact absurd hmatch (hnone j (Nat.le_of_succ_le_succ hj))
        · left
          refine ⟨by simp [hr], ?_⟩
          intro j hj hmatch
          cases j with
          | zero => exact hr ((nullable_iff letters r).2 hmatch)
          | succ j =>
            rw [List.take_succ_cons, ← matches_deriv] at hmatch
            exact hnone j (Nat.le_of_succ_le_succ hj) hmatch
      · right
        refine ⟨k + 1, Nat.succ_le_succ hk, ?_, ?_, ?_⟩
        · rw [heq, Nat.add_right_comm, Nat.add_assoc]
        · rw [List.take_succ_cons, ← matches_deriv]
          exact hmatch
        · intro j hj hmatch
          cases j with
          | zero => exact Nat.zero_le _
          | succ j =>
            rw [List.take_succ_cons, ← matches_deriv] at hmatch
            exact Nat.succ_le_succ (hmax j (Nat.le_of_succ_le_succ hj) hmatch)

theorem longest_eq_some {r : Regex κ} {w : List α} {n : Nat} (h : r.longest letters w = some n) :
    n ≤ w.length ∧ r.Matches letters (w.take n) ∧
      ∀ j ≤ w.length, r.Matches letters (w.take j) → j ≤ n := by
  rcases longestFrom_spec letters r 0 none w with ⟨heq, -⟩ | ⟨k, hk, heq, hmatch, hmax⟩
  · rw [longest, heq] at h
    cases h
  · rw [longest, heq, Nat.zero_add] at h
    cases h
    exact ⟨hk, hmatch, hmax⟩

end Derivative

end Regex
