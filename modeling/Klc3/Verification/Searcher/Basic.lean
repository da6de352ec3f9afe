import Mathlib.Data.List.Perm.Basic
import Klc3.Model.PruningSearcher

/-!
# What the searchers hold

Every searcher moves states between containers without losing or copying one. Only
`RandomPickingSearcher` still remembers a state that it has handed out.
-/

namespace Klc3

open List

/-! ## The searchers of `Searcher.h` -/

namespace Searcher

variable {searcher searcher' : Searcher} {s : State} {states : List State}

theorem fetch_spec (h : searcher.fetch = some (s, searcher')) :
    searcher.normalStates ~ s :: searcher'.normalStates ∧
      searcher'.completedStates = searcher.completedStates := by
  cases searcher with
  | simpleFILO normal done =>
      cases normal with
      | nil => cases h
      | cons t rest =>
          cases h
          exact ⟨.refl _, rfl⟩
  | prioritizedFILO s0 s1 done =>
      cases s0 with
      | cons t rest =>
          cases h
          exact ⟨.refl _, rfl⟩
      | nil =>
          cases s1 with
          | nil => cases h
          | cons t rest =>
              cases h
              exact ⟨.refl _, rfl⟩

theorem fetch_eq_none (h : searcher.fetch = none) : searcher.normalStates = [] := by
  cases searcher with
  | simpleFILO normal done =>
      cases normal with
      | nil => rfl
      | cons t rest => cases h
  | prioritizedFILO s0 s1 done =>
      cases s0 with
      | cons t rest => cases h
      | nil =>
          cases s1 with
          | nil => rfl
          | cons t rest => cases h

theorem pushOne_spec (searcher : Searcher) (s : State) :
    (searcher.pushOne s).normalStates ~
      searcher.normalStates ++ (if s.status = .normal then [s] else []) ∧
    (searcher.pushOne s).completedStates =
      searcher.completedStates ++ (if s.status = .normal then [] else [s]) := by
  cases searcher with
  | simpleFILO normal done =>
      simp only [pushOne]
      split
      · exact ⟨(perm_append_singleton s normal).symm, by simp [completedStates]⟩
      · exact ⟨by simp [normalStates], rfl⟩
  | prioritizedFILO s0 s1 done =>
      simp only [pushOne]
      split
      · refine ⟨?_, by split <;> simp [completedStates]⟩
        split
        · exact (perm_append_singleton s (s0 ++ s1)).symm
        · exact perm_middle.trans (perm_append_singleton s (s0 ++ s1)).symm
      · exact ⟨by simp [normalStates], rfl⟩

theorem push_spec (searcher : Searcher) (states : List State) :
    (searcher.push states).normalStates ~
      searcher.normalStates ++ states.filter (fun s => s.status = .normal) ∧
    (searcher.push states).completedStates =
      searcher.completedStates ++ states.filter (fun s => s.status ≠ .normal) := by
  induction states generalizing searcher with
  | nil => simp [push]
  | cons s rest ih =>
      obtain ⟨hnormal, hdone⟩ := searcher.pushOne_spec s
      obtain ⟨hnormal', hdone'⟩ := ih (searcher.pushOne s)
      refine ⟨hnormal'.trans ?_, hdone'.trans ?_⟩
      · refine (hnormal.append_right _).trans (.of_eq ?_)
        by_cases hs : s.status = .normal <;> simp [hs]
      · rw [hdone]
        by_cases hs : s.status = .normal <;> simp [hs]

end Searcher

namespace BasicSearcher

variable {b b' : BasicSearcher} {s : State} {states : List State} {rand : Nat}

/-- The state that a `RandomPickingSearcher` remembers. -/
def picked : BasicSearcher → Option State
  | randomPicking pickedState _ _ => pickedState
  | _ => none

/-- The normal states apart from the remembered one. -/
def others : BasicSearcher → List State
  | randomPicking _ otherNormalState _ => otherNormalState
  | b => b.normalStates

theorem normalStates_eq (b : BasicSearcher) : b.normalStates = b.others ++ b.picked.toList := by
  cases b <;> simp [normalStates, others, picked]

theorem swapPop_perm {rest : List State} {id : Nat} (h : swapPop states id = some (s, rest)) :
    states ~ s :: rest := by
  unfold swapPop at h
  split at h
  · rename_i t last hget hlast
    cases h
    obtain ⟨front, rfl⟩ := getLast?_eq_some_iff.1 hlast
    rcases Nat.lt_or_ge id front.length with hid | hid
    · rw [getElem?_append_left hid] at hget
      rw [set_append_left _ _ hid, dropLast_concat]
      -- the last state takes the place of the one that is taken out
      have hsplit : front = front.take id ++ s :: front.drop (id + 1) := by
        obtain ⟨hlt, rfl⟩ := List.getElem?_eq_some_iff.1 hget
        simp
      have hset : front.set id last = front.take id ++ last :: front.drop (id + 1) := by
        rw [set_eq_take_append_cons_drop, if_pos hid]
      rw [hset]
      calc front ++ [last] ~ last :: front := perm_append_singleton last front
        _ ~ last :: s :: (front.take id ++ front.drop (id + 1)) := by
            rw [perm_cons]
            conv_lhs => rw [hsplit]
            exact perm_middle
        _ ~ s :: last :: (front.take id ++ front.drop (id + 1)) := Perm.swap s last _
        _ ~ s :: (front.take id ++ last :: front.drop (id + 1)) :=
            perm_middle.symm.cons s
    · have hid' : id = front.length := by
        obtain ⟨hlt, -⟩ := List.getElem?_eq_some_iff.1 hget
        simp at hlt
        omega
      subst hid'
      rw [getElem?_concat_length] at hget
      cases hget
      simp only [set_append_right _ _ (Nat.le_refl _), Nat.sub_self, set_cons_zero,
        dropLast_concat]
      exact perm_append_singleton s front
  · cases h

theorem swapPop_eq_none {n : Nat} (h : swapPop states (n % states.length) = none) :
    states = [] := by
  cases states with
  | nil => rfl
  | cons t rest =>
      have hlt : n % (t :: rest).length < (t :: rest).length := Nat.mod_lt _ (by simp)
      rw [swapPop, List.getElem?_eq_getElem hlt, getLast?_cons] at h
      cases h

/-- A fetch takes one state out, but a `RandomPickingSearcher` remembers it. -/
theorem fetch_spec (h : b.fetch rand = some (s, b')) :
    b.normalStates ~ s :: b'.others ∧ (b'.picked = none ∨ b'.picked = some s) ∧
      b'.completedStates = b.completedStates := by
  cases b with
  | filo searcher =>
      obtain ⟨⟨t, searcher'⟩, hfetch, h⟩ := Option.map_eq_some_iff.1 h
      cases h
      obtain ⟨hperm, hdone⟩ := Searcher.fetch_spec hfetch
      exact ⟨hperm, .inl rfl, hdone⟩
  | simpleFIFO normal done =>
      cases normal with
      | nil => cases h
      | cons t rest =>
          cases h
          exact ⟨.refl _, .inl rfl, rfl⟩
  | randomPicking pickedState others done =>
      cases pickedState with
      | some t =>
          cases h
          exact ⟨perm_append_singleton s others, .inr rfl, rfl⟩
      | none =>
          obtain ⟨⟨t, rest⟩, hpop, h⟩ := Option.map_eq_some_iff.1 h
          cases h
          refine ⟨?_, .inr rfl, rfl⟩
          simp only [normalStates, Option.toList_none, append_nil]
          exact swapPop_perm hpop

theorem fetch_eq_none (h : b.fetch rand = none) : b.normalStates = [] := by
  cases b with
  | filo searcher => exact Searcher.fetch_eq_none (Option.map_eq_none_iff.1 h)
  | simpleFIFO normal done =>
      cases normal with
      | nil => rfl
      | cons t rest => cases h
  | randomPicking pickedState others done =>
      cases pickedState with
      | some t => cases h
      | none =>
          have hnil := swapPop_eq_none (Option.map_eq_none_iff.1 h)
          simp [normalStates, hnil]

/-- The loop of `RandomPickingSearcher::push`, with what was put into `pickedState` so
far. At most one of the states is the one picked before. -/
theorem foldl_pushOneRandom (last p : Option State) (others done : List State)
    (hnodup : (states.map State.uid).Nodup)
    (hp : p.isSome → ∀ s ∈ states, last.map State.uid ≠ some s.uid) :
    (states.foldl (pushOneRandom last) (randomPicking p others done)).normalStates ~
      others ++ p.toList ++ states.filter (fun s => s.status = .normal) ∧
    (states.foldl (pushOneRandom last) (randomPicking p others done)).completedStates =
      done ++ states.filter (fun s => s.status ≠ .normal) := by
  induction states generalizing p others done with
  | nil => simp [normalStates, completedStates]
  | cons s rest ih =>
      have hrest : (rest.map State.uid).Nodup := (nodup_cons.1 hnodup).2
      have hnew : ∀ t ∈ rest, s.uid ≠ t.uid := fun t ht heq =>
        (nodup_cons.1 hnodup).1 (heq ▸ mem_map_of_mem ht)
      simp only [foldl_cons]
      by_cases hs : s.status = .normal
      · by_cases hlast : last.map State.uid = some s.uid
        · have hnone : p = none := by
            cases p with
            | none => rfl
            | some t => exact absurd hlast (hp rfl s mem_cons_self)
          subst hnone
          obtain ⟨hnormal, hdone⟩ := ih (some s) others done hrest (by
            intro _ t ht heq
            exact hnew t ht (Option.some.inj (hlast.symm.trans heq)))
          simp only [pushOneRandom, hs, hlast, if_true]
          exact ⟨hnormal.trans (.of_eq (by simp [hs])), hdone.trans (by simp [hs])⟩
        · obtain ⟨hnormal, hdone⟩ := ih p (others ++ [s]) done hrest
            fun hsome t ht => hp hsome t (mem_cons_of_mem _ ht)
          simp only [pushOneRandom, hs, hlast, if_true, if_false]
          refine ⟨hnormal.trans ?_, hdone.trans (by simp [hs])⟩
          simp only [hs, decide_true, filter_cons_of_pos, append_assoc]
          refine Perm.append_left others ?_
          rw [singleton_append]
          exact perm_middle.symm
      · obtain ⟨hnormal, hdone⟩ := ih p others (done ++ [s]) hrest
          fun hsome t ht => hp hsome t (mem_cons_of_mem _ ht)
        simp only [pushOneRandom, hs, if_false]
        exact ⟨hnormal.trans (.of_eq (by simp [hs])), hdone.trans (by simp [hs])⟩

/-- A push keeps all states but the remembered one and adds the `NORMAL` ones. -/
theorem push_spec (b : BasicSearcher) (hnodup : (states.map State.uid).Nodup) :
    (b.push states).normalStates ~ b.others ++ states.filter (fun s => s.status = .normal) ∧
    (b.push states).completedStates =
      b.completedStates ++ states.filter (fun s => s.status ≠ .normal) := by
  cases b with
  | filo searcher => exact searcher.push_spec states
  | simpleFIFO normal done => exact ⟨.refl _, rfl⟩
  | randomPicking pickedState others done =>
      obtain ⟨hnormal, hdone⟩ := foldl_pushOneRandom pickedState none others done hnodup (by simp)
      rw [Option.toList_none, append_nil] at hnormal
      exact ⟨hnormal, hdone⟩

@[simp] theorem eraseCompleted_spec (b : BasicSearcher) (s : State) :
    (b.eraseCompleted s).others = b.others ∧ (b.eraseCompleted s).picked = b.picked ∧
    (b.eraseCompleted s).completedStates =
      b.completedStates.filter (fun t => t.uid ≠ s.uid) := by
  rcases b with (_ | _) | _ | _ <;> exact ⟨rfl, rfl, rfl⟩

end BasicSearcher

end Klc3
