import Mathlib.Data.List.Basic
import Mathlib.Logic.Function.Basic
import Mathlib.Logic.Relation
import Mathlib.Order.MinMax

/-!
# Strongly connected components by Tarjan's algorithm

The search as a derivation over its states, and the invariant that makes the components that it
closes the strongly connected ones.
-/

universe u

variable {α : Type u}

namespace Tarjan

/-- The state of a search. A vertex gets its number when it is seen and a root when its component
is closed; `blocks` are the roots of components with more than one vertex. -/
@[ext]
structure State (α : Type u) where
  clock : Nat
  seen : α → Prop
  pre : α → Nat
  low : α → Nat
  root : α → Option α
  stack : List α
  blocks : List α

namespace State

variable [DecidableEq α]

/-- A new vertex is numbered and pushed. -/
def enter (s : State α) (v : α) : State α where
  clock := s.clock + 1
  seen := fun x => x = v ∨ s.seen x
  pre := Function.update s.pre v (s.clock + 1)
  low := Function.update s.low v (s.clock + 1)
  root := Function.update s.root v none
  stack := v :: s.stack
  blocks := s.blocks

def lower (s : State α) (v : α) (n : Nat) : State α :=
  { s with low := Function.update s.low v (min (s.low v) n) }

/-- The component of `v`, itself and what is above it on the stack, is closed. -/
def close (s : State α) (v : α) (top rest : List α) : State α where
  clock := s.clock
  seen := s.seen
  pre := s.pre
  low := s.low
  root := fun x => if x = v ∨ x ∈ top then some v else s.root x
  stack := rest
  blocks := if top = [] then s.blocks else v :: s.blocks

end State

/-- A vertex is visited, or the rest of its successors is scanned. -/
inductive Call (α : Type u) where
  | visit (v : α)
  | scan (v : α) (ws : List α)

/-- When all successors of `v` are scanned, its component may be complete. -/
inductive Finish [DecidableEq α] (v : α) (s : State α) : State α → Prop
  | keep (hlow : s.low v ≠ s.pre v) : Finish v s s
  | close {top rest : List α} (hlow : s.low v = s.pre v) (hstack : s.stack = top ++ v :: rest)
      (htop : v ∉ top) : Finish v s (s.close v top rest)

inductive Search [DecidableEq α] (succ : α → List α) : Call α → State α → State α → Prop
  | visit {v : α} {s t u : State α} (hnew : ¬s.seen v)
      (hscan : Search succ (.scan v (succ v)) (s.enter v) t) (hfinish : Finish v t u) :
      Search succ (.visit v) s u
  | nil {v : α} {s : State α} : Search succ (.scan v []) s s
  | fresh {v w : α} {ws : List α} {s t u : State α} (hnew : ¬s.seen w)
      (hvisit : Search succ (.visit w) s t)
      (hrest : Search succ (.scan v ws) (t.lower v (t.low w)) u) :
      Search succ (.scan v (w :: ws)) s u
  | onStack {v w : α} {ws : List α} {s u : State α} (hseen : s.seen w) (hroot : s.root w = none)
      (hrest : Search succ (.scan v ws) (s.lower v (s.pre w)) u) :
      Search succ (.scan v (w :: ws)) s u
  | closed {v w : α} {ws : List α} {s u : State α} (hseen : s.seen w) (hroot : s.root w ≠ none)
      (hrest : Search succ (.scan v ws) s u) : Search succ (.scan v (w :: ws)) s u

/-! ## Reachability -/

/-- `y` can be reached from `x`. -/
abbrev Reaches (succ : α → List α) : α → α → Prop :=
  Relation.ReflTransGen fun x y => y ∈ succ x

/-- The two vertices are in the same strongly connected component. -/
def Connected (succ : α → List α) (x y : α) : Prop :=
  Reaches succ x y ∧ Reaches succ y x

/-- What is reached from a set without edges out of it. -/
theorem Reaches.mem_of_closed {succ : α → List α} {P : α → Prop} {x y : α}
    (h : Reaches succ x y) (hclosed : ∀ x, P x → ∀ y ∈ succ x, P y) (hx : P x) : P y := by
  induction h with
  | refl => exact hx
  | tail _ hedge ih => exact hclosed _ ih _ hedge

/-! ## The invariant -/

/-- The invariant of the search while the vertices `gray` are visited. -/
structure Inv (succ : α → List α) (gray : List α) (s : State α) : Prop where
  onStack : ∀ x, x ∈ s.stack ↔ s.seen x ∧ s.root x = none
  seen : ∀ x, s.root x ≠ none → s.seen x
  sorted : s.stack.Pairwise fun x y => s.pre y < s.pre x
  clock : ∀ x, s.seen x → s.pre x ≤ s.clock
  active : ∀ g ∈ gray, g ∈ s.stack
  /-- Successors of a vertex that is not being visited any more are seen. -/
  scanned : ∀ x, s.seen x → x ∉ gray → ∀ y ∈ succ x, s.seen y
  closed : ∀ x, s.root x ≠ none → ∀ y ∈ succ x, s.root y ≠ none
  reaches : ∀ g ∈ gray, ∀ y ∈ s.stack, s.pre g ≤ s.pre y → Reaches succ g y
  returns : ∀ y ∈ s.stack, ∃ g ∈ gray, s.pre g ≤ s.pre y ∧ Reaches succ y g
  exact : ∀ x y, s.root x ≠ none → s.root y ≠ none →
    (s.root x = s.root y ↔ Connected succ x y)
  root : ∀ x r, s.root x = some r → s.root r = some r
  blocks : ∀ r, r ∈ s.blocks ↔ ∃ x, x ≠ r ∧ s.root x = some r

/-- What a search keeps of the state in which it starts. -/
structure Extends (s t : State α) : Prop where
  clock : s.clock ≤ t.clock
  seen : ∀ x, s.seen x → t.seen x
  pre : ∀ x, s.seen x → t.pre x = s.pre x
  root : ∀ x, s.seen x → t.root x = s.root x
  new : ∀ x, ¬s.seen x → t.seen x → s.clock < t.pre x
  stack : ∃ top, t.stack = top ++ s.stack ∧ ∀ x ∈ top, ¬s.seen x

/-- What is known of `low v` while the successors of `v` are scanned. -/
structure LowInv (succ : α → List α) (v : α) (s : State α) : Prop where
  le_pre : s.low v ≤ s.pre v
  reaches : ∃ y ∈ s.stack, s.pre y = s.low v ∧ Reaches succ v y
  /-- Edges from above `v` to below `v` are accounted for. -/
  above : ∀ x ∈ s.stack, s.pre v < s.pre x → ∀ y ∈ succ x, y ∈ s.stack → s.pre y < s.pre v →
    s.low v ≤ s.pre y

/-- What a visit of `v` achieves. -/
structure Visited (succ : α → List α) (gray : List α) (v : α) (s u : State α) : Prop where
  inv : Inv succ gray u
  ext : Extends s u
  seen : u.seen v
  low : ∀ x, s.seen x → u.low x = s.low x
  le_pre : u.low v ≤ u.pre v
  reaches : u.low v = u.pre v ∨ ∃ y ∈ s.stack, s.pre y = u.low v ∧ Reaches succ v y
  above : ∀ x ∈ u.stack, ¬s.seen x → ∀ y ∈ succ x, y ∈ s.stack → u.low v ≤ s.pre y

/-- What a scan of some successors of `v` achieves. -/
structure Scanned (succ : α → List α) (gray : List α) (v : α) (ws : List α) (s u : State α) :
    Prop where
  inv : Inv succ (v :: gray) u
  ext : Extends s u
  lowInv : LowInv succ v u
  low_le : u.low v ≤ s.low v
  low : ∀ x, s.seen x → x ≠ v → u.low x = s.low x
  succ : ∀ w ∈ ws, u.seen w ∧ (w ∈ u.stack → u.low v ≤ u.pre w)

/-! ## Extensions -/

variable {succ : α → List α} {gray top rest ws : List α} {v w x y : α} {s t u : State α}

theorem Extends.refl (s : State α) : Extends s s where
  clock := le_rfl
  seen _ h := h
  pre _ _ := rfl
  root _ _ := rfl
  new _ h h' := absurd h' h
  stack := ⟨[], rfl, by simp⟩

theorem Extends.trans (h : Extends s t) (h' : Extends t u) : Extends s u where
  clock := h.clock.trans h'.clock
  seen x hx := h'.seen x (h.seen x hx)
  pre x hx := (h'.pre x (h.seen x hx)).trans (h.pre x hx)
  root x hx := (h'.root x (h.seen x hx)).trans (h.root x hx)
  new x hx hx' := by
    by_cases ht : t.seen x
    · rw [h'.pre x ht]
      exact h.new x hx ht
    · exact h.clock.trans_lt (h'.new x ht hx')
  stack := by
    obtain ⟨top, htop, hnew⟩ := h.stack
    obtain ⟨top', htop', hnew'⟩ := h'.stack
    refine ⟨top' ++ top, by rw [htop', htop, List.append_assoc], fun x hx hs => ?_⟩
    rcases List.mem_append.1 hx with hx | hx
    · exact hnew' x hx (h.seen x hs)
    · exact hnew x hx hs

theorem Extends.mem_stack (h : Extends s t) (hx : x ∈ s.stack) : x ∈ t.stack := by
  obtain ⟨top, htop, -⟩ := h.stack
  rw [htop]
  exact List.mem_append_right _ hx

/-- A vertex that was seen is on the stack only if it was before. -/
theorem Extends.of_mem_stack (h : Extends s t) (hx : x ∈ t.stack) (hs : s.seen x) :
    x ∈ s.stack := by
  obtain ⟨top, htop, hnew⟩ := h.stack
  rw [htop] at hx
  rcases List.mem_append.1 hx with hx | hx
  · exact absurd hs (hnew x hx)
  · exact hx

/-! ## The steps of a visit -/

theorem Inv.pre_le (h : Inv succ gray s) (hx : x ∈ s.stack) : s.pre x ≤ s.clock :=
  h.clock x ((h.onStack x).1 hx).1

section

variable [DecidableEq α]

theorem enter_pre_of_ne (s : State α) (hne : x ≠ v) : (s.enter v).pre x = s.pre x :=
  Function.update_of_ne hne _ _

theorem enter_pre_self (s : State α) (v : α) : (s.enter v).pre v = s.clock + 1 :=
  Function.update_self _ _ _

theorem enter_low_self (s : State α) (v : α) : (s.enter v).low v = s.clock + 1 :=
  Function.update_self _ _ _

theorem enter_low_of_ne (s : State α) (hne : x ≠ v) : (s.enter v).low x = s.low x :=
  Function.update_of_ne hne _ _

theorem enter_root_of_ne (s : State α) (hne : x ≠ v) : (s.enter v).root x = s.root x :=
  Function.update_of_ne hne _ _

theorem enter_root_self (s : State α) (v : α) : (s.enter v).root v = none :=
  Function.update_self _ _ _

theorem enter_extends (hnew : ¬s.seen v) : Extends s (s.enter v) where
  clock := Nat.le_succ _
  seen _ hx := .inr hx
  pre x hx := enter_pre_of_ne s (by rintro rfl; exact hnew hx)
  root x hx := enter_root_of_ne s (by rintro rfl; exact hnew hx)
  new x hx hx' := by
    obtain rfl : x = v := hx'.resolve_right hx
    rw [enter_pre_self]
    exact Nat.lt_succ_self _
  stack := ⟨[v], rfl, by simpa using hnew⟩

/-- A root is only changed where there was none. -/
theorem Inv.enter_root (h : Inv succ gray s) (hnew : ¬s.seen v) (x : α) :
    (s.enter v).root x = s.root x := by
  by_cases hne : x = v
  · subst hne
    rw [enter_root_self]
    by_contra hroot
    exact hnew (h.seen x (Ne.symm hroot))
  · exact enter_root_of_ne s hne

theorem Inv.enter (h : Inv succ gray s) (hnew : ¬s.seen v)
    (hreach : ∀ g ∈ gray, Reaches succ g v) : Inv succ (v :: gray) (s.enter v) where
  onStack x := by
    rw [h.enter_root hnew]
    by_cases hne : x = v
    · subst hne
      have hroot : s.root x = none := by
        by_contra hroot
        exact hnew (h.seen x hroot)
      exact ⟨fun _ => ⟨.inl rfl, hroot⟩, fun _ => List.mem_cons_self⟩
    · rw [show (s.enter v).stack = v :: s.stack from rfl, List.mem_cons, or_iff_right hne,
        h.onStack]
      exact and_congr_left fun _ => (or_iff_right hne).symm
  seen x hroot := by
    rw [h.enter_root hnew] at hroot
    exact .inr (h.seen x hroot)
  sorted := by
    have hne : ∀ x ∈ s.stack, x ≠ v := by
      rintro x hx rfl
      exact hnew ((h.onStack x).1 hx).1
    refine List.pairwise_cons.2 ⟨fun x hx => ?_, ?_⟩
    · rw [enter_pre_self, enter_pre_of_ne s (hne x hx)]
      exact Nat.lt_succ_of_le (h.pre_le hx)
    · refine h.sorted.imp_of_mem fun hx hy hlt => ?_
      rwa [enter_pre_of_ne s (hne _ hx), enter_pre_of_ne s (hne _ hy)]
  clock x hx := by
    by_cases hne : x = v
    · subst hne
      exact (enter_pre_self s x).le
    · rw [enter_pre_of_ne s hne]
      exact (h.clock x (hx.resolve_left hne)).trans (Nat.le_succ _)
  active g hg := by
    rcases List.mem_cons.1 hg with rfl | hg
    · exact List.mem_cons_self
    · exact List.mem_cons_of_mem _ (h.active g hg)
  scanned x hx hgray y hy := by
    rw [List.mem_cons, not_or] at hgray
    exact .inr (h.scanned x (hx.resolve_left hgray.1) hgray.2 y hy)
  closed x hroot y hy := by
    rw [h.enter_root hnew] at hroot ⊢
    exact h.closed x hroot y hy
  reaches g hg y hy hle := by
    have hold : ∀ z ∈ s.stack, (s.enter v).pre z = s.pre z := by
      intro z hz
      refine enter_pre_of_ne s ?_
      rintro rfl
      exact hnew ((h.onStack z).1 hz).1
    rcases List.mem_cons.1 hg with rfl | hgray
    · rcases List.mem_cons.1 hy with rfl | hold'
      · exact .refl
      · rw [enter_pre_self, hold y hold'] at hle
        exact absurd (h.pre_le hold') (Nat.not_le.2 hle)
    · rcases List.mem_cons.1 hy with rfl | hold'
      · exact hreach g hgray
      · rw [hold y hold', hold g (h.active g hgray)] at hle
        exact h.reaches g hgray y hold' hle
  returns y hy := by
    rcases List.mem_cons.1 hy with rfl | hy
    · exact ⟨y, List.mem_cons_self, le_rfl, .refl⟩
    · obtain ⟨g, hg, hle, hreach⟩ := h.returns y hy
      have hext := enter_extends hnew
      have hseen : ∀ x ∈ s.stack, s.seen x := fun x hx => ((h.onStack x).1 hx).1
      refine ⟨g, List.mem_cons_of_mem _ hg, ?_, hreach⟩
      rwa [hext.pre g (hseen g (h.active g hg)), hext.pre y (hseen y hy)]
  exact x y := by
    rw [h.enter_root hnew, h.enter_root hnew]
    exact h.exact x y
  root x r := by
    rw [h.enter_root hnew, h.enter_root hnew]
    exact h.root x r
  blocks r := by
    simp only [h.enter_root hnew]
    exact h.blocks r

/-- Nothing but `low v` is changed. -/
theorem Inv.lower (h : Inv succ gray s) (v : α) (n : Nat) : Inv succ gray (s.lower v n) :=
  ⟨h.onStack, h.seen, h.sorted, h.clock, h.active, h.scanned, h.closed, h.reaches, h.returns,
    h.exact, h.root, h.blocks⟩

theorem lower_extends (s : State α) (v : α) (n : Nat) : Extends s (s.lower v n) :=
  ⟨le_rfl, fun _ h => h, fun _ _ => rfl, fun _ _ => rfl, fun _ h h' => absurd h' h,
    ⟨[], rfl, by simp⟩⟩

theorem lower_low_self (s : State α) (v : α) (n : Nat) :
    (s.lower v n).low v = min (s.low v) n :=
  Function.update_self _ _ _

theorem lower_low_of_ne (s : State α) {n : Nat} (hne : x ≠ v) :
    (s.lower v n).low x = s.low x :=
  Function.update_of_ne hne _ _

theorem enter_lowInv (h : Inv succ gray s) : LowInv succ v (s.enter v) where
  le_pre := by rw [enter_pre_self, enter_low_self]
  reaches := ⟨v, List.mem_cons_self, by rw [enter_pre_self, enter_low_self], .refl⟩
  above x hx hlt := by
    rw [enter_pre_self] at hlt
    rcases List.mem_cons.1 hx with rfl | hx
    · rw [enter_pre_self] at hlt
      exact absurd hlt (lt_irrefl _)
    · by_cases hne : x = v
      · subst hne
        rw [enter_pre_self] at hlt
        exact absurd hlt (lt_irrefl _)
      · rw [enter_pre_of_ne s hne] at hlt
        exact absurd (h.pre_le hx) (Nat.not_le.2 ((Nat.lt_succ_self _).trans hlt))

/-! ## The component of a vertex -/

/-- All successors of `v` are scanned, and `v` was the vertex last numbered before. -/
structure Ready (succ : α → List α) (gray : List α) (v : α) (s t : State α) : Prop where
  start : Inv succ gray s
  new : ¬s.seen v
  scanned : Scanned succ gray v (succ v) (s.enter v) t

theorem Ready.ext (h : Ready succ gray v s t) : Extends s t :=
  (enter_extends h.new).trans h.scanned.ext

theorem Ready.seen (h : Ready succ gray v s t) : t.seen v :=
  h.scanned.ext.seen v (.inl rfl)

theorem Ready.pre (h : Ready succ gray v s t) : t.pre v = s.clock + 1 :=
  (h.scanned.ext.pre v (.inl rfl)).trans (enter_pre_self s v)

theorem Ready.mem_stack (h : Ready succ gray v s t) : v ∈ t.stack :=
  h.scanned.ext.mem_stack List.mem_cons_self

/-- What was on the stack before has a smaller number. -/
theorem Ready.pre_lt (h : Ready succ gray v s t) (hy : y ∈ s.stack) : t.pre y < t.pre v := by
  rw [h.pre, h.ext.pre y ((h.start.onStack y).1 hy).1]
  exact Nat.lt_succ_of_le (h.start.pre_le hy)

/-- What has come to the stack since has a larger one. -/
theorem Ready.lt_pre (h : Ready succ gray v s t) (hx : t.seen x) (hnew : ¬s.seen x)
    (hne : x ≠ v) : t.pre v < t.pre x := by
  rw [h.pre]
  exact h.scanned.ext.new x (by rintro (rfl | hs); exacts [hne rfl, hnew hs]) hx

theorem Ready.stack (h : Ready succ gray v s t) :
    ∃ top, t.stack = top ++ v :: s.stack ∧ v ∉ top ∧ ∀ x ∈ top, ¬s.seen x := by
  obtain ⟨top, htop, hnew⟩ := h.scanned.ext.stack
  exact ⟨top, htop, fun hv => hnew v hv (.inl rfl), fun x hx hs => hnew x hx (.inr hs)⟩

/-- No edge leads from above `low v` to below it. -/
theorem Ready.low_le (h : Ready succ gray v s t) (hx : x ∈ t.stack) (hnew : ¬s.seen x)
    (hy : y ∈ succ x) (hold : y ∈ s.stack) : t.low v ≤ t.pre y := by
  by_cases hne : x = v
  · subst hne
    exact (h.scanned.succ y hy).2 (h.ext.mem_stack hold)
  · have hseen := ((h.scanned.inv.onStack x).1 hx).1
    exact h.scanned.lowInv.above x hx (h.lt_pre hseen hnew hne) y hy (h.ext.mem_stack hold)
      (h.pre_lt hold)

/-- If `v` reaches below itself, it stays on the stack. -/
theorem Ready.keep (h : Ready succ gray v s t) (hlow : t.low v ≠ t.pre v) :
    Visited succ gray v s t := by
  have hlt : t.low v < t.pre v := lt_of_le_of_ne h.scanned.lowInv.le_pre hlow
  have hinv := h.scanned.inv
  obtain ⟨z, hz, hzlow, hvz⟩ := h.scanned.lowInv.reaches
  have hzv : t.pre z < t.pre v := hzlow ▸ hlt
  refine ⟨⟨hinv.onStack, hinv.seen, hinv.sorted, hinv.clock, ?_, ?_, hinv.closed, ?_, ?_,
    hinv.exact, hinv.root, hinv.blocks⟩, h.ext, h.seen, ?_, h.scanned.lowInv.le_pre, ?_, ?_⟩
  · exact fun g hg => hinv.active g (List.mem_cons_of_mem _ hg)
  · intro x hx hgray y hy
    by_cases hne : x = v
    · subst hne
      exact (h.scanned.succ y hy).1
    · refine hinv.scanned x hx ?_ y hy
      rw [List.mem_cons, not_or]
      exact ⟨hne, hgray⟩
  · exact fun g hg => hinv.reaches g (List.mem_cons_of_mem _ hg)
  · -- A vertex that returns to `v` goes on to what `v` reaches.
    intro y hy
    obtain ⟨g, hg, hle, hreach⟩ := hinv.returns y hy
    rcases List.mem_cons.1 hg with rfl | hgray
    · obtain ⟨g', hg', hle', hreach'⟩ := hinv.returns z hz
      have hne : g' ≠ g := by
        rintro rfl
        exact absurd hzv (Nat.not_lt.2 hle')
      exact ⟨g', (List.mem_cons.1 hg').resolve_left hne, hle'.trans (hzv.le.trans hle),
        (hreach.trans hvz).trans hreach'⟩
    · exact ⟨g, hgray, hle, hreach⟩
  · intro x hx
    have hne : x ≠ v := by
      rintro rfl
      exact h.new hx
    exact (h.scanned.low x (.inr hx) hne).trans (enter_low_of_ne s hne)
  · have hzold : z ∈ s.stack := by
      refine h.ext.of_mem_stack hz ?_
      by_contra hnew
      have hne : z ≠ v := by
        rintro rfl
        exact lt_irrefl _ hzv
      exact absurd hzv (h.lt_pre ((hinv.onStack z).1 hz).1 hnew hne).le.not_gt
    refine .inr ⟨z, hzold, ?_, hvz⟩
    rw [← h.ext.pre z ((h.start.onStack z).1 hzold).1]
    exact hzlow
  · intro x hx hnew y hy hold
    rw [← h.ext.pre y ((h.start.onStack y).1 hold).1]
    exact h.low_le hx hnew hy hold

/-- What is closed with `v` when it does not reach below itself. -/
theorem Ready.mem_or_closed (h : Ready succ gray v s t) (hlow : t.low v = t.pre v)
    (hx : x ∈ t.stack) (hnew : ¬s.seen x) (hy : y ∈ succ x) :
    (y ∈ t.stack ∧ ¬s.seen y) ∨ t.root y ≠ none := by
  have hseen : t.seen y := by
    by_cases hne : x = v
    · subst hne
      exact (h.scanned.succ y hy).1
    · refine h.scanned.inv.scanned x ((h.scanned.inv.onStack x).1 hx).1 ?_ y hy
      rw [List.mem_cons, not_or]
      refine ⟨hne, fun hg => hnew ?_⟩
      exact ((h.start.onStack x).1 (h.start.active x hg)).1
  by_cases hroot : t.root y = none
  · have hmem := (h.scanned.inv.onStack y).2 ⟨hseen, hroot⟩
    refine .inl ⟨hmem, fun hold => ?_⟩
    have hold' := h.ext.of_mem_stack hmem hold
    exact absurd (h.low_le hx hnew hy hold') (hlow ▸ (h.pre_lt hold').not_ge)
  · exact .inr hroot

/-- The vertices that are closed with `v` are strongly connected. -/
theorem Ready.connected (h : Ready succ gray v s t) (hlow : t.low v = t.pre v)
    (hx : x ∈ t.stack) (hnew : ¬s.seen x) : Connected succ v x := by
  have hinv := h.scanned.inv
  constructor
  · refine hinv.reaches v List.mem_cons_self x hx ?_
    by_cases hne : x = v
    · rw [hne]
    · exact (h.lt_pre ((hinv.onStack x).1 hx).1 hnew hne).le
  · obtain ⟨g, hg, -, hreach⟩ := hinv.returns x hx
    rcases List.mem_cons.1 hg with rfl | hgray
    · exact hreach
    · -- An older vertex is out of reach.
      have hold := h.start.active g hgray
      have hin := hreach.mem_of_closed (P := fun z => (z ∈ t.stack ∧ ¬s.seen z) ∨ t.root z ≠ none)
        (fun z hz y hy => hz.elim (fun hz => h.mem_or_closed hlow hz.1 hz.2 hy)
          fun hz => .inr (hinv.closed z hz y hy)) (.inl ⟨hx, hnew⟩)
      rcases hin with ⟨-, hnew'⟩ | hroot
      · exact absurd ((h.start.onStack g).1 hold).1 hnew'
      · exact absurd ((hinv.onStack g).1 (h.ext.mem_stack hold)).2 hroot

/-- `v` and the vertices `top` above it are about to be closed. -/
structure Closing (succ : α → List α) (gray : List α) (v : α) (top : List α) (s t : State α) :
    Prop where
  ready : Ready succ gray v s t
  low : t.low v = t.pre v
  stack : t.stack = top ++ v :: s.stack
  notMem : v ∉ top
  new : ∀ x ∈ top, ¬s.seen x

theorem Closing.mem_iff (h : Closing succ gray v top s t) (x : α) :
    (x = v ∨ x ∈ top) ↔ x ∈ t.stack ∧ ¬s.seen x := by
  rw [h.stack, List.mem_append, List.mem_cons]
  constructor
  · rintro (rfl | hx)
    · exact ⟨.inr (.inl rfl), h.ready.new⟩
    · exact ⟨.inl hx, h.new x hx⟩
  · rintro ⟨hx | rfl | hx, hnew⟩
    · exact .inr hx
    · exact .inl rfl
    · exact absurd ((h.ready.start.onStack x).1 hx).1 hnew

/-- A vertex that is closed has no root yet. -/
theorem Closing.root_eq_none (h : Closing succ gray v top s t) (hx : x = v ∨ x ∈ top) :
    t.root x = none :=
  ((h.ready.scanned.inv.onStack x).1 ((h.mem_iff x).1 hx).1).2

theorem Closing.root_ne (h : Closing succ gray v top s t) (x : α) : t.root x ≠ some v := by
  intro hx
  cases (h.root_eq_none (.inl rfl)).symm.trans (h.ready.scanned.inv.root x v hx)

theorem Closing.connected (h : Closing succ gray v top s t) (hx : x = v ∨ x ∈ top) :
    Connected succ v x := by
  obtain ⟨hstack, hnew⟩ := (h.mem_iff x).1 hx
  exact h.ready.connected h.low hstack hnew

/-- A vertex that was closed before reaches none that is closed now. -/
theorem Closing.not_reaches (h : Closing succ gray v top s t) (hy : t.root y ≠ none)
    (hx : x = v ∨ x ∈ top) : ¬Reaches succ y x := fun hreach =>
  hreach.mem_of_closed (P := fun z => t.root z ≠ none) h.ready.scanned.inv.closed hy
    (h.root_eq_none hx)

section

variable (hc : Closing succ gray v top s t)

theorem close_root_of_mem (s : State α) (rest : List α) (hx : x = v ∨ x ∈ top) :
    (s.close v top rest).root x = some v :=
  if_pos hx

theorem close_root_of_not_mem (s : State α) (rest : List α) (hx : ¬(x = v ∨ x ∈ top)) :
    (s.close v top rest).root x = s.root x :=
  if_neg hx

include hc

theorem Closing.exact (x y : α) (hx : (t.close v top s.stack).root x ≠ none)
    (hy : (t.close v top s.stack).root y ≠ none) :
    (t.close v top s.stack).root x = (t.close v top s.stack).root y ↔ Connected succ x y := by
  by_cases hxin : x = v ∨ x ∈ top
  · rw [close_root_of_mem t _ hxin]
    by_cases hyin : y = v ∨ y ∈ top
    · rw [close_root_of_mem t _ hyin]
      have hvx := hc.connected hxin
      have hvy := hc.connected hyin
      exact iff_of_true rfl ⟨hvx.2.trans hvy.1, hvy.2.trans hvx.1⟩
    · rw [close_root_of_not_mem t _ hyin] at hy ⊢
      refine iff_of_false (hc.root_ne y).symm ?_
      exact fun hconnected => hc.not_reaches hy hxin hconnected.2
  · rw [close_root_of_not_mem t _ hxin] at hx ⊢
    by_cases hyin : y = v ∨ y ∈ top
    · rw [close_root_of_mem t _ hyin]
      exact iff_of_false (hc.root_ne x) fun hconnected => hc.not_reaches hx hyin hconnected.1
    · rw [close_root_of_not_mem t _ hyin] at hy ⊢
      exact hc.ready.scanned.inv.exact x y hx hy

theorem Closing.root (x r : α) (h : (t.close v top s.stack).root x = some r) :
    (t.close v top s.stack).root r = some r := by
  by_cases hxin : x = v ∨ x ∈ top
  · rw [close_root_of_mem t _ hxin] at h
    cases h
    exact close_root_of_mem t _ (.inl rfl)
  · rw [close_root_of_not_mem t _ hxin] at h
    have hr := hc.ready.scanned.inv.root x r h
    have hrin : ¬(r = v ∨ r ∈ top) := by
      intro hrin
      cases hr.symm.trans (hc.root_eq_none hrin)
    rwa [close_root_of_not_mem t _ hrin]

theorem Closing.blocks (r : α) : r ∈ (t.close v top s.stack).blocks ↔
    ∃ x, x ≠ r ∧ (t.close v top s.stack).root x = some r := by
  have hold := hc.ready.scanned.inv.blocks r
  by_cases hr : r = v
  · subst hr
    have hnot : r ∉ t.blocks := fun hmem => by
      obtain ⟨x, -, hx⟩ := hold.1 hmem
      exact hc.root_ne x hx
    constructor
    · intro hmem
      obtain ⟨x, hx⟩ : ∃ x, x ∈ top := by
        by_contra hnone
        have hempty : top = [] := List.eq_nil_iff_forall_not_mem.2 (not_exists.1 hnone)
        have hsame : (t.close r top s.stack).blocks = t.blocks := if_pos hempty
        exact hnot (hsame ▸ hmem)
      refine ⟨x, ?_, close_root_of_mem t _ (.inr hx)⟩
      rintro rfl
      exact hc.notMem hx
    · rintro ⟨x, hne, hx⟩
      have hxin : x = r ∨ x ∈ top := by
        by_contra hxin
        rw [close_root_of_not_mem t _ hxin] at hx
        exact hc.root_ne x hx
      have hne' : top ≠ [] := List.ne_nil_of_mem (hxin.resolve_left hne)
      rw [show (t.close r top s.stack).blocks = r :: t.blocks from if_neg hne']
      exact List.mem_cons_self
  · have hblocks : r ∈ (t.close v top s.stack).blocks ↔ r ∈ t.blocks := by
      by_cases hempty : top = []
      · rw [show (t.close v top s.stack).blocks = t.blocks from if_pos hempty]
      · rw [show (t.close v top s.stack).blocks = v :: t.blocks from if_neg hempty,
          List.mem_cons, or_iff_right hr]
    rw [hblocks, hold]
    refine exists_congr fun x => and_congr_right fun _ => ?_
    by_cases hxin : x = v ∨ x ∈ top
    · rw [close_root_of_mem t _ hxin, hc.root_eq_none hxin]
      exact iff_of_false nofun fun h => hr (Option.some.inj h).symm
    · rw [close_root_of_not_mem t _ hxin]

theorem Closing.onStack (x : α) : x ∈ s.stack ↔
    t.seen x ∧ (t.close v top s.stack).root x = none := by
  have hiff := hc.ready.scanned.inv.onStack x
  by_cases hxin : x = v ∨ x ∈ top
  · rw [close_root_of_mem t _ hxin]
    refine iff_of_false (fun hx => ?_) (fun h => nomatch h.2)
    exact ((hc.mem_iff x).1 hxin).2 ((hc.ready.start.onStack x).1 hx).1
  · rw [close_root_of_not_mem t _ hxin, ← hiff, hc.stack, List.mem_append, List.mem_cons]
    rw [not_or] at hxin
    rw [or_iff_right hxin.2, or_iff_right hxin.1]

theorem Closing.inv : Inv succ gray (t.close v top s.stack) where
  onStack := hc.onStack
  seen x hx := by
    by_cases hxin : x = v ∨ x ∈ top
    · exact ((hc.ready.scanned.inv.onStack x).1 ((hc.mem_iff x).1 hxin).1).1
    · rw [close_root_of_not_mem t _ hxin] at hx
      exact hc.ready.scanned.inv.seen x hx
  sorted := by
    have hsorted := hc.ready.scanned.inv.sorted
    rw [hc.stack] at hsorted
    exact ((List.pairwise_append.1 hsorted).2.1).tail
  clock := hc.ready.scanned.inv.clock
  active := hc.ready.start.active
  scanned x hx hgray y hy := by
    by_cases hne : x = v
    · subst hne
      exact (hc.ready.scanned.succ y hy).1
    · refine hc.ready.scanned.inv.scanned x hx ?_ y hy
      rw [List.mem_cons, not_or]
      exact ⟨hne, hgray⟩
  closed x hx y hy := by
    have hroot : (y = v ∨ y ∈ top) ∨ t.root y ≠ none := by
      by_cases hxin : x = v ∨ x ∈ top
      · obtain ⟨hstack, hnew⟩ := (hc.mem_iff x).1 hxin
        exact (hc.ready.mem_or_closed hc.low hstack hnew hy).imp_left (hc.mem_iff y).2
      · rw [close_root_of_not_mem t _ hxin] at hx
        exact .inr (hc.ready.scanned.inv.closed x hx y hy)
    by_cases hyin : y = v ∨ y ∈ top
    · rw [close_root_of_mem t _ hyin]
      exact Option.some_ne_none v
    · rw [close_root_of_not_mem t _ hyin]
      exact hroot.resolve_left hyin
  reaches g hg y hy := by
    have hmem : y ∈ t.stack := hc.ready.ext.mem_stack hy
    exact hc.ready.scanned.inv.reaches g (List.mem_cons_of_mem _ hg) y hmem
  returns y hy := by
    obtain ⟨g, hg, hle, hreach⟩ := hc.ready.start.returns y hy
    have hseen : ∀ x ∈ s.stack, s.seen x := fun x hx => ((hc.ready.start.onStack x).1 hx).1
    refine ⟨g, hg, ?_, hreach⟩
    have hg' := hc.ready.ext.pre g (hseen g (hc.ready.start.active g hg))
    have hy' := hc.ready.ext.pre y (hseen y hy)
    exact (hg'.trans_le hle).trans hy'.ge
  exact := hc.exact
  root := hc.root
  blocks := hc.blocks

/-- If `v` does not reach below itself, its component is what is above it on the stack. -/
theorem Closing.visited : Visited succ gray v s (t.close v top s.stack) where
  inv := hc.inv
  ext := by
    refine ⟨hc.ready.ext.clock, hc.ready.ext.seen, hc.ready.ext.pre, fun x hx => ?_,
      hc.ready.ext.new, [], rfl, by simp⟩
    have hxin : ¬(x = v ∨ x ∈ top) := fun hxin => ((hc.mem_iff x).1 hxin).2 hx
    rw [close_root_of_not_mem t _ hxin]
    exact hc.ready.ext.root x hx
  seen := hc.ready.seen
  low x hx := by
    have hne : x ≠ v := by
      rintro rfl
      exact hc.ready.new hx
    exact (hc.ready.scanned.low x (.inr hx) hne).trans (enter_low_of_ne s hne)
  le_pre := hc.low.le
  reaches := .inl hc.low
  above x hx hnew := absurd ((hc.ready.start.onStack x).1 hx).1 hnew

end

/-! ## The successors of a vertex -/

/-- `low v` is lowered to the number of a vertex on the stack. -/
theorem LowInv.lower_pre (h : LowInv succ v s) (hw : w ∈ succ v) (hstack : w ∈ s.stack) :
    LowInv succ v (s.lower v (s.pre w)) where
  le_pre := by
    rw [lower_low_self]
    exact (min_le_left _ _).trans h.le_pre
  reaches := by
    rw [lower_low_self]
    rcases min_choice (s.low v) (s.pre w) with hmin | hmin
    · rw [hmin]
      exact h.reaches
    · rw [hmin]
      exact ⟨w, hstack, rfl, .single hw⟩
  above x hx hlt y hy hstack hlt' := by
    rw [lower_low_self]
    exact (min_le_left _ _).trans (h.above x hx hlt y hy hstack hlt')

/-- `low v` is lowered to that of a vertex that has been visited. -/
theorem Visited.lowInv (hvisit : Visited succ (v :: gray) w s t) (hinv : Inv succ (v :: gray) s)
    (h : LowInv succ v s) (hw : w ∈ succ v) (hnew : ¬s.seen w) :
    LowInv succ v (t.lower v (t.low w)) := by
  have hvstack : v ∈ s.stack := hinv.active v List.mem_cons_self
  have hv : s.seen v := ((hinv.onStack v).1 hvstack).1
  have hpre : t.pre v = s.pre v := hvisit.ext.pre v hv
  have hlow : t.low v = s.low v := hvisit.low v hv
  have hpast : ∀ {y}, t.seen y → t.pre y < t.pre v → s.seen y := by
    intro y hy hlt
    by_contra hyold
    have hclock := hvisit.ext.new y hyold hy
    exact absurd (hclock.trans hlt) (hpre ▸ (hinv.clock v hv).not_gt)
  constructor
  · rw [lower_low_self, hlow]
    exact (min_le_left _ _).trans (h.le_pre.trans hpre.ge)
  · rw [lower_low_self, hlow]
    obtain ⟨y, hy, hylow, hreach⟩ := h.reaches
    have hold : ∃ y ∈ t.stack, t.pre y = s.low v ∧ Reaches succ v y :=
      ⟨y, hvisit.ext.mem_stack hy, (hvisit.ext.pre y ((hinv.onStack y).1 hy).1).trans hylow, hreach⟩
    rcases min_choice (s.low v) (t.low w) with hmin | hmin
    · rw [hmin]
      exact hold
    · rcases hvisit.reaches with hpre' | ⟨z, hz, hzlow, hreach'⟩
      · -- The component of `w` is closed, so `low w` is larger.
        have hlt := hvisit.ext.new w hnew hvisit.seen
        have hle : s.low v ≤ t.low w := by
          rw [hpre']
          exact (h.le_pre.trans (hinv.clock v hv)).trans hlt.le
        rw [min_eq_left hle]
        exact hold
      · rw [hmin]
        refine ⟨z, hvisit.ext.mem_stack hz, ?_, .head hw hreach'⟩
        exact (hvisit.ext.pre z ((hinv.onStack z).1 hz).1).trans hzlow
  · intro x hx hlt y hy hystack hlt'
    rw [lower_low_self, hlow]
    have hyold : y ∈ s.stack := hvisit.ext.of_mem_stack hystack
      (hpast ((hvisit.inv.onStack y).1 hystack).1 hlt')
    have hypre : t.pre y = s.pre y := hvisit.ext.pre y ((hinv.onStack y).1 hyold).1
    refine (?_ : _ ≤ s.pre y).trans_eq hypre.symm
    by_cases hxold : s.seen x
    · have hxpre : t.pre x = s.pre x := hvisit.ext.pre x hxold
      refine (min_le_left _ _).trans ?_
      refine h.above x (hvisit.ext.of_mem_stack hx hxold) ?_ y hy hyold ?_
      · exact hpre ▸ hxpre ▸ hlt
      · exact hpre ▸ hypre ▸ hlt'
    · exact (min_le_right _ _).trans (hvisit.above x hx hxold y hy hyold)

/-- A successor is dealt with, then the rest of them. -/
theorem Scanned.cons (hrest : Scanned succ gray v ws (t.lower v (n : Nat)) u) (hext : Extends s t)
    (hlow : ∀ x, s.seen x → t.low x = s.low x) (hv : s.seen v) (hseen : t.seen w)
    (hw : w ∈ u.stack → n ≤ u.pre w) : Scanned succ gray v (w :: ws) s u where
  inv := hrest.inv
  ext := (hext.trans (lower_extends t v n)).trans hrest.ext
  lowInv := hrest.lowInv
  low_le := by
    refine hrest.low_le.trans ?_
    rw [lower_low_self, hlow v hv]
    exact min_le_left _ _
  low x hx hne := by
    rw [hrest.low x (hext.seen x hx) hne, lower_low_of_ne t hne]
    exact hlow x hx
  succ x hx := by
    rcases List.mem_cons.1 hx with rfl | hx
    · refine ⟨hrest.ext.seen x hseen, fun hstack => ?_⟩
      refine hrest.low_le.trans ?_
      rw [lower_low_self]
      exact (min_le_right _ _).trans (hw hstack)
    · exact hrest.succ x hx

/-! ## The search -/

/-- What is to be shown of a search. -/
def Spec (succ : α → List α) : Call α → State α → State α → Prop
  | .visit v, s, u => ∀ gray, Inv succ gray s → (∀ g ∈ gray, Reaches succ g v) →
      Visited succ gray v s u
  | .scan v ws, s, u => ∀ gray, Inv succ (v :: gray) s → (∀ g ∈ gray, Reaches succ g v) →
      LowInv succ v s → (∀ w ∈ ws, w ∈ succ v) → Scanned succ gray v ws s u

theorem Search.spec {call : Call α} (h : Search succ call s u) : Spec succ call s u := by
  induction h with
  | @visit v s t u hnew _ hfinish ih =>
    intro gray hinv hreach
    have hscanned := ih gray (hinv.enter hnew hreach) hreach (enter_lowInv hinv) fun w hw => hw
    have hready : Ready succ gray v s t := ⟨hinv, hnew, hscanned⟩
    cases hfinish with
    | keep hlow => exact hready.keep hlow
    | @close top rest hlow hstack htop =>
      obtain ⟨top', hstack', htop', hnew'⟩ := hready.stack
      have hold : v ∉ s.stack := fun hv => hnew ((hinv.onStack v).1 hv).1
      obtain ⟨rfl, -, rfl⟩ :=
        (List.append_cons_inj_of_notMem htop' hold).1 (hstack'.symm.trans hstack)
      exact Closing.visited ⟨hready, hlow, hstack, htop, hnew'⟩
  | nil =>
    intro gray hinv _ hlow _
    exact ⟨hinv, .refl _, hlow, le_rfl, fun _ _ _ => rfl, nofun⟩
  | @fresh v w ws s t u hnew _ _ ihvisit ih =>
    intro gray hinv hreach hlow hsucc
    have hw := hsucc w List.mem_cons_self
    have hv : s.seen v := ((hinv.onStack v).1 (hinv.active v List.mem_cons_self)).1
    have hreach' : ∀ g ∈ v :: gray, Reaches succ g w := by
      intro g hg
      rcases List.mem_cons.1 hg with rfl | hg
      · exact .single hw
      · exact (hreach g hg).tail hw
    have hvisited := ihvisit (v :: gray) hinv hreach'
    have hscanned := ih gray (hvisited.inv.lower v _) hreach
      (hvisited.lowInv hinv hlow hw hnew) fun x hx => hsucc x (List.mem_cons_of_mem _ hx)
    refine hscanned.cons hvisited.ext hvisited.low hv hvisited.seen fun _ => ?_
    rw [hscanned.ext.pre w hvisited.seen]
    exact hvisited.le_pre
  | @onStack v w ws s u hseen hroot _ ih =>
    intro gray hinv hreach hlow hsucc
    have hw := hsucc w List.mem_cons_self
    have hv : s.seen v := ((hinv.onStack v).1 (hinv.active v List.mem_cons_self)).1
    have hscanned := ih gray (hinv.lower v _) hreach
      (hlow.lower_pre hw ((hinv.onStack w).2 ⟨hseen, hroot⟩))
      fun x hx => hsucc x (List.mem_cons_of_mem _ hx)
    refine hscanned.cons (.refl s) (fun _ _ => rfl) hv hseen fun _ => ?_
    exact (hscanned.ext.pre w hseen).ge
  | @closed v w ws s u hseen hroot _ ih =>
    intro gray hinv hreach hlow hsucc
    have hscanned := ih gray hinv hreach hlow fun x hx => hsucc x (List.mem_cons_of_mem _ hx)
    refine ⟨hscanned.inv, hscanned.ext, hscanned.lowInv, hscanned.low_le, hscanned.low, ?_⟩
    intro x hx
    rcases List.mem_cons.1 hx with rfl | hx
    · refine ⟨hscanned.ext.seen x hseen, fun hstack => ?_⟩
      exact absurd ((hinv.onStack x).1 (hscanned.ext.of_mem_stack hstack hseen)).2 hroot
    · exact hscanned.succ x hx

theorem Search.append {v : α} {ws ws' : List α} (h : Search succ (.scan v ws) s t)
    (h' : Search succ (.scan v ws') t u) : Search succ (.scan v (ws ++ ws')) s u := by
  generalize hcall : Call.scan v ws = call at h
  induction h generalizing ws with
  | visit => cases hcall
  | nil =>
    cases hcall
    exact h'
  | fresh hnew hvisit _ _ ih =>
    cases hcall
    exact .fresh hnew hvisit (ih h' rfl)
  | onStack hseen hroot _ ih =>
    cases hcall
    exact .onStack hseen hroot (ih h' rfl)
  | closed hseen hroot _ ih =>
    cases hcall
    exact .closed hseen hroot (ih h' rfl)

/-- Where a search goes. -/
def Call.targets (succ : α → List α) : Call α → List α
  | .visit v => v :: succ v
  | .scan _ ws => ws

/-- Only what is reached from the start is seen. -/
theorem Search.seen_of {call : Call α} {P : α → Prop} (h : Search succ call s u)
    (hP : ∀ x, P x → ∀ y ∈ succ x, P y) (hcall : ∀ w ∈ call.targets succ, P w)
    (hs : ∀ x, s.seen x → P x) : ∀ x, u.seen x → P x := by
  induction h with
  | @visit v s t u _ _ hfinish ih =>
    have ht := ih (fun w hw => hcall w (List.mem_cons_of_mem _ hw)) fun x hx =>
      hx.elim (fun hx => hx ▸ hcall v List.mem_cons_self) (hs x)
    cases hfinish with
    | keep => exact ht
    | close => exact ht
  | nil => exact hs
  | @fresh v w ws s t u _ _ _ ihvisit ih =>
    have hw := hcall w List.mem_cons_self
    refine ih (fun x hx => hcall x (List.mem_cons_of_mem _ hx)) (ihvisit ?_ hs)
    intro x hx
    rcases List.mem_cons.1 hx with rfl | hx
    · exact hw
    · exact hP w hw x hx
  | onStack _ _ _ ih => exact ih (fun x hx => hcall x (List.mem_cons_of_mem _ hx)) hs
  | closed _ _ _ ih => exact ih (fun x hx => hcall x (List.mem_cons_of_mem _ hx)) hs

/-- A visit from outside. -/
theorem Search.visited (h : Search succ (.visit v) s u) (hinv : Inv succ [] s) :
    Visited succ [] v s u :=
  h.spec [] hinv nofun

end

/-! ## Between visits -/

/-- The state in which nothing is seen. -/
theorem inv_of_not_seen (hseen : ∀ x, ¬s.seen x) (hroot : ∀ x, s.root x = none)
    (hstack : s.stack = []) (hblocks : s.blocks = []) : Inv succ [] s where
  onStack x := by simp [hstack, hseen]
  seen x h := absurd (hroot x) h
  sorted := by simp [hstack]
  clock x h := absurd h (hseen x)
  active := nofun
  scanned x h := absurd h (hseen x)
  closed x h := absurd (hroot x) h
  reaches := nofun
  returns := by simp [hstack]
  exact x _ h := absurd (hroot x) h
  root x r h := by rw [hroot] at h; cases h
  blocks r := by simp [hblocks, hroot]

/-- When nothing is being visited, the stack is empty. -/
theorem Inv.stack_eq_nil (h : Inv succ [] s) : s.stack = [] := by
  refine List.eq_nil_iff_forall_not_mem.2 fun y hy => ?_
  obtain ⟨g, hg, -⟩ := h.returns y hy
  exact nomatch hg

theorem Inv.root_ne_none (h : Inv succ [] s) (hx : s.seen x) : s.root x ≠ none := by
  intro hroot
  have hmem := (h.onStack x).2 ⟨hx, hroot⟩
  rw [h.stack_eq_nil] at hmem
  exact nomatch hmem

/-- Two vertices that are seen have the same root when they are strongly connected. -/
theorem Inv.root_eq_iff (h : Inv succ [] s) (hx : s.seen x) (hy : s.seen y) :
    s.root x = s.root y ↔ Connected succ x y :=
  h.exact x y (h.root_ne_none hx) (h.root_ne_none hy)

end Tarjan
