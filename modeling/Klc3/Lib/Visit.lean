import Mathlib.Data.List.Nodup
import Mathlib.Data.List.Perm.Subperm

/-!
# Visiting with a stack

The loop that pops a node and pushes those of its successors that it has not seen before.
-/

structure Visit (α : Type*) where
  stack : List α
  visited : List α
  popped : List α

namespace Visit

variable {α : Type*} [DecidableEq α] (keep : α → Bool) (succs : α → List α)

/-- A node that is kept and seen for the first time goes on the stack. -/
def push (s : Visit α) (x : α) : Visit α :=
  if keep x && !s.visited.contains x then { s with stack := x :: s.stack, visited := x :: s.visited }
  else s

def step (s : Visit α) : Visit α :=
  match s.stack with
  | [] => s
  | x :: rest => (succs x).foldl (push keep) { s with stack := rest, popped := s.popped ++ [x] }

def run : Nat → Visit α → Visit α
  | 0, s => s
  | n + 1, s => run n (s.step keep succs)

def start (x : α) : Visit α :=
  push keep ⟨[], [], []⟩ x

/-! ## What a visit finds -/

variable {keep succs} {s : Visit α} {x root : α}

/-- What holds while the nodes reachable from `root` are visited. `pending` are the
successors of the last node that are still to be pushed. -/
structure Inv (keep : α → Bool) (succs : α → List α) (root : α) (pending : List α)
    (s : Visit α) : Prop where
  root : keep root = true → root ∈ s.visited
  nodup : s.visited.Nodup
  split : ∀ x, x ∈ s.visited ↔ x ∈ s.stack ∨ x ∈ s.popped
  length : s.popped.length + s.stack.length = s.visited.length
  closed : ∀ x ∈ s.popped, ∀ y ∈ succs x, keep y = true → y ∈ s.visited ∨ y ∈ pending

theorem Inv.push {pending : List α} (h : Inv keep succs root (x :: pending) s) :
    Inv keep succs root pending (s.push keep x) := by
  unfold Visit.push
  split
  · rename_i hnew
    obtain ⟨-, hnot⟩ := Bool.and_eq_true_iff.1 hnew
    have hnot : x ∉ s.visited := by simpa using hnot
    refine ⟨fun hr => List.mem_cons_of_mem x (h.root hr), List.nodup_cons.2 ⟨hnot, h.nodup⟩, ?_, ?_, ?_⟩
    · intro y
      simp only [List.mem_cons, h.split y, or_assoc]
    · have hlength := h.length
      simp only [List.length_cons]
      omega
    · intro y hy z hz hkeep
      rcases h.closed y hy z hz hkeep with hz | hz
      · exact .inl (List.mem_cons_of_mem x hz)
      · rcases List.mem_cons.1 hz with rfl | hz
        · exact .inl List.mem_cons_self
        · exact .inr hz
  · rename_i hold
    refine ⟨h.root, h.nodup, h.split, h.length, ?_⟩
    intro y hy z hz hkeep
    rcases h.closed y hy z hz hkeep with hz | hz
    · exact .inl hz
    · rcases List.mem_cons.1 hz with rfl | hz
      · left
        by_contra hnot
        exact hold (by simp [hkeep, hnot])
      · exact .inr hz

theorem Inv.pushAll {pending : List α} (h : Inv keep succs root pending s) :
    Inv keep succs root [] (pending.foldl (Visit.push keep) s) := by
  induction pending generalizing s with
  | nil => exact h
  | cons x pending ih => exact ih h.push

theorem Inv.step (h : Inv keep succs root [] s) : Inv keep succs root [] (s.step keep succs) := by
  unfold Visit.step
  split
  · exact h
  · rename_i x rest hstack
    apply Inv.pushAll
    refine ⟨h.root, h.nodup, ?_, ?_, ?_⟩
    · intro y
      rw [h.split y, hstack]
      simp only [List.mem_cons, List.mem_append, List.not_mem_nil, or_false]
      tauto
    · have hlength := h.length
      rw [hstack] at hlength
      simp only [List.length_append, List.length_cons, List.length_nil] at hlength ⊢
      omega
    · intro y hy z hz hkeep
      rcases List.mem_append.1 hy with hy | hy
      · rcases h.closed y hy z hz hkeep with hz | hz
        · exact .inl hz
        · cases hz
      · rw [List.mem_singleton.1 hy] at hz
        exact .inr hz

theorem Inv.run (h : Inv keep succs root [] s) (n : Nat) :
    Inv keep succs root [] (s.run keep succs n) := by
  induction n generalizing s with
  | zero => exact h
  | succ n ih => exact ih h.step

theorem start_inv (keep : α → Bool) (succs : α → List α) (root : α) :
    Inv keep succs root [] (start keep root) := by
  unfold start push
  split
  · exact ⟨fun _ => List.mem_cons_self, List.nodup_singleton root, by simp, rfl, by simp⟩
  · rename_i hkeep
    refine ⟨fun hr => absurd ?_ hkeep, List.nodup_nil, by simp, rfl, by simp⟩
    simp [hr]

/-! ## A finite number of nodes -/

section Finite

variable {nodes : List α}

theorem push_subset (hs : s.visited ⊆ nodes) (hx : keep x = true → x ∈ nodes) :
    (s.push keep x).visited ⊆ nodes := by
  unfold push
  split
  · rename_i hnew
    exact List.cons_subset.2 ⟨hx (Bool.and_eq_true_iff.1 hnew).1, hs⟩
  · exact hs

theorem pushAll_subset {xs : List α} (hs : s.visited ⊆ nodes)
    (hxs : ∀ x ∈ xs, keep x = true → x ∈ nodes) : (xs.foldl (push keep) s).visited ⊆ nodes := by
  induction xs generalizing s with
  | nil => exact hs
  | cons x xs ih =>
    exact ih (push_subset hs (hxs x List.mem_cons_self))
      fun y hy => hxs y (List.mem_cons_of_mem x hy)

theorem pushAll_popped (xs : List α) (s : Visit α) :
    (xs.foldl (push keep) s).popped = s.popped := by
  induction xs generalizing s with
  | nil => rfl
  | cons x xs ih =>
    rw [List.foldl_cons, ih]
    unfold push
    split <;> rfl

/-- The nodes are closed under the successors that are kept. -/
def Closed (keep : α → Bool) (succs : α → List α) (nodes : List α) : Prop :=
  ∀ x ∈ nodes, ∀ y ∈ succs x, keep y = true → y ∈ nodes

theorem step_subset (hclosed : Closed keep succs nodes) (hstack : s.stack ⊆ s.visited)
    (hs : s.visited ⊆ nodes) : (s.step keep succs).visited ⊆ nodes := by
  unfold step
  split
  · exact hs
  · rename_i x rest hx
    refine pushAll_subset hs ?_
    exact hclosed x (hs (hstack (by rw [hx]; exact List.mem_cons_self)))

/-- Each step pops a node, as long as there is one. -/
theorem run_popped (keep : α → Bool) (succs : α → List α) (n : Nat) (s : Visit α) :
    (s.run keep succs n).stack = [] ∨
      s.popped.length + n = (s.run keep succs n).popped.length := by
  induction n generalizing s with
  | zero => exact .inr rfl
  | succ n ih =>
    rcases ih (s.step keep succs) with hempty | hlength
    · exact .inl hempty
    · cases hstack : s.stack with
      | nil =>
        have hsame : s.step keep succs = s := by
          unfold step
          rw [hstack]
        left
        have hrun : ∀ k, s.run keep succs k = s := by
          intro k
          induction k with
          | zero => rfl
          | succ k ihk => rw [run, hsame, ihk]
        rw [hrun]
        exact hstack
      | cons x rest =>
        right
        rw [run, ← hlength]
        have hpopped : (s.step keep succs).popped = s.popped ++ [x] := by
          unfold step
          rw [hstack]
          exact pushAll_popped _ _
        rw [hpopped, List.length_append, List.length_singleton]
        omega

theorem run_subset (hclosed : Closed keep succs nodes) (h : Inv keep succs root [] s)
    (hs : s.visited ⊆ nodes) (n : Nat) : (s.run keep succs n).visited ⊆ nodes := by
  induction n generalizing s with
  | zero => exact hs
  | succ n ih =>
    have hstack : s.stack ⊆ s.visited := fun x hx => (h.split x).2 (.inl hx)
    exact ih h.step (step_subset hclosed hstack hs)

/-- A visit finds its root and is closed under successors, if it is allowed a step for each
node. -/
theorem run_complete (hclosed : Closed keep succs nodes) (hroot : keep root = true → root ∈ nodes) :
    (keep root = true → root ∈ ((start keep root).run keep succs nodes.length).popped) ∧
      ∀ x ∈ ((start keep root).run keep succs nodes.length).popped,
        ∀ y ∈ succs x, keep y = true →
          y ∈ ((start keep root).run keep succs nodes.length).popped := by
  have hstart := start_inv keep succs root
  have hinv := hstart.run nodes.length
  have hsub : (start keep root).visited ⊆ nodes := push_subset (List.nil_subset nodes) hroot
  have hlength := (List.subperm_of_subset hinv.nodup
    (run_subset hclosed hstart hsub nodes.length)).length_le
  have hstack : ((start keep root).run keep succs nodes.length).stack = [] := by
    rcases run_popped keep succs nodes.length (start keep root) with h | h
    · exact h
    · have hsum := hinv.length
      exact List.eq_nil_of_length_eq_zero (by omega)
  have hpopped : ∀ x, x ∈ ((start keep root).run keep succs nodes.length).visited →
      x ∈ ((start keep root).run keep succs nodes.length).popped := by
    intro x hx
    rcases (hinv.split x).1 hx with hx | hx
    · rw [hstack] at hx
      cases hx
    · exact hx
  refine ⟨fun hr => hpopped root (hinv.root hr), ?_⟩
  intro x hx y hy hkeep
  rcases hinv.closed x hx y hy hkeep with hy | hy
  · exact hpopped y hy
  · cases hy

end Finite

end Visit
