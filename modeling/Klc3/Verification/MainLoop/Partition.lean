import Klc3.Verification.Executor.Closed
import Klc3.Verification.MainLoop.Exploration

/-!
# Path partition

No input is lost and none is explored twice: a step splits the inputs of its state,
and the states of an exploration split the inputs of the program.
-/

namespace Klc3

/-- Every input of the first constraints belongs to exactly one of the states, each of
which has an input. -/
structure PartitionedBy (sat : Assignment → Prop) (states : List State) : Prop where
  exactlyOne : ∀ a, sat a → ∃! i : Fin states.length, (states.get i).constraints.Sat a
  within : ∀ t ∈ states, ∀ a, t.constraints.Sat a → sat a
  satisfiable : ∀ t ∈ states, t.constraints.Satisfiable

theorem partitionedBy_of_splits {sat : Assignment → Prop} {states : List State}
    (h : Splits sat (states.map fun t => t.constraints.Sat)) : PartitionedBy sat states where
  exactlyOne a ha := by
    obtain ⟨i, hi, hunique⟩ := h.existsUnique ha
    have hlen : (states.map fun t => t.constraints.Sat).length = states.length := by simp
    refine ⟨i.cast hlen, by simpa using hi, fun j hj => ?_⟩
    have heq := hunique (j.cast hlen.symm) (by simpa using hj)
    rw [← heq]
    rfl
  within t ht a ha := (h.covers a).2 ⟨_, List.mem_map_of_mem ht, ha⟩
  satisfiable t ht := h.inhabited _ (List.mem_map_of_mem ht)

namespace Exploration

variable {fuel : Nat} {solver : Solver} {o : Options} {gold : Option Gold} {E₀ E : Exploration}

theorem Reaches.inv_true (exact : solver.Exact) (hstart : E₀.Starts solver o gold)
    (hreach : E₀.Reaches fuel E) : E.Inv (fun _ => True) solver o :=
  Reaches.inv closed_true (hstart.inv closed_true exact fun _ _ _ _ _ => trivial) hreach

/-- In every exploration, the results of a step partition the inputs of the state that
was stepped, and the states that are not stepped yet partition those of the program. -/
theorem reachable_states_partition (exact : solver.Exact) (hstart : E₀.Starts solver o gold)
    (hreach : E₀.Reaches fuel E) :
    (∀ s ∈ E.frontier, s.status = .normal → ∀ r,
      E.session.ex.step ⟨s, E.session.pkg⟩ = .ok r → PartitionedBy s.constraints.Sat r.states) ∧
    PartitionedBy (fun a => ∀ c ∈ o.test.constraints, c.eval a = true) E.frontier := by
  have hinv := Reaches.inv_true exact hstart hreach
  constructor
  · intro s hs _ r hstep
    exact partitionedBy_of_splits (Executor.step_spec closed_true hinv.wf (hinv.owns hs)
      (hinv.all s hs) hstep).splits
  · have hinit : (fun a => ∀ c ∈ o.test.constraints, c.eval a = true) =
        E.session.ex.initConstraints.Sat := funext fun a => propext (hinv.init a).symm
    rw [hinit]
    exact partitionedBy_of_splits hinv.splits

/-- The main loop runs `Program.sample` to its branch, which forks. -/
theorem sample_states_partition : ∃ (solver : Solver) (E₀ E₁ E₂ : Exploration) (s : State)
    (r : StepResult), E₀.Starts solver .sample none ∧ E₀.Reaches 0 E₁ ∧ E₁.Reaches 0 E₂ ∧
    E₁.frontier = [s] ∧ s.pc = 0x3001 ∧ E₁.session.ex.step ⟨s, E₁.session.pkg⟩ = .ok r ∧
    r.states.length = 2 ∧ PartitionedBy s.constraints.Sat r.states ∧ E₂.frontier.length = 2 ∧
    PartitionedBy (fun a => ∀ c ∈ Program.sample.constraints, c.eval a = true) E₂.frontier := by
  have exact : (Solver.forking (.eq (.const 0) (.read .sample 0))).Exact :=
    Solver.forking_exact ⟨fun _ _ => 0, rfl⟩ ⟨fun _ _ => 1, rfl⟩
  obtain ⟨l, l₁, s, r, l₂, hstart, hload, hsearcher, hpc, hnormal, hstep, hfork, hbranch, hlen⟩ :
      ∃ (l l₁ : MainLoop) (s : State) (r : StepResult) (l₂ : MainLoop),
        Options.sample.start (.forking (.eq (.const 0) (.read .sample 0))) none = .ok l ∧
        l.next 0 = .ok (some l₁) ∧ l₁.searcher.states = [s] ∧ s.pc = 0x3001 ∧
        s.status = .normal ∧ l₁.session.ex.step ⟨s, l₁.session.pkg⟩ = .ok r ∧
        r.states.length = 2 ∧ l₁.next 0 = .ok (some l₂) ∧ l₂.searcher.states.length = 2 :=
    ⟨_, _, _, _, _, rfl, rfl, rfl, rfl, rfl, rfl, rfl, rfl, rfl⟩
  obtain ⟨E₀, hstarts, hagrees⟩ := Options.start_explores rfl hstart
  obtain ⟨E₁, hreach₁, hagrees₁⟩ := MainLoop.reaches_explores hagrees (.single hload)
  obtain ⟨E₂, hreach₂, hagrees₂⟩ := MainLoop.reaches_explores hagrees₁ (.single hbranch)
  have hfrontier : E₁.frontier = [s] := by
    have hperm := hagrees₁.frontier
    rw [hsearcher] at hperm
    exact List.perm_singleton.1 hperm
  rw [← hagrees₁.session] at hstep
  refine ⟨_, E₀, E₁, E₂, s, r, hstarts, hreach₁, hreach₂, hfrontier, hpc, hstep, hfork,
    (reachable_states_partition exact hstarts hreach₁).1 s ?_ hnormal r hstep,
    hagrees₂.frontier.length_eq.trans hlen,
    (reachable_states_partition exact hstarts (hreach₁.trans hreach₂)).2⟩
  rw [hfrontier]
  exact List.mem_singleton.2 rfl

end Exploration

end Klc3
