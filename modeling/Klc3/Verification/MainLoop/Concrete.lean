import Klc3.Verification.Machine.Isa
import Klc3.Verification.MainLoop.Partition

/-!
# Explorations follow the LC-3

Evaluated under an assignment of the inputs, a state is an LC-3. Whatever an exploration
reaches, a step that goes on takes that LC-3 to its successor.
-/

namespace Klc3

namespace State

variable {s : State} {a : Assignment}

/-- The LC-3 that a state denotes. Whatever is null or unspecified counts as 0. -/
def lc3 (a : Assignment) (s : State) : Lc3 where
  reg r := ((s.reg r).map (·.eval a)).getD 0
  pc := s.pc
  mem addr := (((s.mem.read addr).bind MemValue.e).map (·.eval a)).getD 0
  out := s.lc3Out.map (·.eval a)

/-- The value that `State::getCCExpr` denotes. -/
def ccValue (a : Assignment) (s : State) : Word :=
  (s.getCCExpr.map (·.eval a)).getD 0

theorem lc3_reg (s : State) (a : Assignment) (r : Fin 8) :
    (s.lc3 a).reg r = ((s.reg r).getD (.const 0)).eval a := by
  change ((s.reg r).map (·.eval a)).getD 0 = _
  cases s.reg r <;> rfl

theorem valueOf_getD {strict : Bool} (e : Option WordExpr) :
    (valueOf strict a e).getD 0 = (e.map (·.eval a)).getD 0 := by
  cases strict <;> rfl

theorem conc_lc3 {strict : Bool} : (s.conc strict a).lc3 = s.lc3 a := by
  simp only [Machine.lc3, lc3, conc, valueOf_getD, Lc3.mk.injEq, true_and, and_true]
  funext addr
  cases s.mem.read addr with
  | none => rfl
  | some v =>
      rw [Option.map_some, Option.bind_some, Option.bind_some, MemValue.conc_value, valueOf_getD]

theorem conc_ccValue {strict : Bool} : (s.conc strict a).ccValue = s.ccValue a := by
  unfold Machine.ccValue ccValue State.getCCExpr
  change (s.ccRef.bind fun r => valueOf strict a (s.reg r)).getD 0 = _
  cases s.ccRef with
  | none => rfl
  | some r => exact valueOf_getD (s.reg r)

/-- The device registers are part of what `MemoryManager::read` shows. -/
theorem lc3_load (addr : Word) : (s.lc3 a).load addr = (s.lc3 a).mem addr := by
  simp only [Lc3.load, lc3, MemoryManager.read, Lc3.kbsr, Lc3.dsr, Lc3.ddr, Lc3.mcr]
  split
  · rfl
  split
  · rfl
  split
  · rfl
  split <;> rfl

end State

namespace Executor

variable {ex : Executor} {m : Mach} {r : StepResult} {t : State} {a : Assignment}

theorem step_lc3 (hwf : ex.WF) (howns : ex.Owns m.s.constraints) (hnormal : m.s.status = .normal)
    (h : ex.step m = .ok r) (ht : t ∈ r.states) (htnormal : t.status = .normal)
    (ha : t.constraints.Sat a) : (m.s.lc3 a).step (m.s.ccValue a) = some (t.lc3 a) := by
  have hval := (step_sim hwf howns rfl hnormal h ht ha (.inr (.inl htnormal))).val
  have hnormal' := congrArg Machine.status hval
  have hstep := Machine.step_lc3 (by rw [State.conc_lc3]; exact State.lc3_load)
    (hnormal'.trans htnormal)
  rwa [hval, State.conc_lc3, State.conc_lc3, State.conc_ccValue] at hstep

end Executor

namespace Exploration

variable {fuel : Nat} {solver : Solver} {o : Options} {gold : Option Gold} {E₀ E : Exploration}

/-- In every exploration, a result that goes on denotes the LC-3 successor of the state
that was stepped, whatever the inputs that lead to it. -/
theorem reachable_step_lc3 (exact : solver.Exact) (hstart : E₀.Starts solver o gold)
    (hreach : E₀.Reaches fuel E) :
    ∀ s ∈ E.frontier, s.status = .normal → ∀ r, E.session.ex.step ⟨s, E.session.pkg⟩ = .ok r →
      ∀ t ∈ r.states, t.status = .normal → ∀ a, t.constraints.Sat a →
        (s.lc3 a).step (s.ccValue a) = some (t.lc3 a) := by
  intro s hs hnormal r hstep t ht htnormal a ha
  have hinv := Reaches.inv_true exact hstart hreach
  exact Executor.step_lc3 (m := ⟨s, E.session.pkg⟩) hinv.wf (hinv.owns hs) hnormal hstep ht
    htnormal ha

theorem sample_step_lc3 : ∃ (E : Exploration) (s t : State) (r : StepResult),
    E.Starts Solver.ideal .sample none ∧ s ∈ E.frontier ∧ s.status = .normal ∧
    E.session.ex.step ⟨s, E.session.pkg⟩ = .ok r ∧ t ∈ r.states ∧ t.status = .normal ∧
    ∀ a, t.constraints.Sat a → (s.lc3 a).step (s.ccValue a) = some (t.lc3 a) := by
  obtain ⟨E, hE⟩ := sample_starts
  have hstart := hE
  obtain ⟨fa, ex, s, -, hinit, hex, hpkg, -, -, -, -, -, -, hfrontier⟩ := hE
  obtain ⟨s₀, hs₀⟩ : ∃ s₀, s₀ = (fa.setupInitState s).2 := ⟨_, rfl⟩
  rw [← hs₀] at hfrontier
  have hstep : s₀.status = .normal ∧ ∃ r t, E.session.ex.step ⟨s₀, E.session.pkg⟩ = .ok r ∧
      t ∈ r.states ∧ t.status = .normal := by
    cases hinit
    rw [hex, hpkg, hs₀]
    exact ⟨rfl, _, _, rfl, List.mem_singleton.2 rfl, rfl⟩
  obtain ⟨hnormal, r, t, hstep, ht, htnormal⟩ := hstep
  have hmem : s₀ ∈ E.frontier := by rw [hfrontier]; exact List.mem_singleton.2 rfl
  exact ⟨E, s₀, t, r, hstart, hmem, hnormal, hstep, ht, htnormal,
    @reachable_step_lc3 0 _ _ _ _ _ Solver.ideal_exact hstart .refl _ hmem hnormal r hstep t ht
      htnormal⟩

end Exploration

end Klc3
