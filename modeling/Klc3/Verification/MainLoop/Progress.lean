import Klc3.Verification.Executor.Progress
import Klc3.Verification.MainLoop.Partition

/-!
# Steps that fail in an exploration

Whatever an exploration reaches, a step of a `NORMAL` state finishes unless it executes
one of the instructions of `State.ExecuteFails`.
-/

namespace Klc3

/-- What the loader puts into memory: a constant or an element of a symbolic array. -/
def WordExpr.IsLoaded : WordExpr → Prop
  | .const _ => True
  | .read _ _ => True
  | _ => False

theorem WordExpr.IsLoaded.mulForm {e : WordExpr} (h : e.IsLoaded) : e.MulForm := by
  cases e <;> trivial

/-- A memory as the loader builds it. -/
def Program.Loadable (p : Program) : Prop :=
  ∀ addr v e, p.baseMem addr = some v → v.e = some e → e.IsLoaded

namespace Exploration

variable {fuel : Nat} {solver : Solver} {o : Options} {gold : Option Gold} {E₀ E : Exploration}

/-- In every exploration of a loaded program, under every configuration of the levels, a
step fails exactly on an instruction of `State.ExecuteFails`. -/
theorem reachable_step_isOk_iff (exact : solver.Exact) (hpkg : o.issuePackage.Configured)
    (hmem : o.test.Loadable) (hstart : E₀.Starts solver o gold) (hreach : E₀.Reaches fuel E) :
    ∀ s ∈ E.frontier, s.status = .normal →
      ((∃ r, E.session.ex.step ⟨s, E.session.pkg⟩ = .ok r) ↔
        ¬ ∃ ir, s.mem.read s.pc = some (.inst ir) ∧
          (Mach.fetched ⟨s, E.session.pkg⟩ ir).s.ExecuteFails E.session.pkg.issueLevel ir) := by
  intro s hs hnormal
  have hinit : E₀.Inv WordExpr.MulForm solver o :=
    hstart.inv closed_mulForm exact fun addr v e hv he => (hmem addr v e hv he).mulForm
  have hinv := Reaches.inv closed_mulForm hinit hreach
  refine Executor.step_isOk_iff (m := ⟨s, E.session.pkg⟩) hinv.wf (hinv.owns hs) ?_ hnormal
    (hinv.all s hs)
  rw [hinv.issueLevel]
  exact hpkg.leveled

theorem sample_step_isOk : ∃ (E : Exploration) (s : State) (r : StepResult),
    E.Starts Solver.ideal .sample none ∧ s ∈ E.frontier ∧ s.status = .normal ∧
    E.session.ex.step ⟨s, E.session.pkg⟩ = .ok r := by
  obtain ⟨E, hE⟩ := sample_starts
  have hstart := hE
  obtain ⟨fa, ex, s, -, hinit, -, hpkg, -, -, -, -, -, -, hfrontier⟩ := hE
  have hmem : (fa.setupInitState s).2 ∈ E.frontier := by
    rw [hfrontier]
    exact List.mem_singleton.2 rfl
  have hloadable : Options.sample.test.Loadable := by
    intro addr v e hv he
    have hin := ConstraintSet.mem_of_lookup_eq_some hv
    simp only [Options.sample, Program.sample, List.mem_cons, Prod.mk.injEq, List.not_mem_nil,
      or_false] at hin
    rcases hin with ⟨-, rfl⟩ | ⟨-, rfl⟩ | ⟨-, rfl⟩ | ⟨-, rfl⟩ <;> cases he <;> trivial
  cases hinit
  obtain ⟨r, hr⟩ := (@reachable_step_isOk_iff 0 _ _ _ _ _ Solver.ideal_exact .empty hloadable
    hstart .refl _ hmem rfl).2 (by
      rintro ⟨ir, hir, hfails⟩
      cases hir
      exact hfails)
  exact ⟨E, _, r, hstart, hmem, rfl, hr⟩

end Exploration

/-- A program whose only instruction is `RTI`. -/
def Program.unsupported : Program where
  mem :=
    [(0x3000, .inst ⟨0x3000, 0x8000, ⟨.RTI, .none, 0x8000, 0x8000⟩, by decide, false, [],
        "unsupported.asm", 1, "RTI"⟩)]
  constraints := []
  initPC := 0x3000
  preferences := []

/-- `Program.unsupported` with the default levels. -/
def Options.unsupported : Options :=
  { Options.sample with test := .unsupported }

/-- `ERR_INVALID_INST` has no level, so that reporting an `RTI` fails an assertion. -/
theorem unsupported_step_fails : ∃ (E : Exploration) (s : State),
    Options.unsupported.issuePackage.Configured ∧ Options.unsupported.test.Loadable ∧
    E.Starts Solver.ideal .unsupported none ∧ s ∈ E.frontier ∧ s.status = .normal ∧
    E.session.ex.step ⟨s, E.session.pkg⟩ = .error .unknownIssueType := by
  have hstart : ∃ l, Options.unsupported.start Solver.ideal none = .ok l := ⟨_, rfl⟩
  obtain ⟨l, hl⟩ := hstart
  obtain ⟨E, hE, -⟩ := Options.start_explores rfl hl
  have hstart := hE
  obtain ⟨fa, ex, s, -, hinit, hex, hpkg, -, -, -, -, -, -, hfrontier⟩ := hE
  refine ⟨E, (fa.setupInitState s).2, .empty, ?_, hstart, ?_, ?_⟩
  · intro addr v e hv he
    have hin := ConstraintSet.mem_of_lookup_eq_some hv
    simp only [Options.unsupported, Program.unsupported, List.mem_cons, Prod.mk.injEq,
      List.not_mem_nil, or_false] at hin
    obtain ⟨-, rfl⟩ := hin
    cases he
    trivial
  · rw [hfrontier]
    exact List.mem_singleton.2 rfl
  · cases hinit
    rw [hex, hpkg]
    exact ⟨rfl, rfl⟩

end Klc3
