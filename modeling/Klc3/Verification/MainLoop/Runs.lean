import Klc3.Verification.Executor.Reads
import Klc3.Verification.MainLoop.Concrete
import Klc3.Verification.MainLoop.Progress

/-!
# Runs

The states that a program gets into, in the exploration of the test program as well as
in the warm-up and the runs of the gold program, whatever the solver answers. What the
executor keeps from step to step holds of all of them.
-/

namespace Klc3

/-- A state that a run of the program gets into. Between the steps the trackers do their
bookkeeping, and states are copied with other constraints. -/
inductive Program.Visits (p : Program) : State → Prop
  | init (uid : Nat) (cs : ConstraintSet) :
      p.Visits { State.init uid p.baseMem p.initPC with constraints := cs }
  | stepped {ex : Executor} {pkg : IssuePackage} {s t : State} {r : StepResult} (h : p.Visits s)
      (hstep : ex.step ⟨s, pkg⟩ = .ok r) (ht : t ∈ r.states) : p.Visits t
  | warmedUp {ex : Executor} {pkg : IssuePackage} {s t : State} {r : StepResult} (h : p.Visits s)
      (hstep : ex.stepUnlessFork ⟨s, pkg⟩ = .ok (.inr r)) (ht : t ∈ r.states) : p.Visits t
  | tracked {s t : State} (h : p.Visits s) (hcore : t.core = s.core)
      (hstatus : t.status = s.status ∨ t.status = .broken) : p.Visits t
  | copied {s t : State} (h : p.Visits s) (hcopy : s.Copy t) : p.Visits t

theorem Executor.createInitState_init {solver : Solver} {o : Options} {p : Program}
    {ex' : Executor} {s : State}
    (h : (Executor.new solver o.forkOnSymAddrThreshold p.baseMem).createInitState p.constraints
      p.initPC = .ok (ex', s)) :
    ∃ cs, s = { State.init 0 p.baseMem p.initPC with constraints := cs } := by
  obtain ⟨s', hfold, h⟩ := Except.bind_eq_ok_iff.1 h
  cases h
  refine Except.foldlM_ok_induction (motive := fun _ (s : State) =>
    ∃ cs, s = { State.init 0 p.baseMem p.initPC with constraints := cs }) ⟨[], rfl⟩ ?_ hfold
  rintro done c s s' ⟨cs, rfl⟩ hstep
  split at hstep
  · cases hstep
  · obtain ⟨cs', -, rfl⟩ := State.addConstraint_eq_ok hstep
    exact ⟨cs', rfl⟩

theorem Executor.createInitState_visits {solver : Solver} {o : Options} {p : Program}
    {ex' : Executor} {s : State}
    (h : (Executor.new solver o.forkOnSymAddrThreshold p.baseMem).createInitState p.constraints
      p.initPC = .ok (ex', s)) : p.Visits s := by
  obtain ⟨cs, rfl⟩ := createInitState_init h
  exact .init 0 cs

namespace Exploration

variable {fuel : Nat} {solver : Solver} {o : Options} {gold : Option Gold} {E₀ E : Exploration}

/-- The states of an exploration are those of runs of the test program. -/
theorem Reaches.visits (hstart : E₀.Starts solver o gold) (hreach : E₀.Reaches fuel E) :
    ∀ s ∈ E.frontier, o.test.Visits s := by
  induction hreach with
  | refl =>
      obtain ⟨fa, ex, s₀, -, hinit, -, -, -, -, -, -, -, -, hfrontier⟩ := hstart
      intro s hs
      rw [hfrontier] at hs
      obtain rfl := List.mem_singleton.1 hs
      exact .tracked (Executor.createInitState_visits hinit) rfl (.inl rfl)
  | tail _ hnext ih =>
      obtain ⟨before, s, after, states, hfrontier, hadvance, hfrontier'⟩ := hnext
      obtain ⟨-, r, hstep, -, hfollows⟩ := Session.advance_follows hadvance
      intro u hu
      rw [hfrontier', List.mem_append] at hu
      rcases hu with hu | hu
      · apply ih
        rw [hfrontier]
        rcases List.mem_append.1 hu with hu | hu <;> simp [hu]
      · obtain ⟨t, ht, hcore, -, hstatus, -⟩ := hfollows.each.exists_left hu
        have hs : o.test.Visits s := ih s (by simp [hfrontier])
        exact .tracked (.stepped hs hstep ht) hcore hstatus

end Exploration

namespace Options

variable {solver : Solver} {o : Options} {fuel : Nat} {p : Program} {g g' : Gold}

theorem warmUpNext_visits (hg : p.Visits g.startup) (h : warmUpNext g = .ok (some g')) :
    p.Visits g'.startup := by
  unfold warmUpNext at h
  split at h
  · cases h
  · obtain ⟨r, hstep, h⟩ := Except.bind_eq_ok_iff.1 h
    cases r with
    | inl m => cases h
    | inr r =>
        dsimp only at h
        split at h
        · cases h
        · rename_i s hlast
          split at h
          · cases h
          · cases h
            exact hg.warmedUp hstep (List.mem_of_getLast? hlast)

/-- The warm-up stays in runs of the gold program. -/
theorem warmUp_visits (h : o.warmUp solver fuel p = .ok (some g)) : p.Visits g.startup := by
  obtain ⟨⟨ex, s⟩, hinit, h⟩ := Except.bind_eq_ok_iff.1 h
  obtain ⟨g', hrun, h⟩ := Except.bind_eq_ok_iff.1 h
  cases g' with
  | none => cases h
  | some g' =>
      dsimp only at h
      split at h
      · cases h
        exact (Loop.run_invariant (motive := fun g => p.Visits g.startup) hrun
          (Executor.createInitState_visits hinit) fun _ _ => warmUpNext_visits).1
      · cases h

end Options

/-- So does the comparison with a test state: every state that the gold loop steps is one
of a run of the gold program. -/
theorem Session.gold_visits {p : Program} {gold : Gold} {uid : Nat} {cs : ConstraintSet} {s : State}
    {c : Checking} {ex : Executor} {pkg : IssuePackage} {g : GoldLoop}
    (hgold : p.Visits gold.startup) (hfork : gold.startup.fork uid = .ok s)
    (hreach : Loop.Reaches goldNext ⟨c, ex, pkg,
      (Searcher.prioritizedFILO [] [] []).push [{ s with constraints := cs }]⟩ g) :
    ∀ s ∈ g.searcher.states, p.Visits s := by
  refine hreach.invariant (motive := fun g => ∀ s ∈ g.searcher.states, p.Visits s) ?_ ?_
  · intro t ht
    have ht := (Searcher.push_perm _ _).subset ht
    obtain rfl : t = { s with constraints := cs } := by
      simpa [Searcher.states, Searcher.normalStates, Searcher.completedStates] using ht
    obtain ⟨-, rfl⟩ := State.fork_eq_ok hfork
    exact hgold.copied ⟨⟨uid, cs, false, false, false, false⟩, rfl⟩
  · intro g g' hg hnext
    unfold goldNext at hnext
    split at hnext
    · cases hnext
    · rename_i s searcher hfetch
      have hperm := Searcher.fetch_perm hfetch
      obtain ⟨r, hstep, h⟩ := Except.bind_eq_ok_iff.1 hnext
      obtain ⟨checking, -, h⟩ := Except.bind_eq_ok_iff.1 h
      cases h
      intro t ht
      have ht := (Searcher.push_perm _ _).subset ht
      rcases List.mem_append.1 ht with ht | ht
      · exact hg t (hperm.symm.subset (List.mem_cons_of_mem _ ht))
      · exact (hg s (hperm.symm.subset (by simp))).stepped hstep ht

/-! ## Sums -/

/-- What no instruction loses holds of the expressions of every state, if it holds of
those that were loaded. -/
theorem Program.Visits.all {p : Program} {P : WordExpr → Prop} {s : State} (hP : Closed P)
    (hmem : ∀ addr v e, p.baseMem addr = some v → v.e = some e → P e) (h : p.Visits s) :
    s.All P := by
  induction h with
  | init uid cs =>
      refine ⟨by simp [State.init], ?_, by simp [State.init]⟩
      exact State.all_mem_of_baseMem hP rfl hmem
  | stepped _ hstep ht ih => exact (Executor.mem_step hstep ht).all hP ih
  | warmedUp _ hstep ht ih => exact (Executor.mem_stepUnlessFork hstep ht).all hP ih
  | tracked _ hcore _ ih => exact ih.of_core hcore
  | copied _ hcopy ih => exact hcopy.all ih

namespace Mach

variable {m m' : Mach} {ir : InstValue}

/-- The second operand of an `ADD`. -/
def addOperand2 (m : Mach) (ir : InstValue) : WordExpr :=
  if ir.instDef.format = .RRR then (m.s.reg ir.sr2).getD (.const 0) else .const ir.imm5

/-- `ADD` finds its operands in the form that it expects, and stores their sum. -/
theorem executeADD_sum (hlv : IssuePackage.Leveled m.pkg.issueLevel) (hm : m.s.All WordExpr.MulForm) :
    ∃ m' e, executeADD m ir = .ok m' ∧ m'.s.reg ir.dr = some e ∧
      ∀ a, e.eval a = ((m.s.reg ir.sr1).getD (.const 0)).eval a + (m.addOperand2 ir).eval a := by
  have hform : ∀ r, ((m.s.reg r).getD (.const 0)).MulForm := by
    intro r
    cases hr : m.s.reg r with
    | none => trivial
    | some e => exact hm.reg r e hr
  obtain ⟨m₁, hget₁⟩ := getReg_isOk hlv ir.sr1 ir
  have hlv₁ : IssuePackage.Leveled m₁.pkg.issueLevel := by
    rw [(getReg_effects closed_mulForm hm hget₁).1.issueLevel]
    exact hlv
  have hsecond : ∃ m₂, (if ir.instDef.format = .RRR then getReg m₁ ir.sr2 ir
      else pure (m₁, .const ir.imm5)) = .ok (m₂, m.addOperand2 ir) := by
    unfold addOperand2
    split
    · obtain ⟨m₂, hget₂⟩ := getReg_isOk hlv₁ ir.sr2 ir
      rw [(getReg_reads hget₁).1.reg_getD] at hget₂
      exact ⟨m₂, hget₂⟩
    · exact ⟨m₁, rfl⟩
  obtain ⟨m₂, hget₂⟩ := hsecond
  have hform₂ : (m.addOperand2 ir).MulForm := by
    unfold addOperand2
    split
    · exact hform ir.sr2
    · trivial
  obtain ⟨e, hsum⟩ := addResult_isOk (hform ir.sr1) hform₂
  refine ⟨⟨m₂.s.setRegAndCC ir.dr (some e) ir, m₂.pkg⟩, e, ?_, ?_, eval_addResult hsum⟩
  · unfold executeADD
    rw [hget₁]
    simp only [Except.ok_bind', Except.ite_bind_eq, hget₂, hsum, setRegAndCC_eq]
  · simp [State.setRegAndCC, State.setReg, State.mark]

end Mach

/-- In every state of every run each multiplication has a constant on its left, so that
`ADD` never finds another, and the sum that it stores is the sum of its operands. -/
theorem Program.visits_sum {p : Program} (hmem : p.Loadable) :
    ∀ s, p.Visits s →
      (∀ r left right, s.reg r = some (.mul left right) → left.IsConst) ∧
      (∀ addr v left right, s.mem.read addr = some v → v.e = some (.mul left right) →
        left.IsConst) ∧
      ∀ (pkg : IssuePackage) (ir : InstValue), pkg.Configured →
        ∃ m' e, executeADD (Mach.fetched ⟨s, pkg⟩ ir) ir = .ok m' ∧ m'.s.reg ir.dr = some e ∧
          ∀ a, e.eval a = (s.lc3 a).reg ir.sr1 +
            if ir.instDef.format = .RRR then (s.lc3 a).reg ir.sr2 else ir.imm5 := by
  intro s hs
  have hall : s.All WordExpr.MulForm :=
    hs.all closed_mulForm fun addr v e hv he => (hmem addr v e hv he).mulForm
  refine ⟨fun r left right hr => ?_, fun addr v left right hv he => ?_, fun pkg ir hpkg => ?_⟩
  · exact (hall.reg r _ hr).1
  · exact (hall.mem addr v _ hv he).1
  · obtain ⟨m', e, hrun, he, hsum⟩ := @Mach.executeADD_sum (Mach.fetched ⟨s, pkg⟩ ir) ir
      hpkg.leveled (Executor.fetched_all hall)
    refine ⟨m', e, hrun, he, fun a => (hsum a).trans ?_⟩
    unfold Mach.addOperand2
    rw [s.lc3_reg]
    split
    · rw [s.lc3_reg]
      rfl
    · rfl

/-- A program that doubles its input twice. -/
def Program.doubling : Program where
  mem :=
    [(0x3000, .inst ⟨0x3000, 0x2002, ⟨.LD, .RL, 0xF000, 0x2000⟩, matchInst_load, false, [],
        "doubling.asm", 1, "LD R0, INPUT"⟩),
     (0x3001, .inst ⟨0x3001, 0x1000, ⟨.ADD, .RRR, 0xF038, 0x1000⟩, by decide, false, [],
        "doubling.asm", 2, "ADD R0, R0, R0"⟩),
     (0x3002, .inst ⟨0x3002, 0x1000, ⟨.ADD, .RRR, 0xF038, 0x1000⟩, by decide, false, [],
        "doubling.asm", 3, "ADD R0, R0, R0"⟩),
     (0x3003, .data ⟨some (.read .sample 0), false, false⟩)]
  constraints := []
  initPC := 0x3000
  preferences := []

theorem doubling_sum : ∃ (s : State) (ir : InstValue) (m' : Mach) (e : WordExpr),
    Program.doubling.Loadable ∧ Program.doubling.Visits s ∧
    s.mem.read s.pc = some (.inst ir) ∧ ir.instID = .ADD ∧
    s.reg 0 = some (.mul (.const 2) (.read .sample 0)) ∧
    executeADD (Mach.fetched ⟨s, .empty⟩ ir) ir = .ok m' ∧ m'.s.reg 0 = some e ∧
    ∀ a, e.eval a = (s.lc3 a).reg 0 + (s.lc3 a).reg 0 := by
  have hmem : Program.doubling.Loadable := by
    intro addr v e hv he
    have hv := ConstraintSet.mem_of_lookup_eq_some hv
    simp only [Program.doubling, List.mem_cons, Prod.mk.injEq, List.not_mem_nil, or_false] at hv
    rcases hv with ⟨-, rfl⟩ | ⟨-, rfl⟩ | ⟨-, rfl⟩ | ⟨-, rfl⟩ <;> cases he <;> trivial
  have hinit : Program.doubling.Visits (State.init 0 Program.doubling.baseMem 0x3000) := .init 0 []
  have hrun : ∃ r₁ s₁, (Executor.new Solver.ideal 0 Program.doubling.baseMem).step
        ⟨State.init 0 Program.doubling.baseMem 0x3000, .empty⟩ = .ok r₁ ∧ r₁.states = [s₁] ∧
      ∃ r₂ s₂, r₁.ex.step ⟨s₁, .empty⟩ = .ok r₂ ∧ r₂.states = [s₂] ∧
        s₂.reg 0 = some (.mul (.const 2) (.read .sample 0)) ∧
        ∃ ir, s₂.mem.read s₂.pc = some (.inst ir) ∧ ir.ir = 0x1000 ∧
          ir.instDef = ⟨.ADD, .RRR, 0xF038, 0x1000⟩ := by
    refine ⟨_, _, rfl, rfl, _, _, rfl, rfl, rfl, _, rfl, rfl, rfl⟩
  obtain ⟨r₁, s₁, hstep₁, hr₁, r₂, s₂, hstep₂, hr₂, hreg, ir, hread, hir, hdef⟩ := hrun
  have hs₁ : Program.doubling.Visits s₁ := hinit.stepped hstep₁ (by simp [hr₁])
  have hs₂ : Program.doubling.Visits s₂ := hs₁.stepped hstep₂ (by simp [hr₂])
  obtain ⟨m', e, hadd, he, hsum⟩ := (Program.visits_sum hmem s₂ hs₂).2.2 .empty ir .empty
  have hdr : ir.dr = 0 := by simp [InstValue.dr, hir]; decide
  have hsr1 : ir.sr1 = 0 := by simp [InstValue.sr1, hir]; decide
  have hsr2 : ir.sr2 = 0 := by simp [InstValue.sr2, hir]; decide
  rw [hdr] at he
  simp only [hsr1, hsr2, hdef, if_true] at hsum
  exact ⟨s₂, ir, m', e, hmem, hs₂, hread, by rw [InstValue.instID, hdef], hreg, hadd, he, hsum⟩

end Klc3
