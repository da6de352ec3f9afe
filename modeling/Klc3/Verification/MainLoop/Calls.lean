import Klc3.Verification.FlowGraph.CallStack
import Klc3.Verification.MainLoop.Code

/-!
# Calls and returns in the main loop

How an iteration of the main loop moves the stacks of a state: the step leaves them
alone, the tracker moves them, and nothing after it touches them.
-/

namespace Klc3

open FlowAnalysis (Paints)

namespace Executor

variable {ex : Executor} {m : Mach} {t : State}

/-- A step leaves the stacks to the tracker, except that a `RET` in the main code may end
the tracking. -/
theorem Steps.stacks (h : Steps ex m t) : t.colorStack = m.s.colorStack ∧
    t.jsrStack = m.s.jsrStack ∧ (t.stackHasMessedUp = m.s.stackHasMessedUp ∨
      (t.stackHasMessedUp = true ∧ m.s.colorStack.length = 1)) := by
  cases h with
  | stopped => exact ⟨rfl, rfl, .inl rfl⟩
  | fails m' type note _ hraise _ =>
      have hpath := (Mach.newStateIssue_reads hraise).path
      exact ⟨hpath.colorStack, hpath.jsrStack, hpath.messedUp⟩
  | executes ir _ _ _ h =>
      have hpath := h.keeps.path
      exact ⟨hpath.colorStack, hpath.jsrStack, hpath.messedUp⟩

/-- The stacks are those before the step, unless it has messed them up. -/
theorem Steps.callStack_eq (h : Steps ex m t) (hmessed : t.stackHasMessedUp = false) :
    t.callStack = m.s.callStack := by
  obtain ⟨hcolors, hjsr, heq | ⟨htrue, -⟩⟩ := h.stacks
  · rw [State.callStack, hcolors, hjsr, heq]
    rfl
  · rw [htrue] at hmessed
    cases hmessed

/-- Whether a `RET` is improper can be told before the step. -/
theorem Steps.improper (h : Steps ex m t) (i : InstValue) (pc : Word) :
    t.callStack.improper i pc = m.s.callStack.improper i pc := by
  obtain ⟨hcolors, hjsr, heq | ⟨htrue, hone⟩⟩ := h.stacks
  · rw [State.callStack, hcolors, hjsr, heq]
    rfl
  · simp [CallStack.improper, State.callStack, hcolors, hone]

/-- The last user instruction after a step that goes on. -/
theorem Steps.latest (h : Steps ex m t) (hnormal : m.s.status = .normal)
    (ht : t.status ≠ .broken) : ∃ ir, m.s.mem.read m.s.pc = some (.inst ir) ∧
      t.latestNonOSInst =
        if ir.belongsToOS then m.s.latestNonOSInst else (some ir, m.s.latestNonOSInst.1) := by
  cases h with
  | stopped hne => exact absurd hnormal hne
  | fails m' type note _ _ hbroken => exact absurd hbroken ht
  | executes ir _ hfetch _ h => exact ⟨ir, hfetch, h.keeps.path.latestNonOSInst⟩

end Executor

/-- An instruction in memory was loaded there. -/
theorem Program.Visits.read_inst_base {p : Program} {s : State} (h : p.Visits s) {addr : Word}
    {i : InstValue} (hread : s.mem.read addr = some (.inst i)) :
    p.baseMem addr = some (.inst i) := by
  induction h with
  | init uid cs => exact MemoryManager.read_inst_base hread
  | stepped _ hstep ht ih => exact ih (((Executor.mem_step hstep ht).read_inst addr i).1 hread)
  | warmedUp _ hstep ht ih =>
      exact ih (((Executor.mem_stepUnlessFork hstep ht).read_inst addr i).1 hread)
  | tracked _ hcore _ ih => exact ih (by rwa [← State.core_mem hcore])
  | copied _ hcopy ih => exact ih (by rwa [← (State.Reads.of_copy hcopy).mem])

/-! ## One iteration -/

namespace Session

variable {S S' : Session} {fa fa' : FlowAnalysis} {pkg pkg' : IssuePackage} {s : State}
variable {states states' : List State} {fuel : Nat}

theorem compare_stacks {c : CrossChecker} {gold : State} {m : Mach} {cs : ConstraintSet}
    {v : CrossChecker.Verdict} (h : c.compare gold m cs = .ok v) :
    v.test.s.callStack = m.s.callStack := by
  refine Except.foldlM_ok_induction (motive := fun _ (v : CrossChecker.Verdict) =>
    v.test.s.callStack = m.s.callStack) rfl ?_ h
  intro done list v v' hv hstep
  unfold CrossChecker.compareList at hstep
  split at hstep
  · cases hstep
    exact hv
  · obtain ⟨⟨failed, note, cs⟩, -, hstep⟩ := Except.bind_eq_ok_iff.1 hstep
    dsimp only at hstep
    split at hstep
    · cases hstep
      exact hv
    · obtain ⟨m', hraise, hstep⟩ := Except.bind_eq_ok_iff.1 hstep
      cases hstep
      obtain ⟨⟨trigger, hs⟩, -⟩ := Mach.newStateIssueWith_eq_ok hraise
      refine Eq.trans ?_ hv
      rw [hs]
      rfl

theorem compareWith_stacks {c c' : Checking} {gold : State} {cs : ConstraintSet}
    (h : compareWith c gold cs = .ok c') : c'.test.callStack = c.test.callStack := by
  obtain ⟨v, hcompare, h⟩ := Except.bind_eq_ok_iff.1 h
  cases h
  exact compare_stacks hcompare

theorem goldNext_stacks {g g' : GoldLoop} (h : goldNext g = .ok (some g')) :
    g'.checking.test.callStack = g.checking.test.callStack := by
  unfold goldNext at h
  split at h
  · cases h
  · obtain ⟨r, -, h⟩ := Except.bind_eq_ok_iff.1 h
    obtain ⟨checking, hcompare, h⟩ := Except.bind_eq_ok_iff.1 h
    cases h
    refine Except.foldlM_ok_induction (motive := fun _ (c : Checking) =>
      c.test.callStack = g.checking.test.callStack) rfl ?_ hcompare
    intro done gold c₁ c₂ hc hstep
    split at hstep
    · exact (compareWith_stacks hstep).trans hc
    · cases hstep
    · cases hstep
      exact hc

theorem crossCheck_stacks {test : State} {c : Checking}
    (h : crossCheck fuel S test = .ok (some c)) : c.test.callStack = test.callStack := by
  unfold crossCheck at h
  split at h
  · cases h
    rfl
  · split at h
    · obtain ⟨c', hcompare, h⟩ := Except.bind_eq_ok_iff.1 h
      cases h
      exact compareWith_stacks hcompare
    · obtain ⟨s, -, h⟩ := Except.bind_eq_ok_iff.1 h
      obtain ⟨result, hrun, h⟩ := Except.bind_eq_ok_iff.1 h
      split at h
      · cases h
      · rename_i gold _ _ _ g
        have hstacks := (Loop.run_invariant
          (motive := fun g => g.checking.test.callStack = test.callStack) hrun rfl
          fun g g' hg hnext => (goldNext_stacks hnext).trans hg).1
        split at h
        · cases h
          exact hstacks
        · cases h

/-- The checks after the trackers leave the stacks alone. -/
theorem checkResult_stacks {c : Checking} (h : checkResult fuel S s = .ok (some c)) :
    c.test.callStack = s.callStack := by
  unfold checkResult at h
  dsimp only at h
  have hafter : ∀ {m : Mach}, m.s.callStack = s.callStack →
      (if m.s.status = .halted then
        SubroutineTracker.postCheckState S.fa.fg.initPC m >>= fun m =>
          crossCheck fuel { S with pkg := m.pkg } m.s
        else pure (some ⟨{ S with pkg := m.pkg }, m.s⟩)) = .ok (some c) →
      c.test.callStack = s.callStack := by
    intro m hm h
    split at h
    · obtain ⟨m', hpost, h⟩ := Except.bind_eq_ok_iff.1 h
      refine (crossCheck_stacks h).trans (Eq.trans ?_ hm)
      unfold SubroutineTracker.postCheckState at hpost
      split at hpost
      · cases hpost
        rfl
      · split at hpost
        · cases hpost
        · split at hpost
          · exact (SubroutineTracker.newStateIssue_stacks hpost).1
          · cases hpost
            rfl
    · cases h
      exact hm
  split at h
  · obtain ⟨m, hlimit, h⟩ := Except.bind_eq_ok_iff.1 h
    refine hafter ?_ h
    unfold Limits.checkLimitOnState at hlimit
    split at hlimit
    · exact (SubroutineTracker.newStateIssue_stacks (Limits.reach_eq_ok hlimit).1).1
    · split at hlimit
      · exact (SubroutineTracker.newStateIssue_stacks (Limits.reach_eq_ok hlimit).1).1
      · split at hlimit
        · exact (SubroutineTracker.newStateIssue_stacks (Limits.reach_eq_ok hlimit).1).1
        · cases hlimit
          rfl
  · exact hafter rfl h

/-- Coverage is no matter of colours. -/
theorem updateCoverage_colors (h : updateCoverage fa states = .ok (fa', states')) :
    fa'.colors = fa.colors ∧ fa'.subroutines = fa.subroutines := by
  induction states generalizing fa states' with
  | nil =>
      cases h
      exact ⟨rfl, rfl⟩
  | cons s rest ih =>
      obtain ⟨⟨fg, s'⟩, -, h⟩ := Except.bind_eq_ok_iff.1 h
      obtain ⟨⟨fa₁, rest'⟩, hrest, h⟩ := Except.bind_eq_ok_iff.1 h
      cases h
      obtain ⟨hcolors, hsubroutines⟩ := ih hrest
      exact ⟨hcolors, hsubroutines⟩

theorem updateCoverage_paints (h : updateCoverage fa states = .ok (fa', states')) :
    fa.Paints fa' := by
  have hgrows := updateCoverage_grows h
  obtain ⟨hcolors, hsubroutines⟩ := updateCoverage_colors h
  refine ⟨hgrows.nodes, hgrows.initPC, (FlowAnalysis.marks_congr hcolors).symm.subset, fun c hc => ?_⟩
  rw [FlowAnalysis.Knows, hsubroutines]
  exact hc

theorem updateCoverage_stacks (h : updateCoverage fa states = .ok (fa', states')) :
    List.Forall₂ (fun t u => u.core = t.core ∧ u.callStack = t.callStack ∧ u.status = t.status)
      states states' := by
  induction states generalizing fa states' with
  | nil =>
      cases h
      exact .nil
  | cons s rest ih =>
      obtain ⟨⟨fg, s'⟩, hupdate, h⟩ := Except.bind_eq_ok_iff.1 h
      obtain ⟨⟨fa₁, rest'⟩, hrest, h⟩ := Except.bind_eq_ok_iff.1 h
      cases h
      obtain ⟨covered, path, rfl⟩ := CoverageTracker.updateGraphAndCoverage_eq_ok hupdate
      exact .cons ⟨rfl, rfl, rfl⟩ (ih hrest)

theorem updateAllColors_paints (h : updateAllColors fa pkg states = .ok (fa', pkg', states')) :
    fa.Paints fa' := by
  induction states generalizing fa pkg states' with
  | nil =>
      cases h
      exact .refl _
  | cons s rest ih =>
      obtain ⟨⟨fa₁, m⟩, hupdate, h⟩ := Except.bind_eq_ok_iff.1 h
      obtain ⟨⟨fa₂, pkg₁, rest'⟩, hrest, h⟩ := Except.bind_eq_ok_iff.1 h
      cases h
      exact (SubroutineTracker.updateColors_paints hupdate).trans (ih hrest)

/-- Every result state is updated once, under the colours of that moment. -/
theorem updateAllColors_each (h : updateAllColors fa pkg states = .ok (fa', pkg', states')) :
    List.Forall₂ (fun u t => ∃ fa₁ pkg₁ fa₂ pkg₂, fa.Paints fa₁ ∧
      SubroutineTracker.updateColors fa₁ ⟨u, pkg₁⟩ = .ok (fa₂, ⟨t, pkg₂⟩) ∧ fa₂.Paints fa')
      states states' := by
  induction states generalizing fa pkg states' with
  | nil =>
      cases h
      exact .nil
  | cons s rest ih =>
      obtain ⟨⟨fa₁, m⟩, hupdate, h⟩ := Except.bind_eq_ok_iff.1 h
      obtain ⟨⟨fa₂, pkg₁, rest'⟩, hrest, h⟩ := Except.bind_eq_ok_iff.1 h
      cases h
      refine .cons ⟨fa, pkg, fa₁, m.pkg, .refl fa, hupdate, updateAllColors_paints hrest⟩ ?_
      refine (ih hrest).imp ?_
      rintro u t ⟨fa₃, pkg₃, fa₄, pkg₄, hbefore, hu, hafter⟩
      exact ⟨fa₃, pkg₃, fa₄, pkg₄, (SubroutineTracker.updateColors_paints hupdate).trans hbefore,
        hu, hafter⟩

theorem checkResults_stacks (h : checkResults fuel S states = .ok (some (S', states'))) :
    List.Forall₂ (fun t t' => t'.core = t.core ∧ t'.callStack = t.callStack ∧
      (t'.status = t.status ∨ t'.status = .broken)) states states' := by
  induction states generalizing S states' with
  | nil =>
      cases h
      exact .nil
  | cons s rest ih =>
      obtain ⟨c, hcheck, h⟩ := Except.bind_eq_ok_iff.1 h
      cases c with
      | none => cases h
      | some c =>
          obtain ⟨r, hrest, h⟩ := Except.bind_eq_ok_iff.1 h
          cases r with
          | none => cases h
          | some r =>
              cases h
              have htracked := (checkResult_checks hcheck).tracked
              exact .cons ⟨htracked.core, checkResult_stacks hcheck, htracked.status⟩ (ih hrest)

/-- How a result of a step becomes a state of the searcher: `updateColors` is called on it
once, between colours of the iteration. -/
structure Retraces (fa fa' : FlowAnalysis) (t t' : State) : Prop where
  calls : ∃ (u v : State) (pkg pkg' : IssuePackage) (fa₁ fa₂ : FlowAnalysis),
    (u.core = t.core ∧ u.callStack = t.callStack ∧ u.status = t.status) ∧ fa.Paints fa₁ ∧
    SubroutineTracker.updateColors fa₁ ⟨u, pkg⟩ = .ok (fa₂, ⟨v, pkg'⟩) ∧ fa₂.Paints fa' ∧
    t'.core = v.core ∧ t'.callStack = v.callStack ∧ (t'.status = v.status ∨ t'.status = .broken)

theorem advance_retraces (h : S.advance fuel s = .ok (some (S', states'))) :
    ∃ r, s.status = .normal ∧ S.ex.step ⟨s, S.pkg⟩ = .ok r ∧ S.fa.Paints S'.fa ∧
      ∀ t' ∈ states', ∃ t ∈ r.states, Retraces S.fa S'.fa t t' := by
  obtain ⟨hnormal, r, fa₁, states₁, fa₂, pkg₂, states₂, hstep, hcoverage, hcolors, hcheck⟩ :=
    advance_eq_ok h
  have hpaints := updateCoverage_paints hcoverage
  have hfa : S'.fa = fa₂ := (checkResults_follows hcheck).2.2.1
  rw [hfa]
  refine ⟨r, hnormal, hstep, hpaints.trans (updateAllColors_paints hcolors), fun t' ht' => ?_⟩
  obtain ⟨v, hv, hcore', hstacks', hstatus'⟩ := (checkResults_stacks hcheck).exists_left ht'
  obtain ⟨u, hu, fa₃, pkg₃, fa₄, pkg₄, hbefore, hupdate, hafter⟩ :=
    (updateAllColors_each hcolors).exists_left hv
  obtain ⟨t, ht, hsame⟩ := (updateCoverage_stacks hcoverage).exists_left hu
  exact ⟨t, ht, u, v, pkg₃, pkg₄, fa₃, fa₄, hsame, hpaints.trans hbefore, hupdate, hafter, hcore',
    hstacks', hstatus'⟩

/-- The assertions on the stacks hold in `updateAllColors` when they do in every state. -/
theorem updateAllColors_error (initPC : Word) {err : Abort}
    (hstates : ∀ t ∈ states, t.colorStack ≠ [] ∧ (t.stackHasMessedUp = false →
      t.callStack.Nested initPC fun i color => fa.hasColor i.addr color = true))
    (h : updateAllColors fa pkg states = .error err) :
    SubroutineTracker.isStackAssert err = false := by
  induction states generalizing fa pkg with
  | nil => cases h
  | cons s rest ih =>
      obtain ⟨hne, hnested⟩ := hstates s (List.mem_cons_self ..)
      rcases Except.bind_eq_error_iff.1 h with hupdate | ⟨⟨fa₁, m⟩, hupdate, h⟩
      · exact SubroutineTracker.updateColors_error (m := ⟨s, pkg⟩) hne hnested hupdate
      · rcases Except.bind_eq_error_iff.1 h with hrest | ⟨⟨fa₂, pkg₁, rest'⟩, -, h⟩
        · refine ih (fun t ht => ?_) hrest
          obtain ⟨hne', hnested'⟩ := hstates t (List.mem_cons_of_mem s ht)
          have hpaints := SubroutineTracker.updateColors_paints hupdate
          exact ⟨hne', fun hmessed => (hnested' hmessed).mono fun i color hcolor =>
            hpaints.hasColor hcolor⟩
        · cases h

end Session

/-! ## The invariant -/

/-- The nested calls of a state, the last of which is where the PC is. -/
structure State.CallsFrom (fa : FlowAnalysis) (initPC : Word) (s : State) : Prop where
  nested : s.callStack.Nested initPC fun i color =>
    fa.fg.getNodeByAddr i.addr = some i ∧ fa.hasColor i.addr color = true
  atPC : (fa.fg.getNodeByAddr s.pc).isSome → ∀ color ∈ s.colorStack.head?,
    fa.hasColor s.pc color = true

/-- OS code is only entered by a `TRAP`. -/
def State.OnlyByTrap (s : State) : Prop :=
  ∀ j, s.mem.read s.pc = some (.inst j) → j.belongsToOS = true →
    ∃ i, s.latestNonOSInst.1 = some i ∧ i.instID = .TRAP

theorem State.CallsFrom.paints {fa fa' : FlowAnalysis} {initPC : Word} {s : State}
    (h : s.CallsFrom fa initPC) (hpaints : fa.Paints fa') : s.CallsFrom fa' initPC where
  nested := h.nested.mono fun i color hcolor =>
    ⟨(hpaints.getNodeByAddr _).trans hcolor.1, hpaints.hasColor hcolor.2⟩
  atPC hnode color hcolor := by
    rw [hpaints.getNodeByAddr] at hnode
    exact hpaints.hasColor (h.atPC hnode color hcolor)

namespace Session

variable {ex : Executor} {fa fa' : FlowAnalysis} {pkg : IssuePackage} {initPC : Word}
variable {s t t' : State}

theorem Retraces.core (h : Retraces fa fa' t t') : t'.core = t.core := by
  obtain ⟨u, v, pkg₁, pkg₂, fa₁, fa₂, ⟨hcore, -, -⟩, -, hupdate, -, hcore', -, -⟩ := h.calls
  exact hcore'.trans ((SubroutineTracker.updateColors_tracked hupdate).core.trans hcore)

/-- The stacks of a result move once, or stay as they are. -/
theorem Retraces.transfers (h : Retraces fa fa' t t') :
    ((t'.latestNonOSInst.1 = none ∨ fa.fg.getNodeByAddr t'.pc = none) ∧
      t'.callStack = t.callStack) ∨
    ∃ executed, t'.latestNonOSInst.1 = some executed ∧ (fa.fg.getNodeByAddr t'.pc).isSome ∧
      CallStack.Transfers executed t'.pc t.callStack t'.callStack := by
  obtain ⟨u, v, pkg₁, pkg₂, fa₁, fa₂, ⟨-, hstacks, -⟩, hbefore, hupdate, -, hcore', hstacks', -⟩ :=
    h.calls
  have hcore : t'.core = u.core :=
    hcore'.trans (SubroutineTracker.updateColors_tracked hupdate).core
  have hpc : t'.pc = u.pc := State.core_congr State.pc hcore fun _ => rfl
  have hlatest : t'.latestNonOSInst = u.latestNonOSInst :=
    State.core_congr State.latestNonOSInst hcore fun _ => rfl
  rw [hpc, hlatest, ← hbefore.getNodeByAddr, hstacks', ← hstacks]
  rcases SubroutineTracker.updateColors_eq_ok hupdate with
    ⟨hidle, -, hm⟩ | ⟨executed, fa₃, hexec, hnode, hinst, -⟩
  · cases hm
    exact .inl ⟨hidle, rfl⟩
  · exact .inr ⟨executed, hexec, hnode, (SubroutineTracker.updateOnInst_transfers hinst).1⟩

/-- No iteration empties the stack of colours. -/
theorem Retraces.colorStack_ne_nil (hsteps : ex.Steps ⟨s, pkg⟩ t) (h : Retraces fa fa' t t')
    (hs : s.colorStack ≠ []) : t'.colorStack ≠ [] := by
  have ht : t.callStack.colors ≠ [] := by
    rw [State.callStack, hsteps.stacks.1]
    exact hs
  rcases h.transfers with ⟨-, hstacks⟩ | ⟨executed, -, -, htransfer⟩
  · rw [← hstacks] at ht
    exact ht
  · exact htransfer.colors_ne_nil ht

/-- What a step has broken stays broken. -/
theorem Retraces.broken (h : Retraces fa fa' t t') (ht : t.status = .broken) :
    t'.status = .broken := by
  obtain ⟨u, v, pkg₁, pkg₂, fa₁, fa₂, ⟨-, -, hstatus⟩, -, hupdate, -, -, -, hstatus'⟩ := h.calls
  rcases hstatus' with hstatus' | hbroken
  · rcases (SubroutineTracker.updateColors_tracked hupdate).status with hv | hv
    · exact (hstatus'.trans hv).trans (hstatus.trans ht)
    · exact hstatus'.trans hv
  · exact hbroken

/-- An iteration keeps the calls nested. A call is made from the node where the PC was, and
what comes back from the OS is no call. -/
theorem Retraces.callsFrom (hsteps : ex.Steps ⟨s, pkg⟩ t) (h : Retraces fa fa' t t')
    (hnormal : s.status = .normal) (ht : t.status ≠ .broken) (htrap : s.OnlyByTrap)
    (hplaced : ∀ i, s.mem.read s.pc = some (.inst i) → i.belongsToOS = false →
      i.addr = s.pc ∧ fa.fg.getNodeByAddr s.pc = some i)
    (hs : s.stackHasMessedUp = false → s.CallsFrom fa initPC)
    (hmessed : t'.stackHasMessedUp = false) : t'.CallsFrom fa' initPC := by
  obtain ⟨u, v, pkg₁, pkg₂, fa₁, fa₂, ⟨hcore, hstacks, -⟩, hbefore, hupdate, hafter, hcore',
    hstacks', -⟩ := h.calls
  obtain ⟨ir, hfetch, hlatest⟩ := hsteps.latest hnormal ht
  have hmessed' : v.callStack.messedUp = false := hstacks' ▸ hmessed
  have hpc : t'.pc = v.pc := State.core_congr State.pc hcore' fun _ => rfl
  have hulatest : u.latestNonOSInst = t.latestNonOSInst :=
    State.core_congr State.latestNonOSInst hcore fun _ => rfl
  -- The step did not mess the stacks up, so they are those before it.
  have hkept : u.callStack.messedUp = false → s.CallsFrom fa initPC ∧
      u.callStack = s.callStack := by
    intro hu
    rw [hstacks] at hu ⊢
    have heq := hsteps.callStack_eq hu
    exact ⟨hs ((congrArg CallStack.messedUp heq).symm.trans hu), heq⟩
  rcases SubroutineTracker.updateColors_eq_ok hupdate with
    ⟨hidle, rfl, hm⟩ | ⟨executed, fa₃, hexec, hnode, hinst, hcolor⟩
  · cases hm
    obtain ⟨hcalls, heq⟩ := hkept hmessed'
    have hcalls' := (hcalls.paints hbefore).paints hafter
    refine ⟨by rw [hstacks', heq]; exact hcalls'.nested, fun hnode => ?_⟩
    rcases hidle with hnone | hnone
    · -- Nothing was executed but OS code, which no `TRAP` has led to.
      rw [hulatest, hlatest] at hnone
      split at hnone
      · rename_i hos
        obtain ⟨i, hi, -⟩ := htrap ir hfetch hos
        rw [show s.latestNonOSInst.1 = none from hnone] at hi
        cases hi
      · cases hnone
    · rw [hafter.getNodeByAddr, hpc, hnone] at hnode
      cases hnode
  · obtain ⟨htransfer, -, -⟩ := SubroutineTracker.updateOnInst_transfers hinst
    obtain ⟨hcalls, heq⟩ := hkept (htransfer.messedUp hmessed')
    have hpaints := SubroutineTracker.updateOnInst_paints hinst
    have hcalls₁ := hcalls.paints hbefore
    have hfrom : executed.isCall = true → ∀ color ∈ u.callStack.colors.head?,
        fa₁.fg.getNodeByAddr executed.addr = some executed ∧
          fa₁.hasColor executed.addr color = true := by
      intro hcall color hcolor
      rw [hulatest, hlatest] at hexec
      split at hexec
      · rename_i hos
        obtain ⟨i, hi, htrap⟩ := htrap ir hfetch hos
        have hexec' : s.latestNonOSInst.1 = some executed := hexec
        rw [hi] at hexec'
        cases hexec'
        simp [InstValue.isCall, htrap] at hcall
      · rename_i huser
        cases hexec
        obtain ⟨haddr, hat⟩ := hplaced ir hfetch (by simpa using huser)
        rw [← hbefore.getNodeByAddr] at hat
        rw [haddr]
        rw [heq] at hcolor
        exact ⟨hat, hcalls₁.atPC (by rw [hat]; rfl) color hcolor⟩
    have hcalls₂ := hcalls₁.nested
    rw [← heq] at hcalls₂
    have hnested := htransfer.nested hcalls₂ hfrom hmessed'
    rcases hcolor with ⟨htrue, -⟩ | ⟨-, color, cs, hcs, hcolor⟩
    · rw [State.callStack, htrue] at hmessed'
      cases hmessed'
    · have hpaints' := FlowAnalysis.color_paints hcolor
      refine ⟨hstacks' ▸ hnested.mono fun i c hc => ?_, fun _ c hc => ?_⟩
      · have hall := (hpaints.trans hpaints').trans hafter
        exact ⟨(hall.getNodeByAddr _).trans hc.1, hall.hasColor hc.2⟩
      · rw [show t'.colorStack = v.colorStack from congrArg CallStack.colors hstacks', hcs] at hc
        cases hc
        rw [hpc]
        exact hafter.hasColor (FlowAnalysis.color_hasColor hcolor)

end Session

namespace Exploration

variable {fuel : Nat} {solver : Solver} {o : Options} {gold : Option Gold} {E₀ E E' : Exploration}

/-- The stacks of all states in the frontier. -/
structure CallInv (o : Options) (E : Exploration) : Prop where
  nonempty : ∀ s ∈ E.frontier, s.colorStack ≠ []
  calls : ∀ s ∈ E.frontier, s.status = .normal → s.stackHasMessedUp = false →
    s.CallsFrom E.session.fa o.test.initPC

theorem Starts.callInv (hmem : Loaded o.test.mem) (h : E.Starts solver o gold) : E.CallInv o := by
  obtain ⟨fa, ex, s₀, hnew, hinit, -, -, -, hfa, -, -, -, -, hfrontier⟩ := h
  obtain ⟨cs, rfl⟩ := Executor.createInitState_init hinit
  have hinitPC : fa.fg.initPC = o.test.initPC := (FlowAnalysis.new_spec hmem hnew).2.2.1
  constructor
  · intro s hs
    rw [hfrontier] at hs
    obtain rfl := List.mem_singleton.1 hs
    simp [FlowAnalysis.setupInitState]
  · intro s hs _ _
    rw [hfrontier] at hs
    obtain rfl := List.mem_singleton.1 hs
    refine ⟨⟨rfl, congrArg some hinitPC, fun p hp => ?_⟩, fun hnode color hcolor => ?_⟩
    · exact absurd hp (by simp [FlowAnalysis.setupInitState, State.callStack, State.init])
    · obtain rfl : fa.fg.initPC = color := by
        simpa [FlowAnalysis.setupInitState, State.init] using hcolor
      rw [hfa, FlowAnalysis.setupInitState_fg] at hnode
      have hnode' : (fa.fg.getNodeByAddr fa.fg.initPC).isSome := by
        rw [hinitPC]
        exact hnode
      rw [hfa, FlowAnalysis.setupInitState, if_pos hnode', ← FlowAnalysis.mem_marks,
        FlowAnalysis.marks_insertColor]
      exact .inl (congrArg (·, fa.fg.initPC) hinitPC.symm)

/-- A user instruction at the PC is a node. -/
theorem Reaches.placed (hmem : Loaded o.test.mem) (hstart : E₀.Starts solver o gold)
    (hreach : E₀.Reaches fuel E) : ∀ s ∈ E.frontier, ∀ addr i,
      s.mem.read addr = some (.inst i) → i.belongsToOS = false →
      i.addr = addr ∧ E.session.fa.fg.getNodeByAddr addr = some i := by
  intro s hs addr i hread huser
  have hbase : o.test.mem.lookup addr = some (.inst i) :=
    (Reaches.visits hstart hreach s hs).read_inst_base hread
  refine ⟨hmem.addr addr i ((lookup_eq_some_iff_mem hmem.keys).1 hbase), ?_⟩
  rw [FlowGraph.getNodeByAddr, Reaches.nodes hmem hstart hreach]
  exact (FlowGraph.lookup_userInsts_iff hmem.keys).2 ⟨hbase, huser⟩

theorem NextAt.callInv {before after states : List State} {s : State} (hmem : Loaded o.test.mem)
    (hstart : E₀.Starts solver o gold) (hreach : E₀.Reaches fuel E) (hinv : E.CallInv o)
    (htrap : s.OnlyByTrap) (hnext : NextAt fuel E before s after states E') : E'.CallInv o := by
  obtain ⟨hfrontier, hadvance, hfrontier'⟩ := hnext
  obtain ⟨r, hnormal, hstep, hpaints, hresults⟩ := Session.advance_retraces hadvance
  have hs : s ∈ E.frontier := by simp [hfrontier]
  have hold : ∀ u ∈ before ++ after, u ∈ E.frontier := by
    intro u hu
    rw [hfrontier]
    rcases List.mem_append.1 hu with hu | hu <;> simp [hu]
  constructor
  · intro u hu
    rw [hfrontier', List.mem_append] at hu
    rcases hu with hu | hu
    · exact hinv.nonempty u (hold u hu)
    · obtain ⟨t, ht, hretraces⟩ := hresults u hu
      exact hretraces.colorStack_ne_nil (Executor.mem_step hstep ht) (hinv.nonempty s hs)
  · intro u hu hunormal hmessed
    rw [hfrontier', List.mem_append] at hu
    rcases hu with hu | hu
    · exact (hinv.calls u (hold u hu) hunormal hmessed).paints hpaints
    · obtain ⟨t, ht, hretraces⟩ := hresults u hu
      refine hretraces.callsFrom (Executor.mem_step hstep ht) hnormal (fun hbroken => ?_) htrap
        (Reaches.placed hmem hstart hreach s hs s.pc) (hinv.calls s hs hnormal) hmessed
      rw [hretraces.broken hbroken] at hunormal
      cases hunormal

theorem ReachesWhen.callInv (hmem : Loaded o.test.mem) (hstart : E₀.Starts solver o gold)
    (hreach : ReachesWhen (fun _ s => s.OnlyByTrap) fuel E₀ E) : E.CallInv o := by
  induction hreach with
  | refl => exact hstart.callInv hmem
  | tail hreach hnext ih =>
      obtain ⟨before, s, after, states, hnext, htrap⟩ := hnext
      exact hnext.callInv hmem hstart (ReachesWhen.reaches hreach) ih htrap

end Exploration

/-! ## Improper returns -/

/-- The step from `s` to `t` is a `RET` that the tracker finds improper. -/
def State.returnsImproperly (mem : List (Word × MemValue)) (s t : State) : Bool :=
  ((FlowGraph.userInsts mem).lookup t.pc).isSome &&
    t.latestNonOSInst.1.any fun i => s.callStack.improper i t.pc

/-- Whether there was an improper `RET` on the way. -/
def improperSoFar (mem : List (Word × MemValue)) (s t : State) (b : Bool) : Bool :=
  b || s.returnsImproperly mem t

namespace Exploration

variable {fuel : Nat} {solver : Solver} {o : Options} {gold : Option Gold} {E₀ E E' : Exploration}

/-- The rule for what holds along every path through the iterations. -/
theorem Traced.retraces_rule {γ : Type} {record : State → State → γ → γ} {g₀ g : γ} {s : State}
    {I : State → γ → Prop} (start : ∀ s ∈ E₀.frontier, I s g₀)
    (step : ∀ (E E' : Exploration) s g r t t', E₀.Reaches fuel E → s ∈ E.frontier → I s g →
      E.session.ex.step ⟨s, E.session.pkg⟩ = .ok r → t ∈ r.states →
      Session.Retraces E.session.fa E'.session.fa t t' → I t' (record s t' g))
    (h : Traced fuel record E₀ g₀ E s g) : E₀.Reaches fuel E ∧ s ∈ E.frontier ∧ I s g := by
  induction h with
  | start hs => exact ⟨.refl, hs, start _ hs⟩
  | @stepped E E' before after states s t g _ hnext ht ih =>
      obtain ⟨hreach, hs, hI⟩ := ih
      obtain ⟨r, -, hstep, -, hresults⟩ := Session.advance_retraces hnext.2.1
      obtain ⟨u, hu, hretraces⟩ := hresults t ht
      refine ⟨hreach.tail ⟨before, s, after, states, hnext⟩, ?_,
        step E E' s g r u t hreach hs hI hstep hu hretraces⟩
      rw [hnext.2.2]
      exact List.mem_append_right _ ht
  | @other E E' before after states s u g _ hnext hs ih =>
      refine ⟨ih.1.tail ⟨before, u, after, states, hnext⟩, ?_, ih.2.2⟩
      rw [hnext.2.2]
      exact List.mem_append_left _ hs

/-- Along a path the stack of colours has one more than the other, and one more again after
an improper `RET`. -/
theorem Traced.stacks_length {s : State} {b : Bool} (hmem : Loaded o.test.mem)
    (hstart : E₀.Starts solver o gold)
    (h : Traced fuel (improperSoFar o.test.mem) E₀ false E s b) :
    E₀.Reaches fuel E ∧ s ∈ E.frontier ∧
      (s.colorStack.length = s.jsrStack.length + 1 + (if b = true then 1 else 0)) ∧
      (b = true → s.stackHasMessedUp = true) := by
  refine Traced.retraces_rule (I := fun s b =>
    (s.colorStack.length = s.jsrStack.length + 1 + (if b = true then 1 else 0)) ∧
      (b = true → s.stackHasMessedUp = true)) ?_ ?_ h
  · intro s hs
    obtain ⟨fa, ex, s₀, -, hinit, -, -, -, -, -, -, -, -, hfrontier⟩ := hstart
    obtain ⟨cs, rfl⟩ := Executor.createInitState_init hinit
    rw [hfrontier] at hs
    obtain rfl := List.mem_singleton.1 hs
    exact ⟨rfl, fun hb => (by cases hb)⟩
  · rintro E E' s b r t t' hreach - ⟨hlen, hmessed⟩ hstep ht hretraces
    have hstacks := (Executor.mem_step hstep ht).stacks
    have hlen' : t.callStack.colors.length =
        t.callStack.calls.length + (1 + (if b = true then 1 else 0)) := by
      rw [State.callStack, hstacks.1, hstacks.2.1, ← Nat.add_assoc]
      exact hlen
    have hmessed' : b = true → t.stackHasMessedUp = true := by
      intro hb
      rcases hstacks.2.2 with heq | htrue
      · rw [heq]
        exact hmessed hb
      · exact htrue.1
    have hnodes := Reaches.nodes hmem hstart hreach
    rcases hretraces.transfers with ⟨hidle, heq⟩ | ⟨executed, hexec, hnode, htransfer⟩
    · have himproper : s.returnsImproperly o.test.mem t' = false := by
        rw [State.returnsImproperly]
        rcases hidle with hnone | hnone
        · rw [hnone]
          simp
        · rw [FlowGraph.getNodeByAddr, hnodes] at hnone
          rw [hnone]
          rfl
      rw [improperSoFar, himproper, Bool.or_false]
      rw [← heq] at hlen'
      refine ⟨by rw [Nat.add_assoc]; exact hlen', fun hb => ?_⟩
      exact (congrArg CallStack.messedUp heq).trans (hmessed' hb)
    · have himproper : s.returnsImproperly o.test.mem t' = t.callStack.improper executed t'.pc := by
        rw [State.returnsImproperly, hexec]
        rw [FlowGraph.getNodeByAddr, hnodes] at hnode
        rw [hnode, (Executor.mem_step hstep ht).improper]
        rfl
      rw [improperSoFar, himproper]
      have hlength := htransfer.length hlen'
      cases b with
      | false =>
          rw [Bool.false_or]
          refine ⟨?_, htransfer.messedUp_of_improper⟩
          rw [if_neg (by simp)] at hlength
          exact hlength
      | true =>
          -- The stacks are messed up already, so this `RET` is not improper.
          have hnot : t.callStack.improper executed t'.pc = false := by
            simp [CallStack.improper, State.callStack, hmessed' rfl]
          rw [hnot] at hlength
          refine ⟨by simpa [State.callStack] using hlength, fun _ => ?_⟩
          by_contra hfalse
          have hkept := htransfer.messedUp (Bool.eq_false_iff.2 hfalse)
          rw [State.callStack, hmessed' rfl] at hkept
          cases hkept

end Exploration

/-- A subroutine that returns somewhere else. -/
def Program.straying : Program where
  mem :=
    [(0x3000, .inst ⟨0x3000, 0x4801, ⟨.JSR, .L, 0xF800, 0x4800⟩, matchInst_call, false, [],
        "straying.asm", 1, "JSR SUB"⟩),
     (0x3001, .inst ⟨0x3001, 0xF025, ⟨.TRAP, .V, 0xFF00, 0xF000⟩, matchInst_halt, false, [],
        "straying.asm", 2, "INSTANT_HALT"⟩),
     (0x3002, .inst ⟨0x3002, 0xEE01, ⟨.LEA, .RL, 0xF000, 0xE000⟩, by decide, false, ["SUB"],
        "straying.asm", 3, "SUB LEA R7, WRONG"⟩),
     (0x3003, .inst ⟨0x3003, 0xC1C0, ⟨.JMP, .R, 0xFE3F, 0xC000⟩, matchInst_return, false, [],
        "straying.asm", 4, "RET"⟩),
     (0x3004, .inst ⟨0x3004, 0xF025, ⟨.TRAP, .V, 0xFF00, 0xF000⟩, matchInst_halt, false, ["WRONG"],
        "straying.asm", 5, "INSTANT_HALT"⟩)]
  constraints := []
  initPC := 0x3000
  preferences := []

def Options.straying : Options :=
  { Options.sample with test := .straying }

theorem straying_loaded : Loaded Options.straying.test.mem := by
  refine ⟨by decide, fun addr i hi => ?_⟩
  simp only [Options.straying, Program.straying, List.mem_cons, List.not_mem_nil, or_false,
    Prod.mk.injEq, MemValue.inst.injEq] at hi
  rcases hi with ⟨rfl, rfl⟩ | ⟨rfl, rfl⟩ | ⟨rfl, rfl⟩ | ⟨rfl, rfl⟩ | ⟨rfl, rfl⟩ <;> rfl

/-- The run of `Program.straying` behind its `RET`. -/
theorem straying_run : ∃ (E₀ E₁ E₂ E₃ : Exploration) (s₀ s₁ s₂ s₃ : State) (i : InstValue),
    E₀.Starts Solver.ideal .straying none ∧
    Exploration.NextAt 0 E₀ [] s₀ [] [s₁] E₁ ∧ Exploration.NextAt 0 E₁ [] s₁ [] [s₂] E₂ ∧
    Exploration.NextAt 0 E₂ [] s₂ [] [s₃] E₃ ∧
    (∃ j, s₀.mem.read s₀.pc = some (.inst j) ∧ j.belongsToOS = false) ∧
    s₁.status = .normal ∧ s₁.stackHasMessedUp = false ∧ s₁.colorStack = [0x3002, 0x3000] ∧
    s₃.latestNonOSInst.1 = some i ∧ i.isRET = true ∧
    (E₂.session.fa.fg.getNodeByAddr s₃.pc).isSome ∧ s₂.callStack.improper i s₃.pc = true ∧
    s₃.colorStack = [0x3002, 0x3002, 0x3000] ∧ s₂.colorStack = [0x3002, 0x3000] ∧
    s₃.jsrStack.length = 1 ∧ s₂.jsrStack.length = 1 ∧ s₂.stackHasMessedUp = false ∧
    improperSoFar Program.straying.mem s₁ s₂
      (improperSoFar Program.straying.mem s₀ s₁ false) = false := by
  have hrun : ∃ l, Options.straying.start Solver.ideal none = .ok l ∧
      ∃ s₀, l.searcher.states = [s₀] ∧
      (∃ j, s₀.mem.read s₀.pc = some (.inst j) ∧ j.belongsToOS = false) ∧
      ∃ S₁ s₁, l.session.advance 0 s₀ = .ok (some (S₁, [s₁])) ∧ s₁.status = .normal ∧
        s₁.stackHasMessedUp = false ∧ s₁.colorStack = [0x3002, 0x3000] ∧
      ∃ S₂ s₂, S₁.advance 0 s₁ = .ok (some (S₂, [s₂])) ∧ s₂.colorStack = [0x3002, 0x3000] ∧
        s₂.jsrStack.length = 1 ∧ s₂.stackHasMessedUp = false ∧
        improperSoFar Program.straying.mem s₁ s₂
          (improperSoFar Program.straying.mem s₀ s₁ false) = false ∧
      ∃ S₃ s₃ i, S₂.advance 0 s₂ = .ok (some (S₃, [s₃])) ∧ s₃.latestNonOSInst.1 = some i ∧
        i.isRET = true ∧ (S₂.fa.fg.getNodeByAddr s₃.pc).isSome = true ∧
        s₂.callStack.improper i s₃.pc = true ∧ s₃.colorStack = [0x3002, 0x3002, 0x3000] ∧
        s₃.jsrStack.length = 1 := by
    refine ⟨_, rfl, ?_⟩
    refine ⟨_, rfl, ⟨_, rfl, rfl⟩, ?_⟩
    refine ⟨_, _, rfl, rfl, rfl, rfl, ?_⟩
    refine ⟨_, _, rfl, rfl, rfl, rfl, rfl, ?_⟩
    exact ⟨_, _, _, rfl, rfl, rfl, rfl, rfl, rfl, rfl⟩
  obtain ⟨l, hl, s₀, hs₀, hread, S₁, s₁, hnext₁, hnormal₁, hmessed₁, hcolors₁, S₂, s₂, hnext₂,
    hcolors₂, hjsr₂, hmessed₂, hproper, S₃, s₃, i, hnext₃, hi, hret, hnode, himproper, hcolors₃,
    hjsr₃⟩ := hrun
  obtain ⟨E₀, hstart, hsession, hfrontier⟩ := Options.start_explores rfl hl
  rw [hs₀, List.perm_singleton] at hfrontier
  rw [← hsession] at hnext₁
  exact ⟨E₀, ⟨S₁, [s₁]⟩, ⟨S₂, [s₂]⟩, ⟨S₃, [s₃]⟩, s₀, s₁, s₂, s₃, i, hstart,
    ⟨hfrontier, hnext₁, rfl⟩, ⟨rfl, hnext₂, rfl⟩, ⟨rfl, hnext₃, rfl⟩, hread, hnormal₁, hmessed₁,
    hcolors₁, hi, hret, hnode, himproper, hcolors₃, hcolors₂, hjsr₃, hjsr₂, hmessed₂, hproper⟩

/-! ## Runs -/

namespace Exploration

variable {fuel : Nat} {solver : Solver} {o : Options} {gold : Option Gold} {E₀ E : Exploration}

/-- In every run that enters OS code only by `TRAP`, the stacks of a state that goes on are
nested calls from the main code, the node at its PC has the colour on top, and the
assertions on the stacks hold when it is stepped. -/
theorem reachable_calls (hmem : Loaded o.test.mem) (hstart : E₀.Starts solver o gold)
    (hreach : ReachesWhen (fun _ s => s.OnlyByTrap) fuel E₀ E) :
    ∀ s ∈ E.frontier, s.status = .normal →
      (s.stackHasMessedUp = false → s.CallsFrom E.session.fa o.test.initPC) ∧
      ∀ r fa states err, E.session.ex.step ⟨s, E.session.pkg⟩ = .ok r →
        Session.updateCoverage E.session.fa r.states = .ok (fa, states) →
        Session.updateAllColors fa r.pkg states = .error err →
        err ≠ .emptyStack ∧ err ≠ .colorInconsistent := by
  intro s hs hnormal
  have hinv := ReachesWhen.callInv hmem hstart hreach
  refine ⟨hinv.calls s hs hnormal, fun r fa states err hstep hcoverage herror => ?_⟩
  have hpaints := Session.updateCoverage_paints hcoverage
  have hcovered := Session.updateCoverage_stacks hcoverage
  have hassert : SubroutineTracker.isStackAssert err = false := by
    refine Session.updateAllColors_error o.test.initPC (fun u hu => ?_) herror
    obtain ⟨t, ht, -, hstacks, -⟩ := hcovered.exists_left hu
    have hsteps := Executor.mem_step hstep ht
    have hcolors : u.colorStack = s.colorStack :=
      (congrArg CallStack.colors hstacks).trans hsteps.stacks.1
    refine ⟨hcolors ▸ hinv.nonempty s hs, fun hmessed => ?_⟩
    have heq : u.callStack = s.callStack :=
      hstacks.trans (hsteps.callStack_eq ((congrArg CallStack.messedUp hstacks).symm.trans hmessed))
    have hsmessed : s.stackHasMessedUp = false :=
      (congrArg CallStack.messedUp heq).symm.trans hmessed
    rw [heq]
    exact (hinv.calls s hs hnormal hsmessed).nested.mono fun i color hcolor =>
      hpaints.hasColor hcolor.2
  constructor
  · rintro rfl
    cases hassert
  · rintro rfl
    cases hassert

end Exploration

/-- Inside the subroutine of `Program.straying` the call is on the stack. -/
theorem straying_calls : ∃ (E₀ E : Exploration) (s : State),
    E₀.Starts Solver.ideal .straying none ∧
    E₀.ReachesWhen (fun _ s => s.OnlyByTrap) 0 E ∧ s ∈ E.frontier ∧ s.status = .normal ∧
    s.colorStack = [0x3002, 0x3000] ∧ s.CallsFrom E.session.fa 0x3000 := by
  obtain ⟨E₀, E₁, -, -, s₀, s₁, -, -, -, hstart, hnext, -, -, ⟨j, hread, huser⟩, hnormal, hmessed,
    hcolors, -⟩ := straying_run
  have htrap : s₀.OnlyByTrap := by
    intro j' hread' hos
    rw [hread] at hread'
    cases hread'
    rw [huser] at hos
    cases hos
  have hreach : E₀.ReachesWhen (fun _ s => s.OnlyByTrap) 0 E₁ :=
    .single ⟨[], s₀, [], [s₁], hnext, htrap⟩
  have hs₁ : s₁ ∈ E₁.frontier := by simp [hnext.2.2]
  exact ⟨E₀, E₁, s₁, hstart, hreach, hs₁, hnormal, hcolors,
    (Exploration.reachable_calls straying_loaded hstart hreach s₁ hs₁ hnormal).1 hmessed⟩

namespace Exploration

variable {fuel : Nat} {solver : Solver} {o : Options} {gold : Option Gold} {E₀ E : Exploration}

/-- In every run, a `RET` that the tracker finds improper, or that comes later, leaves the
stacks as they were exactly when they were messed up before it; and the two stacks differ
by one exactly as long as no `RET` was improper. -/
theorem reachable_improper_ret {s : State} {b : Bool} (hmem : Loaded o.test.mem)
    (hstart : E₀.Starts solver o gold)
    (h : Traced fuel (improperSoFar o.test.mem) E₀ false E s b) :
    (s.colorStack.length = s.jsrStack.length + 1 ↔ b = false) ∧
    ∀ before after states E' t', NextAt fuel E before s after states E' → t' ∈ states →
      ∀ i, t'.latestNonOSInst.1 = some i → i.isRET = true →
        (E.session.fa.fg.getNodeByAddr t'.pc).isSome →
        s.callStack.improper i t'.pc = true ∨ s.stackHasMessedUp = true →
        ((t'.colorStack = s.colorStack ∧ t'.jsrStack = s.jsrStack) ↔
          s.stackHasMessedUp = true) := by
  obtain ⟨hreach, hs, hlen, -⟩ := Traced.stacks_length hmem hstart h
  refine ⟨?_, fun before after states E' t' hnext ht' i hi hret hnode hwrong => ?_⟩
  · cases b with
    | false => exact iff_of_true hlen rfl
    | true =>
        rw [if_pos rfl] at hlen
        exact iff_of_false (by omega) (by simp)
  · obtain ⟨r, -, hstep, -, hresults⟩ := Session.advance_retraces hnext.2.1
    obtain ⟨t, ht, hretraces⟩ := hresults t' ht'
    have hsteps := Executor.mem_step hstep ht
    have hmessed : t.stackHasMessedUp = s.stackHasMessedUp := by
      rcases hsteps.stacks.2.2 with heq | ⟨htrue, hone⟩
      · exact heq
      · rcases hwrong with hwrong | hwrong
        · simp [CallStack.improper, State.callStack, show s.colorStack.length = 1 from hone] at hwrong
        · rw [htrue, hwrong]
    rcases hretraces.transfers with ⟨hidle, -⟩ | ⟨executed, hexec, -, htransfer⟩
    · rcases hidle with hnone | hnone
      · rw [hi] at hnone
        cases hnone
      · rw [hnone] at hnode
        cases hnode
    · rw [hi] at hexec
      cases hexec
      have hwrong' : t.callStack.improper i t'.pc = true ∨ t.callStack.messedUp = true := by
        rw [hsteps.improper]
        exact hwrong.imp id hmessed.trans
      have hkept := htransfer.kept_iff hret hwrong'
      simp only [State.callStack, hsteps.stacks.1, hsteps.stacks.2.1, hmessed] at hkept
      exact hkept

end Exploration

/-- The `RET` of `Program.straying` is improper, and it changes the stack of colours. -/
theorem straying_stacks : ∃ (E₀ E E' : Exploration) (s t : State) (i : InstValue),
    E₀.Starts Solver.ideal .straying none ∧ E₀.Reaches 0 E ∧
    Exploration.NextAt 0 E [] s [] [t] E' ∧ t.latestNonOSInst.1 = some i ∧ i.isRET = true ∧
    (E.session.fa.fg.getNodeByAddr t.pc).isSome ∧ s.callStack.improper i t.pc = true ∧
    ¬ (t.colorStack = s.colorStack ∧ t.jsrStack = s.jsrStack) ∧
    t.colorStack.length ≠ t.jsrStack.length + 1 := by
  obtain ⟨E₀, E₁, E₂, E₃, s₀, s₁, s₂, s₃, i, hstart, hnext₁, hnext₂, hnext₃, -, -, -, -, hi, hret,
    hnode, himproper, hcolors₃, hcolors₂, hjsr₃, -, -, -⟩ := straying_run
  have hreach : E₀.Reaches 0 E₂ :=
    .tail (.single ⟨[], s₀, [], [s₁], hnext₁⟩) ⟨[], s₁, [], [s₂], hnext₂⟩
  refine ⟨E₀, E₂, E₃, s₂, s₃, i, hstart, hreach, hnext₃, hi, hret, hnode, himproper, ?_, ?_⟩
  · rw [hcolors₃, hcolors₂]
    rintro ⟨heq, -⟩
    exact absurd heq (by decide)
  · rw [hcolors₃, hjsr₃]
    decide

/-- Up to its `RET` the stacks of `Program.straying` differ by one. -/
theorem straying_length : ∃ (E₀ E : Exploration) (s : State) (b : Bool),
    E₀.Starts Solver.ideal .straying none ∧
    Exploration.Traced 0 (improperSoFar Options.straying.test.mem) E₀ false E s b ∧ b = false ∧
    s.colorStack = [0x3002, 0x3000] ∧ s.colorStack.length = s.jsrStack.length + 1 := by
  obtain ⟨E₀, E₁, E₂, -, s₀, s₁, s₂, -, -, hstart, hnext₁, hnext₂, -, -, -, -, -, -, -, -, -, -,
    hcolors, -, -, -, hproper⟩ := straying_run
  have htraced : Exploration.Traced 0 (improperSoFar Options.straying.test.mem) E₀ false E₂ s₂ _ :=
    .stepped (.stepped (.start (by simp [hnext₁.1])) hnext₁ (by simp)) hnext₂ (by simp)
  exact ⟨E₀, E₂, s₂, _, hstart, htraced, hproper, hcolors,
    (Exploration.reachable_improper_ret straying_loaded hstart htraced).1.2 hproper⟩

end Klc3
