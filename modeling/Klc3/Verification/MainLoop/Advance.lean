import Klc3.Verification.MainLoop.Tracking

/-!
# One iteration of the main loop

An iteration steps one state and then goes over the results: they keep what the
executor made of them, and the issue package records what is raised on them.
-/

namespace Klc3

/-! ## Many states -/

/-- The states `ss` became `ss'` through bookkeeping alone, while the package went from
`pkg` to `pkg'`. -/
structure Follows (pkg pkg' : IssuePackage) (ss ss' : List State) : Prop where
  issueLevel : pkg'.issueLevel = pkg.issueLevel
  keeps : ∀ issue info, pkg.find issue = some info → pkg'.find issue = some info
  isNew : ∀ issue info, pkg'.find issue = some info → pkg.find issue = some info ∨
    ∃ s' ∈ ss', info.s = some s'.uid ∧ issue ∈ s'.issueLog
  each : List.Forall₂ (fun s s' => s'.core = s.core ∧ s.issueLog <+: s'.issueLog ∧
    (s'.status = s.status ∨ s'.status = .broken) ∧
    ∀ issue ∈ s'.issueLog, issue ∉ s.issueLog → pkg.issueLevel issue.type ≠ some .none →
      (pkg'.find issue).isSome) ss ss'

namespace Follows

variable {pkg pkg' pkg'' : IssuePackage} {s s' : State} {ss ss' ss'' : List State}

theorem nil (pkg : IssuePackage) : Follows pkg pkg [] [] :=
  ⟨rfl, fun _ _ h => h, fun _ _ h => .inl h, .nil⟩

theorem cons (h : Mach.Tracked ⟨s, pkg⟩ ⟨s', pkg'⟩) (h' : Follows pkg' pkg'' ss ss') :
    Follows pkg pkg'' (s :: ss) (s' :: ss') := by
  have hstatus := h.status
  obtain ⟨ev, h⟩ := h
  refine ⟨h'.issueLevel.trans h.raises.issueLevel,
    fun issue info hfind => h'.keeps issue info (h.raises.keeps issue info hfind), ?_, .cons ?_ ?_⟩
  · intro issue info hfind
    rcases h'.isNew issue info hfind with hold | ⟨u, hu, hnew⟩
    · rcases h.raises.isNew issue info hold with hold | ⟨-, hmem, -, huid⟩
      · exact .inl hold
      · refine .inr ⟨s', by simp, by rw [huid, State.core_uid h.core], ?_⟩
        rw [h.issueLog]
        exact List.mem_append_right _ hmem
    · exact .inr ⟨u, List.mem_cons_of_mem _ hu, hnew⟩
  · refine ⟨h.core, by rw [h.issueLog]; exact List.prefix_append _ _, hstatus, ?_⟩
    intro issue hissue hnew hlevel
    rw [h.issueLog, List.mem_append] at hissue
    obtain ⟨info, hinfo⟩ := Option.isSome_iff_exists.1
      (h.raises.found issue (hissue.resolve_left hnew) hlevel)
    rw [h'.keeps issue info hinfo]
    rfl
  · exact h'.each.imp fun u u' hR => ⟨hR.1, hR.2.1, hR.2.2.1, fun issue hissue hnew hlevel =>
      hR.2.2.2 issue hissue hnew (by rwa [h.raises.issueLevel])⟩

theorem refl (pkg : IssuePackage) (ss : List State) : Follows pkg pkg ss ss := by
  induction ss with
  | nil => exact .nil pkg
  | cons s ss ih => exact .cons (.refl _) ih

private theorem forall₂_trans {α : Type} {R S T : α → α → Prop} {l l' l'' : List α}
    (hRS : ∀ a b c, R a b → S b c → T a c) (h : List.Forall₂ R l l') (h' : List.Forall₂ S l' l'') :
    List.Forall₂ T l l'' := by
  induction h generalizing l'' with
  | nil =>
      cases h'
      exact .nil
  | cons hR _ ih =>
      cases h' with
      | cons hS h' => exact .cons (hRS _ _ _ hR hS) (ih h')

theorem trans (h : Follows pkg pkg' ss ss') (h' : Follows pkg' pkg'' ss' ss'') :
    Follows pkg pkg'' ss ss'' where
  issueLevel := h'.issueLevel.trans h.issueLevel
  keeps issue info hfind := h'.keeps issue info (h.keeps issue info hfind)
  isNew issue info hfind := by
    rcases h'.isNew issue info hfind with hold | hnew
    · rcases h.isNew issue info hold with hold | ⟨u, hu, huid, hissue⟩
      · exact .inl hold
      · obtain ⟨u', hu', hcore, hlog, -⟩ := h'.each.flip.exists_left hu
        exact .inr ⟨u', hu', by rw [huid, State.core_uid hcore], hlog.subset hissue⟩
    · exact .inr hnew
  each := by
    refine forall₂_trans ?_ h.each h'.each
    rintro s s' s'' ⟨hcore, hlog, hstatus, hfound⟩ ⟨hcore', hlog', hstatus', hfound'⟩
    refine ⟨hcore'.trans hcore, hlog.trans hlog', ?_, ?_⟩
    · rcases hstatus' with hstatus' | hstatus'
      · rw [hstatus']
        exact hstatus
      · exact .inr hstatus'
    · intro issue hissue hnew hlevel
      by_cases hmid : issue ∈ s'.issueLog
      · obtain ⟨info, hinfo⟩ := Option.isSome_iff_exists.1 (hfound issue hmid hnew hlevel)
        rw [h'.keeps issue info hinfo]
        rfl
      · exact hfound' issue hissue hmid (by rwa [h.issueLevel])

/-- What was recorded for the results of a step stays recorded. -/
theorem recorded (h : IssuePackage.Recorded s ss pkg pkg') (h' : Follows pkg' pkg'' ss ss') :
    IssuePackage.Recorded s ss' pkg pkg'' where
  issueLevel := h'.issueLevel.trans h.issueLevel
  keeps issue info hfind := h'.keeps issue info (h.keeps issue info hfind)
  isNew issue info hfind := by
    rcases h'.isNew issue info hfind with hold | hnew
    · rcases h.isNew issue info hold with hold | ⟨u, hu, huid, hissue⟩
      · exact .inl hold
      · obtain ⟨u', hu', hcore, hlog, -⟩ := h'.each.flip.exists_left hu
        exact .inr ⟨u', hu', by rw [huid, State.core_uid hcore], hlog.subset hissue⟩
    · exact .inr hnew
  found u' hu' issue hissue hnew hlevel := by
    obtain ⟨u, hu, -, -, -, hfound⟩ := h'.each.exists_left hu'
    by_cases hmid : issue ∈ u.issueLog
    · obtain ⟨info, hinfo⟩ :=
        Option.isSome_iff_exists.1 (h.found u hu issue hmid hnew hlevel)
      rw [h'.keeps issue info hinfo]
      rfl
    · exact hfound issue hissue hmid (by rwa [h.issueLevel])

end Follows

namespace Session

variable {S S' : Session} {fa fa' : FlowAnalysis} {pkg pkg' : IssuePackage}
variable {states states' : List State} {fuel : Nat}

theorem updateCoverage_follows (h : updateCoverage fa states = .ok (fa', states')) :
    Follows pkg pkg states states' := by
  induction states generalizing fa states' with
  | nil =>
      cases h
      exact .nil pkg
  | cons s rest ih =>
      obtain ⟨⟨fg, s'⟩, hupdate, h⟩ := Except.bind_eq_ok_iff.1 h
      obtain ⟨⟨fa₁, rest'⟩, hrest, h⟩ := Except.bind_eq_ok_iff.1 h
      cases h
      obtain ⟨covered, path, rfl⟩ := CoverageTracker.updateGraphAndCoverage_eq_ok hupdate
      exact .cons (.of_core rfl rfl rfl) (ih hrest)

theorem updateAllColors_follows (h : updateAllColors fa pkg states = .ok (fa', pkg', states')) :
    Follows pkg pkg' states states' := by
  induction states generalizing fa pkg states' with
  | nil =>
      cases h
      exact .nil _
  | cons s rest ih =>
      obtain ⟨⟨fa₁, m⟩, hupdate, h⟩ := Except.bind_eq_ok_iff.1 h
      obtain ⟨⟨fa₂, pkg₁, rest'⟩, hrest, h⟩ := Except.bind_eq_ok_iff.1 h
      cases h
      exact .cons (SubroutineTracker.updateColors_tracked hupdate) (ih hrest)

/-! ## The comparison with the gold program -/

/-- Comparing raises issues on the test state. -/
theorem compare_tracked {c : CrossChecker} {gold : State} {m : Mach} {cs : ConstraintSet}
    {v : CrossChecker.Verdict} (h : c.compare gold m cs = .ok v) : m.Tracked v.test := by
  refine Except.foldlM_ok_induction (motive := fun _ v => m.Tracked v.test) (.refl m) ?_ h
  intro done list v v' htracked hstep
  unfold CrossChecker.compareList at hstep
  split at hstep
  · cases hstep
    exact htracked
  · obtain ⟨⟨failed, note, cs⟩, -, hstep⟩ := Except.bind_eq_ok_iff.1 hstep
    dsimp only at hstep
    split at hstep
    · cases hstep
      exact htracked
    · obtain ⟨m', hraise, hstep⟩ := Except.bind_eq_ok_iff.1 hstep
      cases hstep
      exact htracked.trans ⟨_, Mach.newStateIssueWith_tracks hraise⟩

/-- What the comparison may change of a session. -/
structure Checks (c c' : Checking) : Prop where
  tracked : Mach.Tracked ⟨c.test, c.session.pkg⟩ ⟨c'.test, c'.session.pkg⟩
  ex : c'.session.ex = c.session.ex
  fa : c'.session.fa = c.session.fa
  crossChecker : c'.session.crossChecker = c.session.crossChecker
  limits : c'.session.limits = c.session.limits

theorem Checks.refl (c : Checking) : Checks c c := ⟨.refl _, rfl, rfl, rfl, rfl⟩

theorem Checks.trans {c c' c'' : Checking} (h : Checks c c') (h' : Checks c' c'') : Checks c c'' :=
  ⟨h.tracked.trans h'.tracked, h'.ex.trans h.ex, h'.fa.trans h.fa,
    h'.crossChecker.trans h.crossChecker, h'.limits.trans h.limits⟩

theorem compareWith_checks {c c' : Checking} {gold : State} {cs : ConstraintSet}
    (h : compareWith c gold cs = .ok c') : Checks c c' := by
  obtain ⟨v, hcompare, h⟩ := Except.bind_eq_ok_iff.1 h
  cases h
  exact ⟨compare_tracked hcompare, rfl, rfl, rfl, rfl⟩

theorem compareGoldResults_checks {c c' : Checking}
    (h : compareGoldResults c states = .ok c') : Checks c c' := by
  refine Except.foldlM_ok_induction (motive := fun _ c' => Checks c c') (.refl c) ?_ h
  intro done gold c₁ c₂ hchecks hstep
  split at hstep
  · exact hchecks.trans (compareWith_checks hstep)
  · cases hstep
  · cases hstep
    exact hchecks

theorem goldNext_checks {g g' : GoldLoop} (h : goldNext g = .ok (some g')) :
    Checks g.checking g'.checking := by
  unfold goldNext at h
  split at h
  · cases h
  · obtain ⟨r, -, h⟩ := Except.bind_eq_ok_iff.1 h
    obtain ⟨checking, hcompare, h⟩ := Except.bind_eq_ok_iff.1 h
    cases h
    exact compareGoldResults_checks hcompare

theorem crossCheck_checks {test : State} {c : Checking}
    (h : crossCheck fuel S test = .ok (some c)) : Checks ⟨S, test⟩ c := by
  unfold crossCheck at h
  split at h
  · cases h
    exact .refl _
  · split at h
    · obtain ⟨c', hcompare, h⟩ := Except.bind_eq_ok_iff.1 h
      cases h
      exact compareWith_checks hcompare
    · obtain ⟨s, -, h⟩ := Except.bind_eq_ok_iff.1 h
      obtain ⟨result, hrun, h⟩ := Except.bind_eq_ok_iff.1 h
      split at h
      · cases h
      · rename_i gold _ _ _ g
        have hchecks := (Loop.run_invariant (motive := fun g => Checks ⟨S, test⟩ g.checking) hrun
          (.refl _) fun g g' hg hnext => hg.trans (goldNext_checks hnext)).1
        split at h
        · cases h
          exact ⟨hchecks.tracked, hchecks.ex, hchecks.fa, hchecks.crossChecker, hchecks.limits⟩
        · cases h

theorem checkResult_checks {s : State} {c : Checking}
    (h : checkResult fuel S s = .ok (some c)) : Checks ⟨S, s⟩ c := by
  unfold checkResult at h
  dsimp only at h
  have hafter : ∀ {m : Mach}, Mach.Tracked ⟨s, S.pkg⟩ m →
      (if m.s.status = .halted then
        SubroutineTracker.postCheckState S.fa.fg.initPC m >>= fun m =>
          crossCheck fuel { S with pkg := m.pkg } m.s
        else pure (some ⟨{ S with pkg := m.pkg }, m.s⟩)) = .ok (some c) → Checks ⟨S, s⟩ c := by
    intro m htracked h
    split at h
    · obtain ⟨m', hpost, h⟩ := Except.bind_eq_ok_iff.1 h
      have hchecks := crossCheck_checks h
      exact ⟨(htracked.trans (SubroutineTracker.postCheckState_tracked hpost)).trans
        hchecks.tracked, hchecks.ex, hchecks.fa, hchecks.crossChecker, hchecks.limits⟩
    · cases h
      exact ⟨htracked, rfl, rfl, rfl, rfl⟩
  split at h
  · obtain ⟨m, hlimit, h⟩ := Except.bind_eq_ok_iff.1 h
    exact hafter (Limits.checkLimitOnState_tracked hlimit) h
  · exact hafter (.refl _) h

theorem checkResults_follows (h : checkResults fuel S states = .ok (some (S', states'))) :
    Follows S.pkg S'.pkg states states' ∧ S'.ex = S.ex ∧ S'.fa = S.fa ∧
      S'.crossChecker = S.crossChecker ∧ S'.limits = S.limits := by
  induction states generalizing S states' with
  | nil =>
      cases h
      exact ⟨.nil _, rfl, rfl, rfl, rfl⟩
  | cons s rest ih =>
      obtain ⟨c, hcheck, h⟩ := Except.bind_eq_ok_iff.1 h
      cases c with
      | none => cases h
      | some c =>
          obtain ⟨r, hrest, h⟩ := Except.bind_eq_ok_iff.1 h
          cases r with
          | none => cases h
          | some r =>
              cases h
              have hchecks := checkResult_checks hcheck
              obtain ⟨hfollows, hex, hfa, hcc, hlimits⟩ := ih hrest
              exact ⟨.cons hchecks.tracked hfollows, hex.trans hchecks.ex, hfa.trans hchecks.fa,
                hcc.trans hchecks.crossChecker, hlimits.trans hchecks.limits⟩

/-- The parts of one iteration: a step, the trackers and the checks. -/
theorem advance_eq_ok {s : State} (h : S.advance fuel s = .ok (some (S', states'))) :
    s.status = .normal ∧ ∃ r fa₁ states₁ fa₂ pkg₂ states₂,
      S.ex.step ⟨s, S.pkg⟩ = .ok r ∧ updateCoverage S.fa r.states = .ok (fa₁, states₁) ∧
      updateAllColors fa₁ r.pkg states₁ = .ok (fa₂, pkg₂, states₂) ∧
      checkResults fuel { S with ex := r.ex, pkg := pkg₂, fa := fa₂ } states₂ =
        .ok (some (S', states')) := by
  unfold advance at h
  split at h
  · cases h
  · rename_i hnormal
    obtain ⟨r, hstep, h⟩ := Except.bind_eq_ok_iff.1 h
    obtain ⟨⟨fa₁, states₁⟩, hcoverage, h⟩ := Except.bind_eq_ok_iff.1 h
    obtain ⟨⟨fa₂, pkg₂, states₂⟩, hcolors, h⟩ := Except.bind_eq_ok_iff.1 h
    exact ⟨by simpa using hnormal, r, fa₁, states₁, fa₂, pkg₂, states₂, hstep, hcoverage, hcolors, h⟩

/-- After the step, an iteration only does bookkeeping on the results. -/
theorem advance_follows {s : State} (h : S.advance fuel s = .ok (some (S', states'))) :
    s.status = .normal ∧ ∃ r, S.ex.step ⟨s, S.pkg⟩ = .ok r ∧ S'.ex = r.ex ∧
      Follows r.pkg S'.pkg r.states states' := by
  obtain ⟨hnormal, r, fa₁, states₁, fa₂, pkg₂, states₂, hstep, hcoverage, hcolors, hcheck⟩ :=
    advance_eq_ok h
  obtain ⟨hfollows, hex, -⟩ := checkResults_follows hcheck
  exact ⟨hnormal, r, hstep, hex,
    (updateCoverage_follows hcoverage).trans ((updateAllColors_follows hcolors).trans hfollows)⟩

end Session

end Klc3
