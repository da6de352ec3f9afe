import Klc3.Model.PruningSearcher
import Klc3.Verification.MainLoop.Calls

/-!
# Broken states in the rest of an iteration

Coverage and the searchers pass a broken state by. `updateColors` looks at the last
instruction and at the PC only, and it may go on colouring, file an issue or fail.
-/

namespace Klc3

/-! ## Issues that are not filed -/

namespace Mach

variable {m m' : Mach} {type : IssueType} {location : Option InstValue} {note : String}

/-- The package filters the issue out, or knows it already. -/
def Discards (m : Mach) (type : IssueType) (location : Option InstValue) : Prop :=
  (m.pkg.issueLevel type).isSome ∧ m.accepts type location = false

theorem accepts_eq_false_iff : m.accepts type location = false ↔
    m.pkg.issueLevel type = some .none ∨ (m.pkg.find (m.issueOf type location)).isSome := by
  unfold accepts issueOf
  rw [decide_eq_false_iff_not, not_and_or, not_not, ← ne_eq, Option.ne_none_iff_isSome]

/-- A discarded issue leaves the package as it is. -/
theorem Discards.newStateIssue (h : m.Discards type location) (note : String) :
    ∃ m', m.newStateIssue type location note = .ok m' ∧ m'.pkg = m.pkg := by
  obtain ⟨hlevel, hnot⟩ := h
  obtain ⟨level, hlevel⟩ := Option.isSome_iff_exists.1 hlevel
  have hraise : ∀ info, m.pkg.raiseIssue type ((m.s.issueLocation location).map InstValue.location)
      info = .ok (m.pkg, false) := by
    intro info
    unfold IssuePackage.raiseIssue IssuePackage.getIssueLevel
    simp only [hlevel, pure_bind]
    rcases accepts_eq_false_iff.1 hnot with hnone | hfound
    · rw [hlevel, Option.some_inj] at hnone
      rw [if_pos hnone]
      rfl
    · obtain ⟨info', hfound⟩ := Option.isSome_iff_exists.1 hfound
      unfold issueOf at hfound
      split
      · rfl
      · rw [hfound]
        rfl
  obtain ⟨m', hok⟩ := newStateIssueWith_isOk location note none hlevel
  refine ⟨m', hok, ?_⟩
  obtain ⟨r, hr, h⟩ := Except.bind_eq_ok_iff.1 hok
  rw [hraise] at hr
  cases hr
  obtain ⟨level', -, h⟩ := Except.bind_eq_ok_iff.1 h
  cases h
  rfl

/-- An issue is filed unless it is discarded. -/
theorem newStateIssue_discards (h : m.newStateIssue type location note = .ok m')
    (hpkg : m'.pkg = m.pkg) : m.Discards type location := by
  have hraises := (newStateIssue_eq_ok h).2
  rw [hpkg] at hraises
  constructor
  · obtain ⟨⟨pkg, accepted⟩, hraise, -⟩ := Except.bind_eq_ok_iff.1 h
    obtain ⟨level, hlevel⟩ := (IssuePackage.raiseIssue_eq_ok rfl hraise).1
    rw [hlevel]
    rfl
  · rw [accepts_eq_false_iff]
    by_cases hnone : m.pkg.issueLevel type = some .none
    · exact .inl hnone
    · exact .inr (hraises.found _ (List.mem_singleton.2 rfl) hnone)

end Mach

/-! ## Inert states -/

/-- No colour, edge, entry or subroutine is new. -/
structure FlowAnalysis.AddsNothing (fa fa' : FlowAnalysis) : Prop where
  edges : fa'.fg.edges.length = fa.fg.edges.length
  colors : ∀ node color, fa'.hasColor node color = true → fa.hasColor node color = true
  entries : fa'.entries ⊆ fa.entries
  subroutines : ∀ color, fa'.Knows color → fa.Knows color

theorem FlowAnalysis.AddsNothing.refl (fa : FlowAnalysis) : fa.AddsNothing fa :=
  ⟨rfl, fun _ _ => id, fun _ => id, fun _ => id⟩

/-- The rest of an iteration gets by with a state and adds nothing for it. All issues of
the step are in the package before. -/
structure Mach.Inert (fa : FlowAnalysis) (m : Mach) : Prop where
  coverage : ∀ fg, CoverageTracker.updateGraphAndCoverage fg m.s = .ok (fg, m.s)
  colors : ∃ fa' m', SubroutineTracker.updateColors fa m = .ok (fa', m') ∧ fa.AddsNothing fa' ∧
    m'.pkg = m.pkg ∧
    (∀ fuel S, Session.checkResult fuel S m'.s = .ok (some ⟨S, m'.s⟩)) ∧
    ∀ (searcher : AnySearcher) fa'', ∃ searcher', searcher.push fa'' [m'.s] = .ok searcher'

/-- What `updateColors` does for the executed instruction has been done already, or is not
to be done with the stacks as they are. -/
inductive Mach.Settled (fa : FlowAnalysis) (m : Mach) (executed : InstValue) : Prop
  | call (hcall : executed.isCall = true) (hknown : fa.Knows m.s.pc)
      (hcolor : m.s.stackHasMessedUp = true ∨ fa.hasColor m.s.pc m.s.pc = true)
  | ignored (hret : executed.isRET = true) (hlen : 2 ≤ m.s.colorStack.length)
      (hmessed : m.s.stackHasMessedUp = true)
  | returns (hret : executed.isRET = true) (hlen : 2 ≤ m.s.colorStack.length)
      (hmessed : m.s.stackHasMessedUp = false)
      (hproper : ∀ top ∈ m.s.jsrStack.head?,
        SubroutineTracker.returnsProperly m.s.pc top = true ∧
          ∀ color ∈ m.s.colorStack.tail.head?,
            fa.hasColor top.addr color = true ∧ fa.hasColor m.s.pc color = true)
  | improper (hret : executed.isRET = true) (hlen : 2 ≤ m.s.colorStack.length)
      (hmessed : m.s.stackHasMessedUp = false)
      (himproper : ∀ top ∈ m.s.jsrStack.head?,
        SubroutineTracker.returnsProperly m.s.pc top = false)
      (hdiscards : m.Discards .warnImproperRet executed)
  | inMain (hret : executed.isRET = true) (hlen : m.s.colorStack.length < 2)
      (hdiscards : m.Discards .errRetInMainCode executed)
  | other (hcall : executed.isCall = false) (hret : executed.isRET = false)
      (hcolor : m.s.stackHasMessedUp = true ∨
        ∀ color ∈ m.s.colorStack.head?, fa.hasColor m.s.pc color = true)

/-- Nothing was executed, the PC is at no node, or the update is settled. -/
def Mach.Quiet (fa : FlowAnalysis) (m : Mach) : Prop :=
  ∀ executed, m.s.latestNonOSInst.1 = some executed → (fa.fg.getNodeByAddr m.s.pc).isSome →
    m.Settled fa executed

namespace SubroutineTracker

variable {fa fa' fa₁ : FlowAnalysis} {m m' : Mach} {executed : InstValue}

/-- A flag on an edge is nothing new. -/
theorem addsNothing_flagImproperRET (fa : FlowAnalysis) (s : State) :
    fa.AddsNothing (flagImproperRET fa s) := by
  obtain ⟨hcolors, hsubroutines⟩ := flagImproperRET_colors fa s
  refine ⟨?_, fun node color h => ?_, ?_, fun c hc => ?_⟩
  · unfold flagImproperRET
    split
    · rfl
    · exact List.length_modify ..
  · rwa [FlowAnalysis.hasColor, hcolors] at h
  · unfold flagImproperRET
    split <;> exact fun _ => id
  · rwa [FlowAnalysis.Knows, hsubroutines] at hc

/-- A `RET` that adds nothing comes back properly, comes after an improper one, or its
issue is discarded. -/
theorem settled_of_updateOnReturn (hret : executed.isRET = true) (hlen : 2 ≤ m.s.colorStack.length)
    (h : updateOnReturn fa m executed = .ok (fa₁, m')) (hpkg : m'.pkg = m.pkg)
    (hcolor : m'.s.stackHasMessedUp = true ∨ ∃ color cs, m'.s.colorStack = color :: cs ∧
      fa.hasColor m'.s.pc color = true) : m.Settled fa executed := by
  unfold updateOnReturn at h
  split at h
  · rename_i hmessed
    exact .ignored hret hlen hmessed
  rename_i hmessed
  rw [Bool.not_eq_true] at hmessed
  split at h
  · cases h
  rename_i top calls hjsr
  split at h
  · rename_i hproper
    dsimp only at h
    split at h
    · cases h
    rename_i color cs htail
    split at h
    · rename_i hcolored
      cases h
      refine .returns hret hlen hmessed fun top' htop => ?_
      rw [hjsr] at htop
      cases htop
      refine ⟨hproper, fun color' hcolor' => ?_⟩
      rw [htail] at hcolor'
      cases hcolor'
      refine ⟨hcolored, ?_⟩
      rcases hcolor with hmessed' | ⟨color', cs', hcs, hcolor⟩
      · rw [hmessed] at hmessed'
        cases hmessed'
      · rw [htail] at hcs
        cases hcs
        exact hcolor
    · cases h
  · rename_i himproper
    obtain ⟨m₁, hraise, h⟩ := Except.bind_eq_ok_iff.1 h
    cases h
    refine .improper hret hlen hmessed (fun top' htop => ?_) (Mach.newStateIssue_discards hraise hpkg)
    rw [hjsr] at htop
    cases htop
    simpa using himproper

theorem settled_of_updateOnReturnInMain (hret : executed.isRET = true)
    (hlen : ¬ 2 ≤ m.s.colorStack.length)
    (h : updateOnReturnInMain fa m executed = .ok (fa₁, m')) (hpkg : m'.pkg = m.pkg) :
    m.Settled fa executed := by
  unfold updateOnReturnInMain at h
  split at h
  · cases h
  · dsimp only at h
    rw [Except.ite_bind_eq] at h
    obtain ⟨label, -, h⟩ := Except.bind_eq_ok_iff.1 h
    obtain ⟨m₁, hraise, h⟩ := Except.bind_eq_ok_iff.1 h
    cases h
    exact .inMain hret (by omega) (Mach.newStateIssue_discards hraise hpkg)

/-- What an update that adds nothing has found. -/
theorem settled_of_updateOnInst (h : updateOnInst fa m executed = .ok (fa₁, m'))
    (hpaints : fa₁.Paints fa') (hadds : fa.AddsNothing fa') (hpkg : m'.pkg = m.pkg)
    (hcolor : m'.s.stackHasMessedUp = true ∨ ∃ color cs, m'.s.colorStack = color :: cs ∧
      fa.hasColor m'.s.pc color = true) : m.Settled fa executed := by
  unfold updateOnInst at h
  split at h
  · rename_i hcall
    obtain ⟨⟨fa₂, s'⟩, hupdate, h⟩ := Except.bind_eq_ok_iff.1 h
    cases h
    have hknown := hadds.subroutines _ (hpaints.knows _ (updateOnCall_knows hupdate).1)
    rw [updateOnCall_eq_ok hupdate] at hcolor
    refine .call (by simpa [InstValue.isCall] using hcall) hknown (hcolor.imp id ?_)
    rintro ⟨color, cs, hcs, hcolor⟩
    cases hcs
    exact hcolor
  · rename_i hcall
    split at h
    · rename_i hret
      split at h
      · rename_i hlen
        exact settled_of_updateOnReturn hret hlen h hpkg hcolor
      · rename_i hlen
        exact settled_of_updateOnReturnInMain hret hlen h hpkg
    · rename_i hret
      cases h
      refine .other (by simpa [InstValue.isCall] using hcall) (by simpa using hret)
        (hcolor.imp id ?_)
      rintro ⟨color, cs, hcs, hcolor⟩ color' hcolor'
      rw [hcs] at hcolor'
      cases hcolor'
      exact hcolor

theorem updateOnImproperRET_of_discards (fa : FlowAnalysis) (top : InstValue)
    (hdiscards : m.Discards .warnImproperRet executed) :
    ∃ fa₁ m', updateOnImproperRET fa m executed top = .ok (fa₁, m') ∧ fa.AddsNothing fa₁ ∧
      m'.pkg = m.pkg ∧ m'.s.stackHasMessedUp = true := by
  obtain ⟨m₁, hraise, hpkg⟩ := hdiscards.newStateIssue
    ("expect RET to addr " ++ toLC3Hex (top.addr + 1) ++ " right after " ++
      top.formattedContext ++ ", but actually RET to addr " ++ toLC3Hex m.s.pc ++ ".\n")
  unfold updateOnImproperRET
  rw [hraise]
  exact ⟨_, _, rfl, addsNothing_flagImproperRET fa _, hpkg, rfl⟩

theorem updateOnReturnInMain_of_discards (fa : FlowAnalysis) (hcs : m.s.colorStack ≠ [])
    (hdiscards : m.Discards .errRetInMainCode executed) :
    ∃ m', updateOnReturnInMain fa m executed = .ok (fa, m') ∧ m'.pkg = m.pkg ∧
      m'.s.stackHasMessedUp = true := by
  obtain ⟨c, cs, hcolors⟩ := List.exists_cons_of_ne_nil hcs
  obtain ⟨m₁, hraise, hpkg⟩ := hdiscards.newStateIssue ("main code starts at: " ++ "" ++ ".\n")
  unfold updateOnReturnInMain
  simp only [hcolors, hdiscards.2, Bool.false_eq_true, if_false, pure_bind, hraise]
  exact ⟨_, rfl, hpkg, rfl⟩

/-- A settled update adds nothing, and the top colour is at the PC already. -/
theorem updateOnInst_of_settled (hcs : m.s.colorStack ≠ [])
    (hjsr : m.s.stackHasMessedUp = false → 2 ≤ m.s.colorStack.length → m.s.jsrStack ≠ [])
    (h : m.Settled fa executed) : ∃ fa₁ m', updateOnInst fa m executed = .ok (fa₁, m') ∧
      fa.AddsNothing fa₁ ∧ m'.pkg = m.pkg ∧ (m'.s.stackHasMessedUp = true ∨
        ∃ color cs, m'.s.colorStack = color :: cs ∧ fa₁.hasColor m'.s.pc color = true) := by
  have hnoCall : executed.isRET = true → ¬ (executed.instID = .JSR ∨ executed.instID = .JSRR) := by
    intro hret hcall
    rw [InstValue.isRET_of_isCall (by simpa [InstValue.isCall] using hcall)] at hret
    cases hret
  unfold updateOnInst
  cases h with
  | call hcall hknown hcolor =>
      have hknown' : (fa.subroutines.lookup m.s.pc).isNone = false := by
        simpa [FlowAnalysis.Knows, Option.isSome_iff_ne_none] using hknown
      rw [if_pos (by simpa [InstValue.isCall] using hcall)]
      unfold updateOnCall
      simp only [hknown', Bool.false_eq_true, if_false]
      exact ⟨_, _, rfl, .refl fa, rfl, hcolor.imp id fun h => ⟨m.s.pc, m.s.colorStack, rfl, h⟩⟩
  | ignored hret hlen hmessed =>
      rw [if_neg (hnoCall hret), if_pos hret, if_pos hlen, updateOnReturn, if_pos hmessed]
      exact ⟨_, _, rfl, .refl fa, rfl, .inl hmessed⟩
  | returns hret hlen hmessed hproper =>
      obtain ⟨top, calls, hjsr⟩ := List.exists_cons_of_ne_nil (hjsr hmessed hlen)
      obtain ⟨color, cs, htail⟩ : ∃ color cs, m.s.colorStack.tail = color :: cs := by
        apply List.exists_cons_of_ne_nil
        rintro htail
        have hlength := congrArg List.length htail
        rw [List.length_tail, List.length_nil] at hlength
        omega
      obtain ⟨hproper, hcolored⟩ := hproper top (by rw [hjsr]; rfl)
      obtain ⟨hcall, hcolor⟩ := hcolored color (by rw [htail]; rfl)
      rw [if_neg (hnoCall hret), if_pos hret, if_pos hlen, updateOnReturn, if_neg (by simp [hmessed])]
      simp only [hjsr, hproper, htail, hcall, if_true]
      exact ⟨_, _, rfl, .refl fa, rfl, .inr ⟨color, cs, rfl, hcolor⟩⟩
  | improper hret hlen hmessed himproper hdiscards =>
      obtain ⟨top, calls, hjsr⟩ := List.exists_cons_of_ne_nil (hjsr hmessed hlen)
      have himproper := himproper top (by rw [hjsr]; rfl)
      obtain ⟨fa₁, m', hok, hadds, hpkg, hmessed'⟩ :=
        updateOnImproperRET_of_discards fa top hdiscards
      rw [if_neg (hnoCall hret), if_pos hret, if_pos hlen, updateOnReturn, if_neg (by simp [hmessed])]
      simp only [hjsr, himproper, Bool.false_eq_true, if_false]
      exact ⟨fa₁, m', hok, hadds, hpkg, .inl hmessed'⟩
  | inMain hret hlen hdiscards =>
      obtain ⟨m', hok, hpkg, hmessed⟩ := updateOnReturnInMain_of_discards fa hcs hdiscards
      rw [if_neg (hnoCall hret), if_pos hret, if_neg (by omega)]
      exact ⟨fa, m', hok, .refl fa, hpkg, .inl hmessed⟩
  | other hcall hret hcolor =>
      obtain ⟨c, cs, hcolors⟩ := List.exists_cons_of_ne_nil hcs
      rw [if_neg (by simpa [InstValue.isCall] using hcall), if_neg (by simp [hret])]
      refine ⟨fa, m, rfl, .refl fa, rfl, hcolor.imp id fun h => ⟨c, cs, hcolors, h c ?_⟩⟩
      rw [hcolors]
      rfl

theorem updateColors_of_quiet (hcs : m.s.colorStack ≠ [])
    (hjsr : m.s.stackHasMessedUp = false → 2 ≤ m.s.colorStack.length → m.s.jsrStack ≠ [])
    (h : m.Quiet fa) :
    ∃ fa' m', updateColors fa m = .ok (fa', m') ∧ fa.AddsNothing fa' ∧ m'.pkg = m.pkg := by
  unfold updateColors
  cases hexec : m.s.latestNonOSInst.1 with
  | none => exact ⟨fa, m, rfl, .refl fa, rfl⟩
  | some executed =>
      dsimp only
      by_cases hnode : (fa.fg.getNodeByAddr m.s.pc).isSome
      · obtain ⟨fa₁, m', hinst, hadds, hpkg, hcolor⟩ :=
          updateOnInst_of_settled hcs hjsr (h executed hexec hnode)
        rw [if_neg (by simpa [Option.isSome_iff_ne_none] using hnode), hinst, Except.ok_bind']
        dsimp only
        by_cases hmessed : m'.s.stackHasMessedUp = true
        · rw [if_pos hmessed]
          exact ⟨fa₁, m', rfl, hadds, hpkg⟩
        · obtain ⟨color, cs, hcolors, hcolor⟩ := hcolor.resolve_left hmessed
          rw [if_neg hmessed, hcolors]
          dsimp only
          rw [FlowAnalysis.color_seen hcolor]
          exact ⟨fa₁, m', rfl, hadds, hpkg⟩
      · rw [if_pos (by simpa using hnode)]
        exact ⟨fa, m, rfl, .refl fa, rfl⟩

theorem quiet_of_updateColors (h : updateColors fa m = .ok (fa', m')) (hadds : fa.AddsNothing fa')
    (hpkg : m'.pkg = m.pkg) : m.Quiet fa := by
  intro executed hexec hnode
  rcases updateColors_eq_ok h with ⟨hidle, -, -⟩ | ⟨executed', fa₁, hexec', -, hinst, hcolor⟩
  · rcases hidle with hnone | hnone
    · rw [hnone] at hexec
      cases hexec
    · rw [hnone] at hnode
      cases hnode
  · obtain rfl : executed = executed' := by
      rw [hexec] at hexec'
      exact Option.some_inj.1 hexec'
    rcases hcolor with ⟨hmessed, rfl⟩ | ⟨-, color, cs, hcs, hcolor⟩
    · exact settled_of_updateOnInst hinst (.refl fa') hadds hpkg (.inl hmessed)
    · exact settled_of_updateOnInst hinst (FlowAnalysis.color_paints hcolor) hadds hpkg
        (.inr ⟨color, cs, hcs, hadds.colors _ _ (FlowAnalysis.color_hasColor hcolor)⟩)

end SubroutineTracker

/-! ## The rest of the iteration -/

theorem Session.checkResult_broken {s : State} (hbroken : s.status = .broken) (fuel : Nat)
    (S : Session) : checkResult fuel S s = .ok (some ⟨S, s⟩) := by
  unfold checkResult
  simp [hbroken]

theorem AnySearcher.push_broken {s : State} (hbroken : s.status = .broken) (fa : FlowAnalysis)
    (searcher : AnySearcher) : ∃ searcher', searcher.push fa [s] = .ok searcher' := by
  cases searcher with
  | basic searcher => exact ⟨_, rfl⟩
  | pruning ps =>
      have hclassify : ps.classify fa s = .ok (ps, s, true) := by
        unfold PruningSearcher.classify
        rw [if_pos (.inl hbroken)]
        rfl
      have hall : ps.classifyAll fa [s] = .ok (ps, [s]) := by
        unfold PruningSearcher.classifyAll
        rw [hclassify]
        rfl
      have hpush : ∃ ps', ps.push fa [s] = .ok ps' := by
        unfold PruningSearcher.push
        rw [hall]
        exact ⟨_, rfl⟩
      obtain ⟨ps', hpush⟩ := hpush
      exact ⟨pruning ps', by simp only [push, hpush, Except.ok_bind']; rfl⟩

/-- Only `updateColors` keeps a broken state from being inert. -/
theorem Mach.inert_iff {fa : FlowAnalysis} {m : Mach} (hbroken : m.s.status = .broken)
    (hcs : m.s.colorStack ≠ [])
    (hjsr : m.s.stackHasMessedUp = false → 2 ≤ m.s.colorStack.length → m.s.jsrStack ≠ []) :
    m.Inert fa ↔ m.Quiet fa := by
  constructor
  · rintro ⟨-, fa', m', hupdate, hadds, hpkg, -⟩
    exact SubroutineTracker.quiet_of_updateColors hupdate hadds hpkg
  · intro hquiet
    obtain ⟨fa', m', hupdate, hadds, hpkg⟩ := SubroutineTracker.updateColors_of_quiet hcs hjsr hquiet
    have hbroken' : m'.s.status = .broken := by
      rcases (SubroutineTracker.updateColors_tracked hupdate).status with hstatus | hstatus
      · exact hstatus.trans hbroken
      · exact hstatus
    refine ⟨fun fg => ?_, fa', m', hupdate, hadds, hpkg, Session.checkResult_broken hbroken',
      fun searcher fa'' => AnySearcher.push_broken hbroken' fa'' searcher⟩
    unfold CoverageTracker.updateGraphAndCoverage
    rw [if_pos hbroken]
    rfl

/-- `updateColors` is about to be called on `t`, after the coverage of all results and the
colours of those before it. -/
def Session.ColorsNext (S : Session) (r : StepResult) (fa : FlowAnalysis) (pkg : IssuePackage)
    (t : State) : Prop :=
  ∃ fa₀ before after done, updateCoverage S.fa r.states = .ok (fa₀, before ++ t :: after) ∧
    updateAllColors fa₀ r.pkg before = .ok (fa, pkg, done)

namespace Exploration

variable {fuel : Nat} {solver : Solver} {o : Options} {gold : Option Gold} {E₀ E : Exploration}

/-- The stacks of a result when `updateColors` is called on it. -/
theorem Reaches.colorsNext_stacks {s t : State} {r : StepResult} {fa : FlowAnalysis}
    {pkg : IssuePackage} (hmem : Loaded o.test.mem) (hstart : E₀.Starts solver o gold)
    (hreach : E₀.Reaches fuel E) (hs : s ∈ E.frontier)
    (hstep : E.session.ex.step ⟨s, E.session.pkg⟩ = .ok r)
    (hnext : E.session.ColorsNext r fa pkg t) : t.colorStack ≠ [] ∧
      (t.stackHasMessedUp = false → 2 ≤ t.colorStack.length → t.jsrStack ≠ []) := by
  obtain ⟨fa₀, before, after, done, hcoverage, -⟩ := hnext
  have htraced : ∃ b, Traced fuel (improperSoFar o.test.mem) E₀ false E s b := hreach.traced hs
  obtain ⟨b, htraced⟩ := htraced
  obtain ⟨-, -, hlength, hmessed⟩ := Traced.stacks_length hmem hstart htraced
  obtain ⟨u, hu, -, hstacks, -⟩ :=
    (Session.updateCoverage_stacks hcoverage).exists_left (b := t) (by simp)
  have hsteps := Executor.mem_step hstep hu
  have hcolors : t.colorStack = s.colorStack :=
    (congrArg CallStack.colors hstacks).trans hsteps.stacks.1
  have hcalls : t.jsrStack = s.jsrStack :=
    (congrArg CallStack.calls hstacks).trans hsteps.stacks.2.1
  rw [hcolors, hcalls]
  constructor
  · rintro hnil
    rw [hnil, List.length_nil] at hlength
    omega
  · rintro ht hlen hnil
    have hu' : u.stackHasMessedUp = false := (congrArg CallStack.messedUp hstacks).symm.trans ht
    have hs' : s.stackHasMessedUp = false :=
      (congrArg CallStack.messedUp (hsteps.callStack_eq hu')).symm.trans hu'
    cases b with
    | true =>
        rw [hmessed rfl] at hs'
        cases hs'
    | false =>
        rw [hnil, if_neg (by simp), List.length_nil] at hlength
        omega

/-- In every run, the rest of an iteration is inert on a state that the step has broken
exactly when the update of its colours is settled before. -/
theorem reachable_broken_inert_iff (hmem : Loaded o.test.mem) (hstart : E₀.Starts solver o gold)
    (hreach : E₀.Reaches fuel E) :
    ∀ s ∈ E.frontier, ∀ r, E.session.ex.step ⟨s, E.session.pkg⟩ = .ok r →
      ∀ t ∈ r.states, t.status = .broken → ∀ fa pkg, E.session.ColorsNext r fa pkg t →
        (Mach.Inert fa ⟨t, pkg⟩ ↔ Mach.Quiet fa ⟨t, pkg⟩) := by
  intro s hs r hstep t _ hbroken fa pkg hnext
  obtain ⟨hcs, hjsr⟩ := Reaches.colorsNext_stacks hmem hstart hreach hs hstep hnext
  exact Mach.inert_iff hbroken hcs hjsr

end Exploration

/-- A call through a symbolic register, with an instruction behind it. -/
def Program.calling : Program where
  mem :=
    [(0x3000, .inst ⟨0x3000, 0x2002, ⟨.LD, .RL, 0xF000, 0x2000⟩, matchInst_load, false, [],
        "calling.asm", 1, "LD R0, TARGET"⟩),
     (0x3001, .inst ⟨0x3001, 0x4000, ⟨.JSRR, .R, 0xFE3F, 0x4000⟩, by decide, false, [],
        "calling.asm", 2, "JSRR R0"⟩),
     (0x3002, .inst ⟨0x3002, 0xF025, ⟨.TRAP, .V, 0xFF00, 0xF000⟩, matchInst_halt, false, [],
        "calling.asm", 3, "INSTANT_HALT"⟩),
     (0x3003, .data ⟨some (.read .sample 0), false, false⟩)]
  constraints := []
  initPC := 0x3000
  preferences := []

def Options.calling : Options :=
  { Options.sample with test := .calling }

/-- The tracker takes the instruction behind the broken call for a new subroutine, and
there is no edge into it. -/
theorem calling_fails : ∃ (E₀ E : Exploration) (s t : State) (r : StepResult) (fa : FlowAnalysis)
    (pkg : IssuePackage), E₀.Starts Solver.ideal .calling none ∧ E₀.Reaches 0 E ∧
    s ∈ E.frontier ∧ E.session.ex.step ⟨s, E.session.pkg⟩ = .ok r ∧ t ∈ r.states ∧
    t.status = .broken ∧ E.session.ColorsNext r fa pkg t ∧
    SubroutineTracker.updateColors fa ⟨t, pkg⟩ = .error .nullDeref ∧ ¬ Mach.Inert fa ⟨t, pkg⟩ := by
  have hrun : ∃ l, Options.calling.start Solver.ideal none = .ok l ∧
      ∃ s₀, l.searcher.states = [s₀] ∧
      ∃ S₁ s₁, l.session.advance 0 s₀ = .ok (some (S₁, [s₁])) ∧
      ∃ r t fa, S₁.ex.step ⟨s₁, S₁.pkg⟩ = .ok r ∧ r.states = [t] ∧ t.status = .broken ∧
        Session.updateCoverage S₁.fa r.states = .ok (fa, [t]) ∧
        SubroutineTracker.updateColors fa ⟨t, r.pkg⟩ = .error .nullDeref := by
    refine ⟨_, rfl, ?_⟩
    refine ⟨_, rfl, ?_⟩
    refine ⟨_, _, rfl, ?_⟩
    exact ⟨_, _, _, rfl, rfl, rfl, rfl, rfl⟩
  obtain ⟨l, hl, s₀, hs₀, S₁, s₁, hnext, r, t, fa, hstep, hstates, hbroken, hcoverage, hfails⟩ := hrun
  obtain ⟨E₀, hstart, hsession, hfrontier⟩ := Options.start_explores rfl hl
  rw [hs₀, List.perm_singleton] at hfrontier
  rw [← hsession] at hnext
  refine ⟨E₀, ⟨S₁, [s₁]⟩, s₁, t, r, fa, r.pkg, hstart, .single ⟨[], s₀, [], [s₁], hfrontier, hnext, rfl⟩,
    List.mem_singleton.2 rfl, hstep, by rw [hstates]; exact List.mem_singleton.2 rfl, hbroken,
    ⟨fa, [], [], [], hcoverage, rfl⟩, hfails, ?_⟩
  rintro ⟨-, fa', m', hok, -⟩
  rw [hfails] at hok
  cases hok

/-- A store over the next instruction. -/
def Program.clobbering : Program where
  mem :=
    [(0x3000, .inst ⟨0x3000, 0x3000, ⟨.ST, .RL, 0xF000, 0x3000⟩, by decide, false, [],
        "clobbering.asm", 1, "ST R0, DONE"⟩),
     (0x3001, .inst ⟨0x3001, 0xF025, ⟨.TRAP, .V, 0xFF00, 0xF000⟩, matchInst_halt, false, ["DONE"],
        "clobbering.asm", 2, "INSTANT_HALT"⟩)]
  constraints := []
  initPC := 0x3000
  preferences := []

def Options.clobbering : Options :=
  { Options.sample with test := .clobbering }

/-- The broken store of `Program.clobbering` is inert, since the main code goes on behind it. -/
theorem clobbering_inert : ∃ (E : Exploration) (s t : State) (r : StepResult) (fa : FlowAnalysis)
    (pkg : IssuePackage), E.Starts Solver.ideal .clobbering none ∧ s ∈ E.frontier ∧
    E.session.ex.step ⟨s, E.session.pkg⟩ = .ok r ∧ t ∈ r.states ∧ t.status = .broken ∧
    E.session.ColorsNext r fa pkg t ∧ Mach.Inert fa ⟨t, pkg⟩ := by
  have hrun : ∃ l, Options.clobbering.start Solver.ideal none = .ok l ∧
      ∃ s, l.searcher.states = [s] ∧
      ∃ r t fa, l.session.ex.step ⟨s, l.session.pkg⟩ = .ok r ∧ r.states = [t] ∧ t.status = .broken ∧
        Session.updateCoverage l.session.fa r.states = .ok (fa, [t]) ∧
        ∃ i, t.latestNonOSInst.1 = some i ∧ i.isCall = false ∧ i.isRET = false ∧
          t.colorStack = [0x3000] ∧ fa.hasColor t.pc 0x3000 = true := by
    refine ⟨_, rfl, ?_⟩
    refine ⟨_, rfl, ?_⟩
    refine ⟨_, _, _, rfl, rfl, rfl, rfl, ?_⟩
    exact ⟨_, rfl, rfl, rfl, rfl, rfl⟩
  obtain ⟨l, hl, s, hs, r, t, fa, hstep, hstates, hbroken, hcoverage, i, hi, hcall, hret, hcolors,
    hcolor⟩ := hrun
  obtain ⟨E, hstart, hsession, hfrontier⟩ := Options.start_explores rfl hl
  rw [hs, List.perm_singleton] at hfrontier
  rw [← hsession] at hstep hcoverage
  have hmem : Loaded Options.clobbering.test.mem := by
    refine ⟨by decide, fun addr i hi => ?_⟩
    simp only [Options.clobbering, Program.clobbering, List.mem_cons, List.not_mem_nil, or_false,
      Prod.mk.injEq, MemValue.inst.injEq] at hi
    rcases hi with ⟨rfl, rfl⟩ | ⟨rfl, rfl⟩ <;> rfl
  have ht : t ∈ r.states := by
    rw [hstates]
    exact List.mem_singleton.2 rfl
  have hs : s ∈ E.frontier := by
    rw [hfrontier]
    exact List.mem_singleton.2 rfl
  have hnext : E.session.ColorsNext r fa r.pkg t := ⟨fa, [], [], [], hcoverage, rfl⟩
  refine ⟨E, s, t, r, fa, r.pkg, hstart, hs, hstep, ht, hbroken, hnext, ?_⟩
  have hreach : E.Reaches 0 E := .refl
  apply (Exploration.reachable_broken_inert_iff hmem hstart hreach s hs r hstep t ht hbroken fa
    r.pkg hnext).2
  intro executed hexec _
  rw [hi] at hexec
  cases hexec
  refine .other hcall hret (.inr fun color hmem => ?_)
  rw [hcolors] at hmem
  cases hmem
  exact hcolor

end Klc3
