import Klc3.Model.MainLoop
import Klc3.Verification.Executor.Step

/-!
# What the main loop does to a result state

Between two steps the trackers, the limits and the comparison with the gold program
only touch the bookkeeping of a state and raise issues on it.
-/

namespace Klc3

/-- A state without the bookkeeping of the trackers, its status and its issues. -/
def State.core (s : State) : State :=
  { s with
    status := .normal
    triggerNewIssue := false
    coveredNewEdge := false
    coveredNewSegment := false
    statePath := []
    colorStack := []
    jsrStack := []
    stackHasMessedUp := false
    issueLog := [] }

namespace State

variable {s s' : State}

/-- States with the same core agree on everything that is read from the core. -/
theorem core_congr {α : Type} (f : State → α) (h : s'.core = s.core)
    (hf : ∀ s : State, f s.core = f s) : f s' = f s := by
  rw [← hf s', h, hf]

theorem core_uid (h : s'.core = s.core) : s'.uid = s.uid :=
  core_congr State.uid h fun _ => rfl

theorem core_constraints (h : s'.core = s.core) : s'.constraints = s.constraints :=
  core_congr State.constraints h fun _ => rfl

theorem core_mem (h : s'.core = s.core) : s'.mem = s.mem :=
  core_congr State.mem h fun _ => rfl

theorem All.of_core {P : WordExpr → Prop} (hs : s.All P) (h : s'.core = s.core) : s'.All P := by
  have hreg : s'.reg = s.reg := core_congr State.reg h fun _ => rfl
  have hout : s'.lc3Out = s.lc3Out := core_congr State.lc3Out h fun _ => rfl
  refine ⟨?_, ?_, ?_⟩
  · rw [hreg]
    exact hs.reg
  · rw [core_mem h]
    exact hs.mem
  · rw [hout]
    exact hs.out

end State

namespace Mach

variable {m m' m'' : Mach} {ev ev' : List Issue}

/-- From `m` to `m'` the issues `ev` were raised and the rest is bookkeeping. -/
structure Tracks (ev : List Issue) (m m' : Mach) : Prop where
  core : m'.s.core = m.s.core
  issueLog : m'.s.issueLog = m.s.issueLog ++ ev
  raises : m.pkg.Raises m.s.uid ev m'.pkg
  broken : m.pkg.anyError ev → m'.s.status = .broken
  status : ¬ m.pkg.anyError ev → m'.s.status = m.s.status

theorem Tracks.refl (m : Mach) : Tracks [] m m :=
  ⟨rfl, by simp, .refl _ _, by simp, fun _ => rfl⟩

theorem Tracks.trans (h : Tracks ev m m') (h' : Tracks ev' m' m'') :
    Tracks (ev ++ ev') m m'' where
  core := h'.core.trans h.core
  issueLog := by rw [h'.issueLog, h.issueLog, List.append_assoc]
  raises := h.raises.trans (State.core_uid h.core ▸ h'.raises)
  broken := by
    have hlevel := IssuePackage.anyError_congr ev' h.raises.issueLevel
    intro herror
    by_cases herr' : m'.pkg.anyError ev'
    · exact h'.broken herr'
    · rw [h'.status herr']
      rcases IssuePackage.anyError_append.1 herror with herror | herror
      · exact h.broken herror
      · exact absurd (hlevel.2 herror) herr'
  status := by
    have hlevel := IssuePackage.anyError_congr ev' h.raises.issueLevel
    intro hnone
    rw [IssuePackage.anyError_append, not_or] at hnone
    rw [h'.status (mt hlevel.1 hnone.2), h.status hnone.1]

theorem Tracks.of_core {s' : State} (hcore : s'.core = m.s.core)
    (hlog : s'.issueLog = m.s.issueLog) (hstatus : s'.status = m.s.status) :
    Tracks [] m ⟨s', m.pkg⟩ :=
  ⟨hcore, by simp [hlog], .refl _ _, by simp, fun _ => hstatus⟩

/-- The bookkeeping relation without the issues that were raised. -/
def Tracked (m m' : Mach) : Prop :=
  ∃ ev, Tracks ev m m'

theorem Tracked.refl (m : Mach) : Tracked m m := ⟨[], .refl m⟩

theorem Tracked.trans (h : Tracked m m') (h' : Tracked m' m'') : Tracked m m'' :=
  let ⟨_, h⟩ := h
  let ⟨_, h'⟩ := h'
  ⟨_, h.trans h'⟩

theorem Tracked.of_core {s' : State} (hcore : s'.core = m.s.core)
    (hlog : s'.issueLog = m.s.issueLog) (hstatus : s'.status = m.s.status) :
    Tracked m ⟨s', m.pkg⟩ :=
  ⟨[], .of_core hcore hlog hstatus⟩

theorem Tracked.core (h : Tracked m m') : m'.s.core = m.s.core :=
  let ⟨_, h⟩ := h
  h.core

/-- A state that is not broken by the bookkeeping keeps its status. -/
theorem Tracked.status (h : Tracked m m') : m'.s.status = m.s.status ∨ m'.s.status = .broken := by
  obtain ⟨ev, h⟩ := h
  by_cases herror : m.pkg.anyError ev
  · exact .inr (h.broken herror)
  · exact .inl (h.status herror)

theorem newStateIssueWith_tracks {type : IssueType} {location : Option InstValue} {note : String}
    {arg : Option CallBackArg} (h : m.newStateIssueWith type location note arg = .ok m') :
    Tracks [m.issueOf type location] m m' := by
  have heff := newStateIssueWith_effect (P := fun _ => True)
    ⟨fun _ _ _ => trivial, fun _ _ _ _ _ => trivial, fun _ _ => trivial⟩ h
  obtain ⟨⟨trigger, hs⟩, -⟩ := newStateIssueWith_eq_ok h
  exact ⟨by rw [hs]; rfl, heff.issueLog, heff.raises, heff.broken, heff.status⟩

theorem newStateIssue_tracked {type : IssueType} {location : Option InstValue} {note : String}
    (h : m.newStateIssue type location note = .ok m') : Tracked m m' :=
  ⟨_, newStateIssueWith_tracks h⟩

end Mach

/-! ## Trackers -/

theorem CoverageTracker.appendEdgeCoverage_eq_ok {fg fg' : FlowGraph} {s s' : State} {edge : Nat}
    (h : appendEdgeCoverage fg s edge = .ok (fg', s')) :
    ∃ covered path, s' = { s with coveredNewEdge := covered, statePath := path } := by
  unfold appendEdgeCoverage at h
  split at h
  · cases h
  · dsimp only at h
    split at h
    · cases h
      exact ⟨_, _, rfl⟩
    · obtain ⟨guiding, -, h⟩ := Except.bind_eq_ok_iff.1 h
      split at h
      · cases h
        exact ⟨_, _, rfl⟩
      · cases h
        exact ⟨_, _, rfl⟩

/-- Coverage only changes the coverage of a state. -/
theorem CoverageTracker.updateGraphAndCoverage_eq_ok {fg fg' : FlowGraph} {s s' : State}
    (h : updateGraphAndCoverage fg s = .ok (fg', s')) :
    ∃ covered path, s' = { s with coveredNewEdge := covered, statePath := path } := by
  unfold updateGraphAndCoverage at h
  split at h
  · cases h
    exact ⟨_, _, rfl⟩
  · obtain ⟨coveredEdge, -, h⟩ := Except.bind_eq_ok_iff.1 h
    split at h
    · cases h
      exact ⟨_, _, rfl⟩
    · obtain ⟨⟨fg₁, s₁⟩, happend, h⟩ := Except.bind_eq_ok_iff.1 h
      obtain ⟨covered, path, rfl⟩ := appendEdgeCoverage_eq_ok happend
      dsimp only at h
      split at h
      · split at h
        · cases h
          exact ⟨_, _, rfl⟩
        · obtain ⟨covered', path', rfl⟩ := appendEdgeCoverage_eq_ok h
          exact ⟨_, _, rfl⟩
      · obtain ⟨fg₂, -, h⟩ := Except.bind_eq_ok_iff.1 h
        cases h
        exact ⟨_, _, rfl⟩

namespace SubroutineTracker

variable {fa fa' : FlowAnalysis} {m m' : Mach} {executed : InstValue}

theorem updateOnCall_eq_ok {s s' : State} (h : updateOnCall fa s executed = .ok (fa', s')) :
    s' = { s with colorStack := s.pc :: s.colorStack, jsrStack := executed :: s.jsrStack } := by
  unfold updateOnCall at h
  dsimp only at h
  split at h
  · obtain ⟨fa₁, -, h⟩ := Except.bind_eq_ok_iff.1 h
    obtain ⟨fa₂, -, h⟩ := Except.bind_eq_ok_iff.1 h
    cases h
    rfl
  · cases h
    rfl

theorem updateOnReturn_tracked (h : updateOnReturn fa m executed = .ok (fa', m')) :
    m.Tracked m' := by
  unfold updateOnReturn at h
  split at h
  · cases h
    exact .refl m
  · split at h
    · cases h
    · split at h
      · dsimp only at h
        split at h
        · cases h
        · split at h
          · cases h
            exact .of_core rfl rfl rfl
          · cases h
      · obtain ⟨m₁, hraise, h⟩ := Except.bind_eq_ok_iff.1 h
        cases h
        exact (Mach.newStateIssue_tracked hraise).trans (.of_core rfl rfl rfl)

theorem updateOnReturnInMain_tracked (h : updateOnReturnInMain fa m executed = .ok (fa', m')) :
    m.Tracked m' := by
  unfold updateOnReturnInMain at h
  split at h
  · cases h
  · dsimp only at h
    split at h
    · obtain ⟨label, -, h⟩ := Except.bind_eq_ok_iff.1 h
      obtain ⟨m₁, hraise, h⟩ := Except.bind_eq_ok_iff.1 h
      cases h
      exact (Mach.newStateIssue_tracked hraise).trans (.of_core rfl rfl rfl)
    · rw [pure_bind] at h
      obtain ⟨m₁, hraise, h⟩ := Except.bind_eq_ok_iff.1 h
      cases h
      exact (Mach.newStateIssue_tracked hraise).trans (.of_core rfl rfl rfl)

theorem updateOnInst_tracked (h : updateOnInst fa m executed = .ok (fa', m')) : m.Tracked m' := by
  unfold updateOnInst at h
  split at h
  · obtain ⟨⟨fa₁, s⟩, hcall, h⟩ := Except.bind_eq_ok_iff.1 h
    cases h
    rw [updateOnCall_eq_ok hcall]
    exact .of_core rfl rfl rfl
  · split at h
    · split at h
      · exact updateOnReturn_tracked h
      · exact updateOnReturnInMain_tracked h
    · cases h
      exact .refl m

theorem updateColors_tracked (h : updateColors fa m = .ok (fa', m')) : m.Tracked m' := by
  unfold updateColors at h
  split at h
  · cases h
    exact .refl m
  · split at h
    · cases h
      exact .refl m
    · obtain ⟨⟨fa₁, m₁⟩, hinst, h⟩ := Except.bind_eq_ok_iff.1 h
      have htracked := updateOnInst_tracked hinst
      dsimp only at h
      split at h
      · cases h
        exact htracked
      · split at h
        · cases h
        · obtain ⟨fa₂, -, h⟩ := Except.bind_eq_ok_iff.1 h
          cases h
          exact htracked

theorem postCheckState_tracked {initPC : Word} (h : postCheckState initPC m = .ok m') :
    m.Tracked m' := by
  unfold postCheckState at h
  split at h
  · cases h
    exact .refl m
  · split at h
    · cases h
    · split at h
      · exact Mach.newStateIssue_tracked h
      · cases h
        exact .refl m

end SubroutineTracker

theorem Limits.reach_eq_ok {m m' : Mach} {type : IssueType} {note : String}
    (h : reach m type note = .ok m') :
    m.newStateIssue type Option.none note = .ok m' ∧ m'.s.status = .broken := by
  obtain ⟨m₁, hraise, h⟩ := Except.bind_eq_ok_iff.1 h
  obtain ⟨_, hassert, h⟩ := Except.bind_eq_ok_iff.1 h
  cases h
  exact ⟨hraise, Mach.assertBroken_eq_ok hassert⟩

theorem Limits.checkLimitOnState_tracked {l : Limits} {m m' : Mach}
    (h : l.checkLimitOnState m = .ok m') : m.Tracked m' := by
  unfold checkLimitOnState at h
  split at h
  · exact Mach.newStateIssue_tracked (reach_eq_ok h).1
  · split at h
    · exact Mach.newStateIssue_tracked (reach_eq_ok h).1
    · split at h
      · exact Mach.newStateIssue_tracked (reach_eq_ok h).1
      · cases h
        exact .refl m

end Klc3
