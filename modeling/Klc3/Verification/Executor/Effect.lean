import Klc3.Model.Executor
import Klc3.Verification.Issues.Raise

/-!
# Effects of the executor on one state

Everything the executor does to a state short of forking it: it raises issues, and
changes what the machine consists of. The relations `Frame` and `Effect` say so once;
every function of the executor has one of them as its frame condition.
-/

namespace Klc3

/-! ## Expressions of a state -/

/-- A property of expressions that no instruction can lose. -/
structure Closed (P : WordExpr → Prop) : Prop where
  const : ∀ c, P (.const c)
  add : ∀ l r e, P l → P r → addResult l r = .ok e → P e
  and : ∀ l r, P l → P r → P (ExprBuilder.and l r)
  not : ∀ e, P e → P (ExprBuilder.not e)

namespace State

/-- Every expression that the machine of a state holds has the property `P`. -/
structure All (P : WordExpr → Prop) (s : State) : Prop where
  reg : ∀ r e, s.reg r = some e → P e
  mem : ∀ addr v e, s.mem.read addr = some v → v.e = some e → P e
  out : ∀ e ∈ s.lc3Out, P e

/-- The bookkeeping around the machine that stays the same within a step. -/
structure Same (s s' : State) : Prop where
  uid : s'.uid = s.uid
  constraints : s'.constraints = s.constraints
  colorStack : s'.colorStack = s.colorStack
  jsrStack : s'.jsrStack = s.jsrStack
  baseMem : s'.mem.baseMem = s.mem.baseMem
  latestInst : s'.latestInst = s.latestInst
  latestNonOSInst : s'.latestNonOSInst = s.latestNonOSInst
  stepCount : s'.stepCount = s.stepCount
  statePath : s'.statePath = s.statePath

theorem Same.refl (s : State) : Same s s := ⟨rfl, rfl, rfl, rfl, rfl, rfl, rfl, rfl, rfl⟩

theorem Same.trans {s s' s'' : State} (h : Same s s') (h' : Same s' s'') : Same s s'' :=
  ⟨h'.uid.trans h.uid, h'.constraints.trans h.constraints, h'.colorStack.trans h.colorStack,
    h'.jsrStack.trans h.jsrStack, h'.baseMem.trans h.baseMem, h'.latestInst.trans h.latestInst,
    h'.latestNonOSInst.trans h.latestNonOSInst, h'.stepCount.trans h.stepCount,
    h'.statePath.trans h.statePath⟩

/-- A change of the machine that raises nothing. -/
structure Silent (s s' : State) : Prop extends Same s s' where
  status : s'.status = s.status
  triggerNewIssue : s'.triggerNewIssue = s.triggerNewIssue
  issueLog : s'.issueLog = s.issueLog
  mcrLog : s'.mcrLog = s.mcrLog

theorem setReg_silent (s : State) (r : Fin 8) (value : Option WordExpr) :
    s.Silent (s.setReg r value) :=
  ⟨⟨rfl, rfl, rfl, rfl, rfl, rfl, rfl, rfl, rfl⟩, rfl, rfl, rfl, rfl⟩

theorem All.setReg {P : WordExpr → Prop} {s : State} (h : s.All P) {r : Fin 8}
    {value : Option WordExpr} (hvalue : ∀ e, value = some e → P e) : (s.setReg r value).All P where
  reg r' e he := by
    simp only [State.setReg] at he
    split at he
    · exact hvalue e he
    · exact h.reg r' e he
  mem := h.mem
  out := h.out

end State

/-- Some issue of the list is an error. -/
def IssuePackage.anyError (pkg : IssuePackage) (ev : List Issue) : Prop :=
  ∃ issue ∈ ev, pkg.issueLevel issue.type = some .error

namespace IssuePackage

variable {pkg : IssuePackage} {ev ev' : List Issue}

@[simp] theorem anyError_nil : ¬ pkg.anyError [] := by
  simp [anyError]

@[simp] theorem anyError_append :
    pkg.anyError (ev ++ ev') ↔ pkg.anyError ev ∨ pkg.anyError ev' := by
  simp [anyError, or_and_right, exists_or]

@[simp] theorem anyError_singleton {issue : Issue} :
    pkg.anyError [issue] ↔ pkg.issueLevel issue.type = some .error := by
  simp [anyError]

variable (ev) in
theorem anyError_congr {pkg' : IssuePackage} (h : pkg'.issueLevel = pkg.issueLevel) :
    pkg'.anyError ev ↔ pkg.anyError ev := by
  simp [anyError, h]

end IssuePackage

namespace Mach

variable {P : WordExpr → Prop} {m m' m'' : Mach} {ev ev' : List Issue}

/-- From `m` to `m'` the issues `ev` were raised, and every expression of `m'` has
the property `P`. -/
structure Frame (P : WordExpr → Prop) (ev : List Issue) (m m' : Mach) : Prop where
  same : m.s.Same m'.s
  all : m'.s.All P
  issueLog : m'.s.issueLog = m.s.issueLog ++ ev
  mcrLog : m.s.mcrLog <+: m'.s.mcrLog
  raises : m.pkg.Raises m.s.uid ev m'.pkg

/-- A change in which the status follows the issues: an error breaks the state. -/
structure Effect (P : WordExpr → Prop) (ev : List Issue) (m m' : Mach) : Prop
    extends Frame P ev m m' where
  broken : m.pkg.anyError ev → m'.s.status = .broken
  status : ¬ m.pkg.anyError ev → m'.s.status = m.s.status

theorem Frame.refl (hm : m.s.All P) : Frame P [] m m :=
  ⟨.refl _, hm, by simp, List.prefix_rfl, .refl _ _⟩

theorem Frame.trans (h : Frame P ev m m') (h' : Frame P ev' m' m'') :
    Frame P (ev ++ ev') m m'' where
  same := h.same.trans h'.same
  all := h'.all
  issueLog := by rw [h'.issueLog, h.issueLog, List.append_assoc]
  mcrLog := h.mcrLog.trans h'.mcrLog
  raises := h.raises.trans (h.same.uid ▸ h'.raises)

theorem Effect.refl (hm : m.s.All P) : Effect P [] m m :=
  ⟨.refl hm, by simp, fun _ => rfl⟩

theorem Effect.trans (h : Effect P ev m m') (h' : Effect P ev' m' m'') :
    Effect P (ev ++ ev') m m'' where
  toFrame := h.toFrame.trans h'.toFrame
  broken := by
    have hlevel := IssuePackage.anyError_congr ev' h.raises.issueLevel
    intro herror
    by_cases herr' : m'.pkg.anyError ev'
    · exact h'.broken herr'
    · rw [h'.status herr']
      rcases IssuePackage.anyError_append.1 herror with herror | herror
      · exact h.broken herror
      · exact absurd (hlevel.2 herror) herr'
  status := by
    have hlevel := IssuePackage.anyError_congr ev' h.raises.issueLevel
    intro hnone
    rw [IssuePackage.anyError_append, not_or] at hnone
    rw [h'.status (mt hlevel.1 hnone.2), h.status hnone.1]

theorem Effect.of_silent {s' : State} (h : m.s.Silent s') (hall : s'.All P) :
    Effect P [] m ⟨s', m.pkg⟩ where
  same := h.toSame
  all := hall
  issueLog := by simp [h.issueLog]
  mcrLog := by simp [h.mcrLog]
  raises := .refl _ _
  broken := by simp
  status := fun _ => h.status

/-- The frame condition without the issues that were raised. -/
def Effects (P : WordExpr → Prop) (m m' : Mach) : Prop :=
  ∃ ev, Effect P ev m m'

theorem Effects.refl (hm : m.s.All P) : Effects P m m := ⟨[], .refl hm⟩

theorem Effects.trans (h : Effects P m m') (h' : Effects P m' m'') : Effects P m m'' :=
  let ⟨_, h⟩ := h
  let ⟨_, h'⟩ := h'
  ⟨_, h.trans h'⟩

theorem Effects.of_silent {s' : State} (h : m.s.Silent s') (hall : s'.All P) :
    Effects P m ⟨s', m.pkg⟩ :=
  ⟨[], .of_silent h hall⟩

theorem Effects.all (h : Effects P m m') : m'.s.All P :=
  let ⟨_, h⟩ := h
  h.all

theorem Effects.same (h : Effects P m m') : m.s.Same m'.s :=
  let ⟨_, h⟩ := h
  h.same

theorem Effects.issueLevel (h : Effects P m m') : m'.pkg.issueLevel = m.pkg.issueLevel :=
  let ⟨_, h⟩ := h
  h.raises.issueLevel

/-- A state that is still `NORMAL` was so before. -/
theorem Effects.normal (h : Effects P m m') (hnormal : m'.s.status = .normal) :
    m.s.status = .normal := by
  obtain ⟨ev, h⟩ := h
  by_cases herror : m.pkg.anyError ev
  · rw [h.broken herror] at hnormal
    cases hnormal
  · rw [← h.status herror, hnormal]

/-- A broken state stays broken. -/
theorem Effects.broken (h : Effects P m m') (hbroken : m.s.status = .broken) :
    m'.s.status = .broken := by
  obtain ⟨ev, h⟩ := h
  by_cases herror : m.pkg.anyError ev
  · exact h.broken herror
  · rw [h.status herror, hbroken]

theorem newStateIssueWith_effect {type : IssueType} {location : Option InstValue} {note : String}
    {arg : Option CallBackArg} (hm : m.s.All P)
    (h : m.newStateIssueWith type location note arg = .ok m') :
    Effect P [m.issueOf type location] m m' := by
  obtain ⟨⟨trigger, hs⟩, hraises⟩ := newStateIssueWith_eq_ok h
  have hlevel : (m.issueOf type location).type = type := rfl
  refine ⟨⟨?_, ?_, by rw [hs], by rw [hs], hraises⟩, ?_, ?_⟩
  · rw [hs]
    exact ⟨rfl, rfl, rfl, rfl, rfl, rfl, rfl, rfl, rfl⟩
  · rw [hs]
    exact ⟨hm.reg, hm.mem, hm.out⟩
  · intro herror
    rw [IssuePackage.anyError_singleton, hlevel] at herror
    rw [hs, if_pos herror]
  · intro hnone
    rw [IssuePackage.anyError_singleton, hlevel] at hnone
    rw [hs, if_neg hnone]

theorem newStateIssue_effects {type : IssueType} {location : Option InstValue} {note : String}
    (hm : m.s.All P) (h : m.newStateIssue type location note = .ok m') : Effects P m m' :=
  ⟨_, newStateIssueWith_effect hm h⟩

end Mach

end Klc3
