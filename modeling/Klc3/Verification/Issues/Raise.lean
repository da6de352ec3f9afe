import Klc3.Lib.Except
import Klc3.Model.State

/-!
# Raising issues

What `newStateIssue` does to a state and to the issue package, and how a sequence of
raised issues composes.
-/

namespace Klc3

namespace IssuePackage

variable {pkg pkg' pkg'' : IssuePackage} {uid : Nat} {ev ev' : List Issue}

theorem lookup_insertIssue (issue key : Issue) (info : IssueInfo) (l : List (Issue × IssueInfo))
    (hnew : l.lookup issue = none) :
    (insertIssue issue info l).lookup key = if key = issue then some info else l.lookup key := by
  induction l with
  | nil =>
      by_cases h : key = issue
      · simp [insertIssue, h]
      · simp [insertIssue, h, List.lookup_cons, beq_eq_false_iff_ne.2 h]
  | cons entry rest ih =>
      obtain ⟨k, v⟩ := entry
      have hne : issue ≠ k := by
        rintro rfl
        simp at hnew
      have hrest : rest.lookup issue = none := by
        simpa [List.lookup_cons, beq_eq_false_iff_ne.2 hne] using hnew
      unfold insertIssue
      split
      · by_cases hk : key = k
        · subst hk
          simp [Ne.symm hne]
        · simp [List.lookup_cons, beq_eq_false_iff_ne.2 hk, ih hrest]
      · by_cases h : key = issue
        · simp [h]
        · simp [h, List.lookup_cons, beq_eq_false_iff_ne.2 h]

/-- The package after a state with the given uid has raised the issues `ev`. Known
issues keep their information; an issue is new only if it was raised. -/
structure Raises (uid : Nat) (ev : List Issue) (pkg pkg' : IssuePackage) : Prop where
  issueLevel : pkg'.issueLevel = pkg.issueLevel
  keeps : ∀ issue info, pkg.find issue = some info → pkg'.find issue = some info
  isNew : ∀ issue info, pkg'.find issue = some info → pkg.find issue = some info ∨
    (pkg.find issue = none ∧ issue ∈ ev ∧ pkg.issueLevel issue.type ≠ some .none ∧
      info.s = some uid)
  found : ∀ issue ∈ ev, pkg.issueLevel issue.type ≠ some .none → (pkg'.find issue).isSome

theorem Raises.refl (uid : Nat) (pkg : IssuePackage) : Raises uid [] pkg pkg :=
  ⟨rfl, fun _ _ h => h, fun _ _ h => .inl h, by simp⟩

theorem Raises.trans (h : Raises uid ev pkg pkg') (h' : Raises uid ev' pkg' pkg'') :
    Raises uid (ev ++ ev') pkg pkg'' where
  issueLevel := h'.issueLevel.trans h.issueLevel
  keeps issue info hfind := h'.keeps issue info (h.keeps issue info hfind)
  isNew issue info hfind := by
    rcases h'.isNew issue info hfind with hold | ⟨hnone, hmem, hlevel, huid⟩
    · rcases h.isNew issue info hold with hold | ⟨hnone, hmem, hlevel, huid⟩
      · exact .inl hold
      · exact .inr ⟨hnone, List.mem_append_left _ hmem, hlevel, huid⟩
    · have hpkg : pkg.find issue = none := by
        cases hfind' : pkg.find issue with
        | none => rfl
        | some info' =>
            rw [h.keeps issue info' hfind'] at hnone
            cases hnone
      exact .inr ⟨hpkg, List.mem_append_right _ hmem, h.issueLevel ▸ hlevel, huid⟩
  found issue hmem hlevel := by
    rcases List.mem_append.1 hmem with hmem | hmem
    · obtain ⟨info, hinfo⟩ := Option.isSome_iff_exists.1 (h.found issue hmem hlevel)
      rw [h'.keeps issue info hinfo]
      rfl
    · exact h'.found issue hmem (by rwa [h.issueLevel])

/-- `raiseIssue` adds an issue that is not filtered out and not known yet. -/
theorem raiseIssue_eq_ok {type : IssueType} {location : Option Location} {info : IssueInfo}
    {accepted : Bool} (huid : info.s = some uid)
    (h : pkg.raiseIssue type location info = .ok (pkg', accepted)) :
    (∃ level, pkg.issueLevel type = some level) ∧ Raises uid [⟨type, location⟩] pkg pkg' := by
  unfold raiseIssue getIssueLevel at h
  cases hlevel : pkg.issueLevel type with
  | none => simp [hlevel] at h
  | some level =>
      refine ⟨⟨level, rfl⟩, ?_⟩
      simp only [hlevel, pure_bind] at h
      split at h
      · rename_i hnone
        cases h
        refine ⟨rfl, fun _ _ h => h, fun _ _ h => .inl h, ?_⟩
        intro issue hmem hlv
        rw [List.mem_singleton] at hmem
        subst hmem
        exact absurd (by rw [hlevel, hnone]) hlv
      · rename_i hne
        split at h
        · rename_i hfind
          cases h
          have hlookup := fun key => lookup_insertIssue ⟨type, location⟩ key info pkg.issues hfind
          refine ⟨rfl, ?_, ?_, ?_⟩
          · intro issue info' hinfo
            have hne' : issue ≠ ⟨type, location⟩ := by
              rintro rfl
              rw [hfind] at hinfo
              cases hinfo
            simpa [find, hlookup, hne'] using hinfo
          · intro issue info' hinfo
            simp only [find, hlookup] at hinfo
            split at hinfo
            · rename_i heq
              subst heq
              cases hinfo
              exact .inr ⟨hfind, by simp, by simpa [hlevel] using hne, huid⟩
            · exact .inl hinfo
          · intro issue hmem _
            rw [List.mem_singleton] at hmem
            subst hmem
            simp [find, hlookup]
        · rename_i info' hfind
          cases h
          refine ⟨rfl, fun _ _ h => h, fun _ _ h => .inl h, ?_⟩
          intro issue hmem _
          rw [List.mem_singleton] at hmem
          subst hmem
          simp [hfind]

end IssuePackage

namespace Mach

variable {m m' : Mach} {type : IssueType} {location : Option InstValue} {note : String}
variable {arg : Option CallBackArg}

/-- The issue that `newStateIssue` files. -/
def issueOf (m : Mach) (type : IssueType) (location : Option InstValue) : Issue :=
  ⟨type, (m.s.issueLocation location).map InstValue.location⟩

/-- Everything `newStateIssue` does. -/
theorem newStateIssueWith_eq_ok (h : m.newStateIssueWith type location note arg = .ok m') :
    (∃ trigger, m'.s = { m.s with
      triggerNewIssue := trigger
      status := if m.pkg.issueLevel type = some .error then .broken else m.s.status
      issueLog := m.s.issueLog ++ [m.issueOf type location] }) ∧
    m.pkg.Raises m.s.uid [m.issueOf type location] m'.pkg := by
  obtain ⟨⟨pkg, accepted⟩, hraise, h⟩ := Except.bind_eq_ok_iff.1 h
  obtain ⟨level, hlevel, h⟩ := Except.bind_eq_ok_iff.1 h
  cases h
  obtain ⟨⟨level', hlevel'⟩, hraises⟩ := IssuePackage.raiseIssue_eq_ok rfl hraise
  have heq : m.pkg.issueLevel type = some level := by
    unfold IssuePackage.getIssueLevel at hlevel
    rw [hraises.issueLevel, hlevel'] at hlevel
    cases hlevel
    exact hlevel'
  refine ⟨⟨m.s.triggerNewIssue || accepted, ?_⟩, hraises⟩
  simp [heq, issueOf]

theorem newStateIssue_eq_ok (h : m.newStateIssue type location note = .ok m') :
    (∃ trigger, m'.s = { m.s with
      triggerNewIssue := trigger
      status := if m.pkg.issueLevel type = some .error then .broken else m.s.status
      issueLog := m.s.issueLog ++ [m.issueOf type location] }) ∧
    m.pkg.Raises m.s.uid [m.issueOf type location] m'.pkg :=
  newStateIssueWith_eq_ok h

/-- `newStateIssue` only fails on a type without a level. -/
theorem newStateIssueWith_isOk (location : Option InstValue) (note : String)
    (arg : Option CallBackArg) {level : Level} (hlevel : m.pkg.issueLevel type = some level) :
    ∃ m', m.newStateIssueWith type location note arg = .ok m' := by
  unfold newStateIssueWith IssuePackage.raiseIssue IssuePackage.getIssueLevel
  simp only [hlevel, pure_bind]
  split
  · simp [hlevel]
  · split <;> simp [hlevel]

end Mach

end Klc3
