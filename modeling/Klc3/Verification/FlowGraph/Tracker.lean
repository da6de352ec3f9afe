import Klc3.Verification.FlowGraph.Coverage
import Klc3.Verification.MainLoop.Tracking

/-!
# The coverage tracker

What `updateGraphAndCoverage` does to the graph, and when it fails.
-/

namespace Klc3

/-- Two assertions say that the graph knows every transition of the program. -/
def Abort.isMissingEdge : Abort → Bool
  | .failToMatchCoveredEdge | .noEdgeToPC => true
  | _ => false

namespace CoverageTracker

open FlowGraph (Grows)

variable {fg fg' : FlowGraph} {s s' : State} {k : Nat} {err : Abort}

theorem appendEdgeCoverage_fg (h : appendEdgeCoverage fg s k = .ok (fg', s')) :
    ∃ e, fg.edges[k]? = some e ∧ fg' = fg.cover k e := by
  unfold appendEdgeCoverage at h
  split at h
  · cases h
  · rename_i e hget
    refine ⟨e, hget, ?_⟩
    dsimp only at h
    split at h
    · cases h
      rfl
    · obtain ⟨guiding, -, h⟩ := Except.bind_eq_ok_iff.1 h
      split at h
      · cases h
        rfl
      · cases h
        rfl

theorem appendEdgeCoverage_error (h : appendEdgeCoverage fg s k = .error err) :
    err.isMissingEdge = false := by
  unfold appendEdgeCoverage at h
  split at h
  · cases h
    rfl
  · dsimp only at h
    split at h
    · cases h
    · rcases Except.bind_eq_error_iff.1 h with hguiding | ⟨guiding, -, h⟩
      · unfold isGuidingEdge at hguiding
        split at hguiding
        · split at hguiding
          · cases hguiding
            rfl
          · split at hguiding
            · split at hguiding <;> cases hguiding
            · cases hguiding
        · cases hguiding
      · split at h <;> cases h

/-- Afterwards the graph knows where the program goes next. -/
theorem prepareEdgeToPCNode_spec (h : prepareEdgeToPCNode fg s = .ok fg') :
    fg.Extends fg' ∧ ∀ i, s.latestNonOSInst.1 = some i → (fg.getNodeByAddr s.pc).isSome →
      fg'.HasEdge (some i.addr) (some s.pc) := by
  unfold prepareEdgeToPCNode at h
  split at h
  · cases h
  · rename_i executed hexecuted
    have hlast : ∀ i, s.latestNonOSInst.1 = some i → i = executed := fun i hi => by
      rw [hi] at hexecuted
      exact Option.some.inj hexecuted
    split at h
    · rename_i hnode
      cases h
      refine ⟨.refl fg, fun i _ hpc => ?_⟩
      rw [Option.isNone_iff_eq_none.1 hnode] at hpc
      cases hpc
    · split at h
      · rename_i hfind
        cases h
        refine ⟨.refl fg, fun i hi _ => ?_⟩
        rw [hlast i hi]
        exact FlowGraph.find_runtimeOutEdges_iff.1 hfind
      · split at h
        · cases h
          have htype : FlowGraph.isDynamic (if executed.baseR = 7 then .ret else .jmp) = true := by
            split <;> rfl
          refine ⟨FlowGraph.newEdge_extends _ _ none htype, fun i hi _ => ?_⟩
          rw [hlast i hi]
          exact FlowGraph.hasEdge_newEdge none (FlowGraph.isRuntime_of_isDynamic htype)
        · split at h
          · cases h
            refine ⟨FlowGraph.newEdge_extends _ _ none rfl, fun i hi _ => ?_⟩
            rw [hlast i hi]
            exact FlowGraph.hasEdge_newEdge none rfl
          · cases h

theorem prepareEdgeToPCNode_error (h : prepareEdgeToPCNode fg s = .error err)
    (herr : err.isMissingEdge = true) :
    ∃ i, s.latestNonOSInst.1 = some i ∧ (fg.getNodeByAddr s.pc).isSome ∧
      ¬ fg.HasEdge (some i.addr) (some s.pc) ∧ i.instID ≠ .JMP ∧ i.instID ≠ .JSRR := by
  unfold prepareEdgeToPCNode at h
  split at h
  · cases h
    cases herr
  · rename_i executed hexecuted
    split at h
    · cases h
    · rename_i hnode
      split at h
      · cases h
      · rename_i hfind
        split at h
        · cases h
        · rename_i hjmp
          split at h
          · cases h
          · rename_i hjsrr
            have hpc : (fg.getNodeByAddr s.pc).isSome := by
              rw [Option.isSome_iff_ne_none]
              simpa using hnode
            exact ⟨executed, hexecuted, hpc, fun he => hfind (FlowGraph.find_runtimeOutEdges_iff.2 he),
              hjmp, hjsrr⟩

/-- The ways in which a state is recorded in the graph. -/
inductive Updates (fg : FlowGraph) (s : State) : FlowGraph → Prop where
  | broken (hstatus : s.status = .broken) : Updates fg s fg
  | nothing (hstatus : s.status ≠ .broken) (hjust : fg.getJustCoveredEdge s = .ok none) :
      Updates fg s fg
  | goesOn {k : Nat} {e : Edge} {fg' : FlowGraph} (hstatus : s.status = .normal)
      (hjust : fg.getJustCoveredEdge s = .ok (some k)) (hget : fg.edges[k]? = some e)
      (hprepare : prepareEdgeToPCNode (fg.cover k e) s = .ok fg') : Updates fg s fg'
  | halts {k : Nat} {e : Edge} (hstatus : s.status = .halted)
      (hjust : fg.getJustCoveredEdge s = .ok (some k)) (hget : fg.edges[k]? = some e)
      (hinto : edgeToInstantHalt (fg.cover k e) s = none) : Updates fg s (fg.cover k e)
  | haltsInstantly {k k' : Nat} {e e' : Edge} (hstatus : s.status = .halted)
      (hjust : fg.getJustCoveredEdge s = .ok (some k)) (hget : fg.edges[k]? = some e)
      (hinto : edgeToInstantHalt (fg.cover k e) s = some k')
      (hget' : (fg.cover k e).edges[k']? = some e') :
      Updates fg s ((fg.cover k e).cover k' e')

theorem updateGraphAndCoverage_updates (h : updateGraphAndCoverage fg s = .ok (fg', s')) :
    Updates fg s fg' := by
  unfold updateGraphAndCoverage at h
  split at h
  · rename_i hstatus
    cases h
    exact .broken hstatus
  · rename_i hstatus
    obtain ⟨coveredEdge, hjust, h⟩ := Except.bind_eq_ok_iff.1 h
    split at h
    · cases h
      exact .nothing hstatus hjust
    · obtain ⟨⟨fg₁, s₁⟩, happend, h⟩ := Except.bind_eq_ok_iff.1 h
      obtain ⟨e, hget, rfl⟩ := appendEdgeCoverage_fg happend
      obtain ⟨covered, path, rfl⟩ := appendEdgeCoverage_eq_ok happend
      dsimp only at h
      split at h
      · rename_i hhalted
        split at h
        · rename_i hinto
          cases h
          exact .halts hhalted hjust hget hinto
        · rename_i k' hinto
          obtain ⟨e', hget', rfl⟩ := appendEdgeCoverage_fg h
          exact .haltsInstantly hhalted hjust hget hinto hget'
      · rename_i hhalted
        obtain ⟨fg₂, hprepare, h⟩ := Except.bind_eq_ok_iff.1 h
        cases h
        have hnormal : s.status = .normal := by
          cases hs : s.status with
          | normal => rfl
          | halted => exact absurd hs hhalted
          | broken => exact absurd hs hstatus
        exact .goesOn hnormal hjust hget hprepare

theorem Updates.grows (h : Updates fg s fg') : fg.Grows fg' := by
  cases h with
  | broken => exact .refl fg
  | nothing => exact .refl fg
  | goesOn _ _ hget hprepare =>
      exact (FlowGraph.cover_grows hget).trans (prepareEdgeToPCNode_spec hprepare).1.grows
  | halts _ _ hget => exact FlowGraph.cover_grows hget
  | haltsInstantly _ _ hget _ hget' =>
      exact (FlowGraph.cover_grows hget).trans (FlowGraph.cover_grows hget')

end CoverageTracker

end Klc3
