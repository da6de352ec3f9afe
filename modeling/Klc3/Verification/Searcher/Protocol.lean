import Klc3.Model.MainLoop
import Klc3.Verification.FlowGraph.Edges
import Klc3.Verification.Searcher.Basic

/-!
# Searchers under the protocol of the main loop

A searcher is used by turns: a state is fetched and stepped, and all of its results are
pushed. Over every such sequence of calls no state is lost, copied or handed out twice.
-/

namespace Klc3

open List

/-! ## One push through the pruning searcher -/

/-- An edge out of a user instruction that stands for a trap belongs to a `TRAP`. -/
def FlowGraph.TrapsAt (fg : FlowGraph) (s : State) : Prop :=
  ∀ inst, s.latestNonOSInst.1 = some inst →
    ∀ e ∈ fg.runtimeOutEdges inst.addr, e.2.type = .trapVirtual → inst.instID = .TRAP

instance (fg : FlowGraph) (s : State) : Decidable (fg.TrapsAt s) :=
  decidable_of_iff (∀ inst ∈ s.latestNonOSInst.1,
    ∀ e ∈ fg.runtimeOutEdges inst.addr, e.2.type = .trapVirtual → inst.instID = .TRAP) Iff.rfl

namespace PruningSearcher

variable {ps ps' ps'' : PruningSearcher} {fa : FlowAnalysis} {fg : FlowGraph} {s s' s'' : State}
  {onEdge : Nat}

/-- What the loop bookkeeping leaves alone. -/
structure LoopFrame (ps : PruningSearcher) (s : State) (ps' : PruningSearcher) (s' : State) :
    Prop where
  internalSearcher : ps'.internalSearcher = ps.internalSearcher
  postponedStates : ps'.postponedStates = ps.postponedStates
  uid : s'.uid = s.uid
  status : s'.status = s.status
  latestNonOSInst : s'.latestNonOSInst = s.latestNonOSInst

theorem LoopFrame.refl (ps : PruningSearcher) (s : State) : LoopFrame ps s ps s :=
  ⟨rfl, rfl, rfl, rfl, rfl⟩

theorem LoopFrame.trans (h : LoopFrame ps s ps' s') (h' : LoopFrame ps' s' ps'' s'') :
    LoopFrame ps s ps'' s'' :=
  ⟨h'.internalSearcher.trans h.internalSearcher, h'.postponedStates.trans h.postponedStates,
    h'.uid.trans h.uid, h'.status.trans h.status, h'.latestNonOSInst.trans h.latestNonOSInst⟩

/-- Only the loop stack and the two flags of a state ever change. -/
theorem LoopFrame.withLoops (ps : PruningSearcher) (s : State) (layers : List LoopLayer)
    (covered avoid : Bool) :
    LoopFrame ps s ps { s with
      loopStack := layers, coveredNewSegment := covered, avoidLoopReductionPostpone := avoid } :=
  ⟨rfl, rfl, rfl, rfl, rfl⟩

theorem appendLoopPath_frame (h : ps.appendLoopPath fg s onEdge = .ok s') :
    LoopFrame ps s ps s' := by
  unfold appendLoopPath at h
  split at h
  · cases h
    exact .refl ps s
  · obtain ⟨color, -, h⟩ := Except.bind_eq_ok_iff.1 h
    split at h
    · cases h
      exact .refl ps s
    · obtain ⟨edge, -, h⟩ := Except.bind_eq_ok_iff.1 h
      obtain ⟨layer, -, h⟩ := Except.bind_eq_ok_iff.1 h
      cases h
      exact .withLoops ps s _ _ _

theorem coverSegment_frame (ps : PruningSearcher) (s : State) (loop : Nat)
    (cover : LoopInfo → LoopInfo × Bool) :
    LoopFrame ps s (ps.coverSegment s loop cover).1 (ps.coverSegment s loop cover).2 := by
  unfold coverSegment
  split
  · exact .refl ps s
  · exact ⟨rfl, rfl, rfl, rfl, rfl⟩

theorem extendUpper_frame {exitLoop : Loop} {lastNode : Option Word}
    (h : ps.extendUpper fa s exitLoop lastNode = .ok s') : LoopFrame ps s ps s' := by
  unfold extendUpper at h
  split at h
  · cases h
    exact .refl ps s
  · obtain ⟨color, -, h⟩ := Except.bind_eq_ok_iff.1 h
    dsimp only at h
    split at h
    · cases h
      exact .refl ps s
    · split at h
      · cases h
      · split at h
        · cases h
        · obtain ⟨layer, -, h⟩ := Except.bind_eq_ok_iff.1 h
          cases h
          exact .withLoops ps s _ _ _

theorem testLoopExit_frame {n : Nat}
    (h : testLoopExitAndUpdateH2XCoverage n ps fa s onEdge = .ok (ps', s')) :
    LoopFrame ps s ps' s' := by
  induction n generalizing ps s with
  | zero =>
      cases h
      exact .refl _ _
  | succ n ih =>
      unfold testLoopExitAndUpdateH2XCoverage at h
      split at h
      · cases h
        exact .refl _ _
      · rename_i top outer _
        obtain ⟨inside, -, h⟩ := Except.bind_eq_ok_iff.1 h
        dsimp only at h
        split at h
        · cases h
          exact .refl _ _
        · obtain ⟨exitLoop, -, h⟩ := Except.bind_eq_ok_iff.1 h
          split at h
          · cases h
          · have hcover := coverSegment_frame ps s top.loop (coverH2X top.loopPathFromEntry)
            generalize ps.coverSegment s top.loop (coverH2X top.loopPathFromEntry) = r at h hcover
            obtain ⟨e, -, h⟩ := Except.bind_eq_ok_iff.1 h
            obtain ⟨s₁, hupper, h⟩ := Except.bind_eq_ok_iff.1 h
            have hpop : LoopFrame r.1 r.2 r.1 { r.2 with loopStack := outer } :=
              ⟨rfl, rfl, rfl, rfl, rfl⟩
            exact hcover.trans (hpop.trans ((extendUpper_frame hupper).trans (ih h)))

theorem enterNewLoopIfAny_frame (h : ps.enterNewLoopIfAny fg s onEdge = .ok s') :
    LoopFrame ps s ps s' := by
  obtain ⟨e, -, h⟩ := Except.bind_eq_ok_iff.1 h
  obtain ⟨color, -, h⟩ := Except.bind_eq_ok_iff.1 h
  obtain ⟨candidates, -, h⟩ := Except.bind_eq_ok_iff.1 h
  dsimp only at h
  split at h
  · cases h
    exact .refl ps s
  · obtain ⟨l, -, h⟩ := Except.bind_eq_ok_iff.1 h
    split at h
    · cases h
    · cases h
      exact .withLoops ps s _ _ _

theorem testH2HAndUpdate_frame (h : ps.testH2HAndUpdate fg s onEdge = .ok (ps', s')) :
    LoopFrame ps s ps' s' := by
  unfold testH2HAndUpdate at h
  split at h
  · cases h
    exact .refl ps s
  · rename_i top outer _
    obtain ⟨e, -, h⟩ := Except.bind_eq_ok_iff.1 h
    obtain ⟨l, -, h⟩ := Except.bind_eq_ok_iff.1 h
    dsimp only at h
    split at h
    · cases h
      exact .refl ps s
    · split at h
      · cases h
      · cases h
        exact (coverSegment_frame ps s top.loop (coverH2H top.loopPathFromEntry)).trans
          (.withLoops _ _ _ _ _)

theorem updateLoops_frame (h : ps.updateLoops fa s onEdge = .ok (ps', s')) :
    LoopFrame ps s ps' s' := by
  obtain ⟨s₁, happend, h⟩ := Except.bind_eq_ok_iff.1 h
  obtain ⟨⟨ps₂, s₂⟩, hexit, h⟩ := Except.bind_eq_ok_iff.1 h
  obtain ⟨s₃, henter, h⟩ := Except.bind_eq_ok_iff.1 h
  exact (appendLoopPath_frame happend).trans ((testLoopExit_frame hexit).trans
    ((enterNewLoopIfAny_frame henter).trans (testH2HAndUpdate_frame h)))

/-- A state that has halted is just behind a `TRAP` when it has covered an edge. -/
theorem getJustCoveredEdge_halted {edge : Nat} (htraps : fg.TrapsAt s)
    (hstatus : s.status = .halted) (h : fg.getJustCoveredEdge s = .ok (some edge)) :
    s.latestNonOSInst.1.map InstValue.instID = some .TRAP := by
  unfold FlowGraph.getJustCoveredEdge at h
  rw [hstatus] at h
  dsimp only at h
  split at h
  · cases h
  · rename_i inst hinst
    obtain ⟨e, he, -⟩ := Option.map_eq_some_iff.1 (Except.pure_eq_ok_iff.1 h)
    have htype := find?_some he
    simp only [decide_eq_true_eq] at htype
    rw [hinst, Option.map_some, htraps inst hinst e (mem_of_find?_eq_some he) htype.1]

/-- One state goes through or is postponed, the latter only when it is `NORMAL`. -/
theorem classify_spec {through : Bool} (htraps : fa.fg.TrapsAt s)
    (h : ps.classify fa s = .ok (ps', s', through)) :
    ps'.internalSearcher = ps.internalSearcher ∧ s'.uid = s.uid ∧ s'.status = s.status ∧
    ps'.postponedStates = ps.postponedStates ++ (if through then [] else [s']) ∧
    (through = false → s.status = .normal) := by
  unfold classify at h
  split at h
  · cases h
    simp
  rename_i hbypass
  obtain ⟨covered, hcovered, h⟩ := Except.bind_eq_ok_iff.1 h
  dsimp only at h
  split at h
  · cases h
    simp
  · split at h
    · cases h
      simp
    · obtain ⟨⟨ps₁, s₁⟩, hloops, h⟩ := Except.bind_eq_ok_iff.1 h
      have hframe := updateLoops_frame hloops
      have hthrough : ps₁.postponedStates = ps.postponedStates ++ [] := by
        rw [append_nil]
        exact hframe.postponedStates
      dsimp only at h
      split at h
      · cases h
        exact ⟨hframe.internalSearcher, hframe.uid, hframe.status, hthrough, by simp⟩
      · split at h
        · rename_i hbr
          split at h
          · cases h
            exact ⟨hframe.internalSearcher, hframe.uid, hframe.status, hthrough, by simp⟩
          · cases h
            refine ⟨hframe.internalSearcher, hframe.uid, hframe.status, ?_, fun _ => ?_⟩
            · simp [hframe.postponedStates]
            · cases hstatus : s.status with
              | normal => rfl
              | broken => exact absurd (.inl hstatus) hbypass
              | halted =>
                  have htrap := getJustCoveredEdge_halted htraps hstatus hcovered
                  rw [hframe.latestNonOSInst, htrap] at hbr
                  cases hbr
        · cases h
          exact ⟨hframe.internalSearcher, hframe.uid, hframe.status, hthrough, by simp⟩

/-- All pushed states go through or are postponed. The lists are compared by uid, since
the bookkeeping changes flags of the states. -/
theorem classifyAll_spec {states through : List State} (htraps : ∀ s ∈ states, fa.fg.TrapsAt s)
    (h : ps.classifyAll fa states = .ok (ps', through)) :
    ps'.internalSearcher = ps.internalSearcher ∧
    ∃ postponed, ps'.postponedStates = ps.postponedStates ++ postponed ∧
      (∀ s ∈ postponed, s.status = .normal) ∧
      (through.map fun s => (s.uid, s.status)) ++ (postponed.map fun s => (s.uid, s.status)) ~
        states.map fun s => (s.uid, s.status) := by
  induction states generalizing ps through with
  | nil =>
      cases h
      exact ⟨rfl, [], by simp⟩
  | cons s rest ih =>
      obtain ⟨⟨ps₁, s₁, goes⟩, hclassify, h⟩ := Except.bind_eq_ok_iff.1 h
      obtain ⟨⟨ps₂, others⟩, hrest, h⟩ := Except.bind_eq_ok_iff.1 h
      cases h
      obtain ⟨hinternal, huid, hstatus, hpostponed, hnormal⟩ :=
        classify_spec (htraps s mem_cons_self) hclassify
      obtain ⟨hinternal', postponed, hpostponed', hnormal', hperm⟩ :=
        ih (fun t ht => htraps t (mem_cons_of_mem _ ht)) hrest
      refine ⟨hinternal'.trans hinternal, ?_⟩
      cases goes with
      | true =>
          refine ⟨postponed, by simp [hpostponed', hpostponed], hnormal', ?_⟩
          simpa [huid, hstatus] using hperm
      | false =>
          refine ⟨s₁ :: postponed, by simp [hpostponed', hpostponed], ?_, ?_⟩
          · intro t ht
            rcases mem_cons.1 ht with rfl | ht
            · rw [hstatus]
              exact hnormal rfl
            · exact hnormal' t ht
          · simp only [Bool.false_eq_true, if_false, map_cons, huid, hstatus]
            exact perm_middle.trans (hperm.cons _)

end PruningSearcher

/-! ## Any searcher -/

/-- A state object and its status. -/
def State.key (s : State) : Nat × Status := (s.uid, s.status)

theorem map_key_filter_normal (states : List State) :
    (states.filter fun s => s.status = .normal).map State.key =
      (states.map State.key).filter fun k => k.2 = .normal := by
  rw [filter_map]
  rfl

theorem map_key_filter_completed (states : List State) :
    (states.filter fun s => s.status ≠ .normal).map State.key =
      (states.map State.key).filter fun k => k.2 ≠ .normal := by
  rw [filter_map]
  rfl

theorem map_uid_eq (states : List State) :
    states.map State.uid = (states.map State.key).map Prod.fst := by
  rw [map_map]
  rfl

/-- States that are among others with different uids have different uids. -/
theorem nodup_uids_of_keys {part rest states : List State} (hnodup : (states.map State.uid).Nodup)
    (hperm : part.map State.key ++ rest.map State.key ~ states.map State.key) :
    (part.map State.uid).Nodup := by
  have hall : ((part.map State.key ++ rest.map State.key).map Prod.fst).Nodup := by
    rw [(hperm.map Prod.fst).nodup_iff, ← map_uid_eq]
    exact hnodup
  rw [map_append, ← map_uid_eq] at hall
  exact hall.of_append_left

/-- Whether a searcher is a `RandomPickingSearcher`. -/
def BasicSearcher.isRandom : BasicSearcher → Bool
  | randomPicking _ _ _ => true
  | _ => false

theorem BasicSearcher.picked_eq_none {b : BasicSearcher} (h : b.isRandom = false) :
    b.picked = none := by
  cases b with
  | randomPicking _ _ _ => cases h
  | filo _ => rfl
  | simpleFIFO _ _ => rfl

namespace AnySearcher

variable {σ σ' : AnySearcher} {s : State} {states : List State} {rand : Nat} {fa : FlowAnalysis}

/-- The `NORMAL` states in all places. -/
def held (σ : AnySearcher) : List State :=
  σ.internal.normalStates ++ σ.postponedStates

/-- The `NORMAL` states in all places but `pickedState`. -/
def heldElsewhere (σ : AnySearcher) : List State :=
  σ.internal.others ++ σ.postponedStates

/-- All pushed states would be postponed, so that the internal `RandomPickingSearcher` is
not told about the push. -/
def PostponesAll (fa : FlowAnalysis) (states : List State) : AnySearcher → Prop
  | basic _ => False
  | pruning ps => ps.internalSearcher.isRandom = true ∧
      ∃ ps', ps.classifyAll fa states = .ok (ps', [])

theorem not_postponesAll (h : σ.internal.isRandom = false) : ¬ σ.PostponesAll fa states := by
  intro hall
  cases σ with
  | basic b => exact hall
  | pruning ps => exact Bool.false_ne_true (h.symm.trans hall.1)

/-- A fetch takes one of the held states out. -/
theorem fetch_spec (h : σ.fetch rand = some (s, σ')) :
    ∃ t : State, t.key = s.key ∧ σ.held ~ t :: σ'.heldElsewhere ∧
      (∀ p, σ'.internal.picked = some p → p.uid = s.uid) ∧
      σ'.getCompletedStates = σ.getCompletedStates := by
  have hpicked : ∀ {b : BasicSearcher} {t : State}, (b.picked = none ∨ b.picked = some t) →
      ∀ p, b.picked = some p → p.uid = t.uid := by
    rintro b t (hnone | hsome) p hp
    · rw [hnone] at hp
      cases hp
    · rw [hsome] at hp
      cases hp
      rfl
  cases σ with
  | basic b =>
      obtain ⟨⟨t, b'⟩, hfetch, h⟩ := Option.map_eq_some_iff.1 h
      cases h
      obtain ⟨hperm, hpick, hdone⟩ := BasicSearcher.fetch_spec hfetch
      exact ⟨_, rfl, hperm.append_right [], hpicked hpick, hdone⟩
  | pruning ps =>
      obtain ⟨⟨t, ps'⟩, hfetch, h⟩ := Option.map_eq_some_iff.1 h
      cases h
      unfold PruningSearcher.fetch at hfetch
      split at hfetch
      · rename_i b' hinner
        cases hfetch
        obtain ⟨hperm, hpick, hdone⟩ := BasicSearcher.fetch_spec hinner
        exact ⟨_, rfl, hperm.append_right ps.postponedStates, hpicked hpick, hdone⟩
      · rename_i hinner
        have hnil := BasicSearcher.fetch_eq_none hinner
        have hparts := hnil
        rw [BasicSearcher.normalStates_eq, append_eq_nil_iff] at hparts
        split at hfetch
        · cases hfetch
        · obtain ⟨⟨t, rest⟩, hpop, hfetch⟩ := Option.map_eq_some_iff.1 hfetch
          cases hfetch
          refine ⟨t, rfl, ?_, ?_, rfl⟩
          · simp only [held, heldElsewhere, internal, postponedStates, hnil, hparts.1, nil_append]
            exact BasicSearcher.swapPop_perm hpop
          · intro p hp
            have hnone := hparts.2
            rw [show ps.internalSearcher.picked = some p from hp] at hnone
            cases hnone

/-- A push adds the `NORMAL` states to the held ones and the others to the completed
ones. A remembered state is forgotten. -/
theorem push_spec (hnodup : (states.map State.uid).Nodup) (htraps : ∀ s ∈ states, fa.fg.TrapsAt s)
    (hall : ¬ σ.PostponesAll fa states) (h : σ.push fa states = .ok σ') :
    σ'.held.map State.key ~ σ.heldElsewhere.map State.key ++
      (states.filter fun s => s.status = .normal).map State.key ∧
    σ'.getCompletedStates.map State.key ~ σ.getCompletedStates.map State.key ++
      (states.filter fun s => s.status ≠ .normal).map State.key := by
  cases σ with
  | basic b =>
      cases h
      obtain ⟨hnormal, hdone⟩ := b.push_spec hnodup
      refine ⟨?_, ?_⟩
      · simpa [held, heldElsewhere, internal, postponedStates] using hnormal.map State.key
      · simp [getCompletedStates, internal, hdone]
  | pruning ps =>
      obtain ⟨ps₂, hpush, h⟩ := Except.bind_eq_ok_iff.1 h
      cases h
      obtain ⟨⟨ps₁, through⟩, hclassify, hpush⟩ := Except.bind_eq_ok_iff.1 hpush
      obtain ⟨hinternal, postponed, hpostponed, hnormal, hperm⟩ :=
        PruningSearcher.classifyAll_spec htraps hclassify
      change through.map State.key ++ postponed.map State.key ~ states.map State.key at hperm
      have hlate : (postponed.map State.key).filter (fun k => k.2 = .normal) =
          postponed.map State.key := by
        rw [← map_key_filter_normal, filter_eq_self.2]
        simpa using hnormal
      have hlate' : (postponed.map State.key).filter (fun k => k.2 ≠ .normal) = [] := by
        rw [← map_key_filter_completed, map_eq_nil_iff, filter_eq_nil_iff]
        simpa using hnormal
      have hin : (through.filter fun s => s.status = .normal).map State.key ++
          postponed.map State.key ~
          (states.filter fun s => s.status = .normal).map State.key := by
        rw [map_key_filter_normal, map_key_filter_normal, ← hlate, ← filter_append]
        exact hperm.filter _
      have hout : (through.filter fun s => s.status ≠ .normal).map State.key ~
          (states.filter fun s => s.status ≠ .normal).map State.key := by
        have hfilter := hperm.filter fun k => k.2 ≠ .normal
        rw [filter_append, hlate', append_nil] at hfilter
        rwa [map_key_filter_completed, map_key_filter_completed]
      have hthrough : (through.map State.uid).Nodup := nodup_uids_of_keys hnodup hperm
      -- the internal searcher as it is after the push, told about it or not
      obtain ⟨b, hps₂, hheld, hdone⟩ : ∃ b, ps₂ = { ps₁ with internalSearcher := b } ∧
          b.normalStates.map State.key ~ ps.internalSearcher.others.map State.key ++
            (through.filter fun s => s.status = .normal).map State.key ∧
          b.completedStates.map State.key = ps.internalSearcher.completedStates.map State.key ++
            (through.filter fun s => s.status ≠ .normal).map State.key := by
        dsimp only at hpush
        split at hpush
        · rename_i hempty
          cases hpush
          rw [List.isEmpty_iff] at hempty
          subst hempty
          have hpicked : ps.internalSearcher.picked = none := by
            refine BasicSearcher.picked_eq_none ?_
            cases hrandom : ps.internalSearcher.isRandom with
            | false => rfl
            | true => exact absurd ⟨hrandom, _, hclassify⟩ hall
          refine ⟨ps₂.internalSearcher, rfl, ?_, by simp [hinternal]⟩
          rw [hinternal, BasicSearcher.normalStates_eq, hpicked]
          simp
        · cases hpush
          obtain ⟨hnormal', hdone'⟩ := ps.internalSearcher.push_spec hthrough
          refine ⟨_, rfl, ?_, ?_⟩
          · rw [hinternal, ← map_append]
            exact hnormal'.map State.key
          · rw [hinternal, hdone', map_append]
      subst hps₂
      simp only [held, heldElsewhere, internal, postponedStates, getCompletedStates, map_append,
        hpostponed]
      refine ⟨?_, ?_⟩
      · calc b.normalStates.map State.key ++
              (ps.postponedStates.map State.key ++ postponed.map State.key)
            ~ ps.internalSearcher.others.map State.key ++
                (through.filter fun s => s.status = .normal).map State.key ++
                (ps.postponedStates.map State.key ++ postponed.map State.key) :=
              hheld.append_right _
          _ ~ ps.internalSearcher.others.map State.key ++ (ps.postponedStates.map State.key ++
                ((through.filter fun s => s.status = .normal).map State.key ++
                  postponed.map State.key)) := by
              rw [append_assoc]
              exact (perm_append_comm_assoc _ _ _).append_left _
          _ ~ ps.internalSearcher.others.map State.key ++ (ps.postponedStates.map State.key ++
                (states.filter fun s => s.status = .normal).map State.key) :=
              (hin.append_left _).append_left _
          _ ~ ps.internalSearcher.others.map State.key ++ ps.postponedStates.map State.key ++
                (states.filter fun s => s.status = .normal).map State.key := by
              rw [append_assoc]
      · rw [hdone]
        exact hout.append_left _

@[simp] theorem setLevel_held (σ : AnySearcher) (level : Int) :
    (σ.setLevel level).internal = σ.internal ∧
      (σ.setLevel level).postponedStates = σ.postponedStates := by
  cases σ <;> exact ⟨rfl, rfl⟩

theorem eraseCompletedStates_spec (h : σ.eraseCompletedStates s = .ok σ') :
    σ'.internal = σ.internal.eraseCompleted s ∧ σ'.postponedStates = σ.postponedStates := by
  unfold eraseCompletedStates at h
  split at h
  · cases h
  · cases σ with
    | basic b =>
        cases h
        exact ⟨rfl, rfl⟩
    | pruning ps =>
        cases h
        exact ⟨rfl, rfl⟩

end AnySearcher

/-! ## Sequences of calls -/

/-- The calls of the main loop. A fetch comes with the random number it draws, a push
with the flow graph of that moment. -/
inductive Call where
  | setLevel (level : Int)
  | fetch (rand : Nat)
  | push (fa : FlowAnalysis) (states : List State)
  | erase (s : State)

/-- A searcher in use, with what its callers may expect of it: the state that is being
executed, the `NORMAL` states pushed and not fetched since, the completed states pushed
and not erased, and all states ever pushed. -/
structure Usage where
  searcher : AnySearcher
  executing : Option State
  pending : List Nat
  completed : List Nat
  seen : List Nat

namespace Usage

variable {u u' : Usage} {σ : AnySearcher} {c : Call}

/-- A searcher that was just constructed. -/
def new (σ : AnySearcher) : Usage := ⟨σ, none, [], [], []⟩

def call (u : Usage) : Call → Except Abort Usage
  | .setLevel level => pure { u with searcher := u.searcher.setLevel level }
  | .fetch rand =>
    match u.searcher.fetch rand with
    | none => pure u
    | some (s, σ) =>
      pure { u with searcher := σ, executing := some s, pending := u.pending.erase s.uid }
  | .push fa states => do
    let σ ← u.searcher.push fa states
    return {
      searcher := σ
      executing := none
      pending := u.pending ++ (states.filter fun s => s.status = .normal).map State.uid
      completed := u.completed ++ (states.filter fun s => s.status ≠ .normal).map State.uid
      seen := u.seen ++ states.map State.uid }
  | .erase s => do
    let σ ← u.searcher.eraseCompletedStates s
    return { u with searcher := σ, completed := u.completed.filter (· ≠ s.uid) }

theorem call_fetch {rand : Nat} {s : State} (h : u.searcher.fetch rand = some (s, σ)) :
    u.call (.fetch rand) = .ok { u with
      searcher := σ, executing := some s, pending := u.pending.erase s.uid } := by
  unfold call
  dsimp only
  rw [h]
  rfl

/-- The protocol: the first states are pushed, and from then on a state is fetched when
none is being executed, and its results are pushed, the state itself or new ones. -/
def Allows (u : Usage) : Call → Prop
  | .setLevel _ => True
  | .fetch _ => u.executing = none
  | .push fa states => (u.executing.isSome ∨ u.seen = []) ∧ (states.map State.uid).Nodup ∧
      (∀ t ∈ states, u.executing.map State.uid = some t.uid ∨ t.uid ∉ u.seen) ∧
      ∀ t ∈ states, fa.fg.TrapsAt t
  | .erase s => s ∈ u.searcher.getCompletedStates

instance (u : Usage) (fa : FlowAnalysis) (states : List State) :
    Decidable (u.Allows (.push fa states)) :=
  inferInstanceAs (Decidable ((_ ∨ _) ∧ _ ∧ _ ∧ _))

/-- A push of which the internal `RandomPickingSearcher` hears nothing. -/
def PostponesAll (u : Usage) : Call → Prop
  | .push fa states => u.searcher.PostponesAll fa states
  | _ => False

/-- One call within the protocol. -/
def Next (u u' : Usage) : Prop :=
  ∃ c, u.Allows c ∧ ¬ u.PostponesAll c ∧ u.call c = .ok u'

/-- The states that wait to be fetched. A state that is being executed does not, even
when it is remembered. -/
def waiting (u : Usage) : List State :=
  if u.executing.isSome then u.searcher.heldElsewhere else u.searcher.held

/-- The state that is being executed. -/
def running (u : Usage) : List Nat :=
  (u.executing.map State.uid).toList

structure Inv (u : Usage) : Prop where
  waiting : u.waiting.map State.uid ~ u.pending
  normal : ∀ s ∈ u.waiting, s.status = .normal
  picked : ∀ s p, u.executing = some s → u.searcher.internal.picked = some p → p.uid = s.uid
  done : u.searcher.getCompletedStates.map State.uid ~ u.completed
  status : ∀ s ∈ u.searcher.getCompletedStates, s.status ≠ .normal
  nodup : (u.running ++ (u.pending ++ u.completed)).Nodup
  seen : ∀ id ∈ u.running ++ (u.pending ++ u.completed), id ∈ u.seen

theorem Inv.new (hheld : σ.held = []) (hdone : σ.getCompletedStates = []) : (Usage.new σ).Inv where
  waiting := by simp [Usage.waiting, Usage.new, hheld]
  normal := by simp [Usage.waiting, Usage.new, hheld]
  picked := by simp [Usage.new]
  done := by simp [Usage.new, hdone]
  status := by simp [Usage.new, hdone]
  nodup := by simp [Usage.new, running]
  seen := by simp [Usage.new, running]

theorem Inv.setLevel (h : u.Inv) (level : Int) :
    { u with searcher := u.searcher.setLevel level }.Inv := by
  obtain ⟨hinternal, hpostponed⟩ := u.searcher.setLevel_held level
  have hwaiting : Usage.waiting { u with searcher := u.searcher.setLevel level } = u.waiting := by
    simp only [Usage.waiting, AnySearcher.held, AnySearcher.heldElsewhere, hinternal, hpostponed]
  have hdone : (u.searcher.setLevel level).getCompletedStates = u.searcher.getCompletedStates := by
    simp only [AnySearcher.getCompletedStates, hinternal]
  exact ⟨hwaiting ▸ h.waiting, hwaiting ▸ h.normal, by simpa only [hinternal] using h.picked,
    hdone ▸ h.done, hdone ▸ h.status, h.nodup, h.seen⟩

/-- A fetched state was waiting. -/
theorem Inv.fetched {rand : Nat} {s : State} (h : u.Inv) (hidle : u.executing = none)
    (hfetch : u.searcher.fetch rand = some (s, σ)) :
    s.uid ∈ u.pending ∧ s.status = .normal ∧
      { u with searcher := σ, executing := some s, pending := u.pending.erase s.uid }.Inv := by
  obtain ⟨t, hkey, hperm, hpicked, hdone⟩ := AnySearcher.fetch_spec hfetch
  have huid : t.uid = s.uid := congrArg Prod.fst hkey
  have hstatus : t.status = s.status := congrArg Prod.snd hkey
  have hwaiting : u.waiting = u.searcher.held := by simp [Usage.waiting, hidle]
  have hpending : u.pending ~ s.uid :: σ.heldElsewhere.map State.uid := by
    have hmap := (hperm.map State.uid).symm.trans (hwaiting ▸ h.waiting)
    rw [map_cons, huid] at hmap
    exact hmap.symm
  have hmem : s.uid ∈ u.pending := hpending.symm.subset mem_cons_self
  have hrunning : u.running = [] := by simp [running, hidle]
  have hlist : s.uid :: (u.pending.erase s.uid ++ u.completed) ~ u.pending ++ u.completed :=
    (perm_cons_erase hmem).symm.append_right u.completed
  refine ⟨hmem, ?_, ⟨?_, ?_, ?_, ?_, ?_, ?_, ?_⟩⟩
  · rw [← hstatus]
    exact h.normal t (hwaiting ▸ hperm.symm.subset mem_cons_self)
  · have herase := hpending.erase s.uid
    rw [erase_cons_head] at herase
    exact herase.symm
  · intro t' ht'
    exact h.normal t' (hwaiting ▸ hperm.symm.subset (mem_cons_of_mem t ht'))
  · rintro s' p ⟨⟩ hp
    exact hpicked p hp
  · rw [hdone]
    exact h.done
  · rw [hdone]
    exact h.status
  · have hnodup := h.nodup
    rw [hrunning, nil_append] at hnodup
    exact hlist.nodup_iff.2 hnodup
  · intro id hid
    refine h.seen id ?_
    rw [hrunning, nil_append]
    exact hlist.subset hid

/-- The uids after a push: those that were there, and those of the pushed states. -/
theorem pushed_perm (u : Usage) (states : List State) :
    (u.pending ++ (states.filter fun s => s.status = .normal).map State.uid) ++
      (u.completed ++ (states.filter fun s => s.status ≠ .normal).map State.uid) ~
    (u.pending ++ u.completed) ++ states.map State.uid := by
  have hsplit : states.filter (fun s => s.status = .normal) ++
      states.filter (fun s => s.status ≠ .normal) ~ states := by
    have := filter_append_perm (fun s : State => decide (s.status = .normal)) states
    simpa using this
  have hmap := hsplit.map State.uid
  rw [map_append] at hmap
  rw [append_assoc, append_assoc]
  refine Perm.append_left u.pending ((perm_append_comm_assoc _ _ _).trans ?_)
  exact hmap.append_left u.completed

theorem Inv.push {fa : FlowAnalysis} {states : List State} (h : u.Inv)
    (hallows : u.Allows (.push fa states)) (hall : ¬ u.PostponesAll (.push fa states))
    (hcall : u.call (.push fa states) = .ok u') : u'.Inv := by
  obtain ⟨hturn, hnodup, hfresh, htraps⟩ := hallows
  obtain ⟨σ, hpush, hcall⟩ := Except.bind_eq_ok_iff.1 hcall
  cases hcall
  obtain ⟨hheld, hdone⟩ := AnySearcher.push_spec hnodup htraps hall hpush
  -- before the first push nothing is held at all
  have helse : u.searcher.heldElsewhere = u.waiting := by
    unfold Usage.waiting
    split
    · rfl
    · rename_i hidle
      have hseen := hturn.resolve_left hidle
      have hpending : u.pending = [] := by
        cases hp : u.pending with
        | nil => rfl
        | cons id rest =>
            have hin := h.seen id (by simp [hp])
            rw [hseen] at hin
            cases hin
      have hnil : u.waiting.map State.uid = [] := by
        have hperm := h.waiting
        rw [hpending] at hperm
        exact hperm.eq_nil
      simp only [Usage.waiting, hidle, if_false, Bool.false_eq_true, map_eq_nil_iff,
        AnySearcher.held, append_eq_nil_iff, BasicSearcher.normalStates_eq] at hnil
      simp [AnySearcher.heldElsewhere, AnySearcher.held, BasicSearcher.normalStates_eq, hnil]
  have hnew : ∀ id ∈ states.map State.uid, id ∉ u.pending ++ u.completed := by
    intro id hid hin
    obtain ⟨t, ht, rfl⟩ := mem_map.1 hid
    rcases hfresh t ht with hrun | hseen
    · have hrunning : t.uid ∈ u.running := by simp [running, hrun]
      exact (nodup_append.1 h.nodup).2.2 _ hrunning _ hin rfl
    · exact hseen (h.seen _ (mem_append_right _ hin))
  have hlist := pushed_perm u states
  refine ⟨?_, ?_, by simp, ?_, ?_, ?_, ?_⟩
  · have huids := hheld.map Prod.fst
    rw [map_append, ← map_uid_eq, ← map_uid_eq, ← map_uid_eq, helse] at huids
    exact huids.trans (h.waiting.append_right _)
  · intro s hs
    have hmem := hheld.subset (mem_map_of_mem hs)
    rw [helse] at hmem
    rcases mem_append.1 hmem with hmem | hmem
    · obtain ⟨t, ht, hkey⟩ := mem_map.1 hmem
      rw [← show t.status = s.status from congrArg Prod.snd hkey]
      exact h.normal t ht
    · obtain ⟨t, ht, hkey⟩ := mem_map.1 hmem
      rw [← show t.status = s.status from congrArg Prod.snd hkey]
      simpa using (mem_filter.1 ht).2
  · have huids := hdone.map Prod.fst
    rw [map_append, ← map_uid_eq, ← map_uid_eq, ← map_uid_eq] at huids
    exact huids.trans (h.done.append_right _)
  · intro s hs
    rcases mem_append.1 (hdone.subset (mem_map_of_mem hs)) with hmem | hmem
    · obtain ⟨t, ht, hkey⟩ := mem_map.1 hmem
      rw [← show t.status = s.status from congrArg Prod.snd hkey]
      exact h.status t ht
    · obtain ⟨t, ht, hkey⟩ := mem_map.1 hmem
      rw [← show t.status = s.status from congrArg Prod.snd hkey]
      simpa using (mem_filter.1 ht).2
  · simp only [running, Option.map_none, Option.toList_none, nil_append]
    rw [hlist.nodup_iff]
    refine (nodup_append.1 h.nodup).2.1.append hnodup ?_
    intro id hin hid
    exact hnew id hid hin
  · intro id hid
    simp only [running, Option.map_none, Option.toList_none, nil_append] at hid
    rcases mem_append.1 (hlist.subset hid) with hin | hin
    · exact mem_append_left _ (h.seen id (mem_append_right _ hin))
    · exact mem_append_right _ hin

theorem Inv.erase {s : State} (h : u.Inv) (hcall : u.call (.erase s) = .ok u') : u'.Inv := by
  obtain ⟨σ, herase, hcall⟩ := Except.bind_eq_ok_iff.1 hcall
  cases hcall
  obtain ⟨hinternal, hpostponed⟩ := AnySearcher.eraseCompletedStates_spec herase
  obtain ⟨hothers, hpicked, hdone⟩ := u.searcher.internal.eraseCompleted_spec s
  have hheld : σ.held = u.searcher.held := by
    simp only [AnySearcher.held, BasicSearcher.normalStates_eq, hinternal, hpostponed, hothers,
      hpicked]
  have helse : σ.heldElsewhere = u.searcher.heldElsewhere := by
    simp only [AnySearcher.heldElsewhere, hinternal, hpostponed, hothers]
  have hwaiting : Usage.waiting { u with
      searcher := σ, completed := u.completed.filter (· ≠ s.uid) } = u.waiting := by
    simp only [Usage.waiting, hheld, helse]
  have hcompleted : σ.getCompletedStates =
      u.searcher.getCompletedStates.filter fun t => t.uid ≠ s.uid := by
    rw [AnySearcher.getCompletedStates, hinternal, hdone]
    rfl
  have hsub : (u.running ++ (u.pending ++ u.completed.filter (· ≠ s.uid))).Sublist
      (u.running ++ (u.pending ++ u.completed)) :=
    ((filter_sublist).append_left _).append_left _
  refine ⟨hwaiting ▸ h.waiting, hwaiting ▸ h.normal, ?_, ?_, ?_, ?_, ?_⟩
  · intro s' p hs' hp
    refine h.picked s' p hs' ?_
    rwa [hinternal, hpicked] at hp
  · rw [hcompleted]
    have hfilter := h.done.filter (· ≠ s.uid)
    rw [filter_map] at hfilter
    exact hfilter
  · intro t ht
    rw [hcompleted] at ht
    exact h.status t (mem_filter.1 ht).1
  · exact h.nodup.sublist hsub
  · exact fun id hid => h.seen id (hsub.subset hid)

theorem Inv.next (h : u.Inv) (hnext : u.Next u') : u'.Inv := by
  obtain ⟨c, hallows, hall, hcall⟩ := hnext
  cases c with
  | setLevel level =>
      cases hcall
      exact h.setLevel level
  | fetch rand =>
      unfold call at hcall
      dsimp only at hcall
      split at hcall
      · cases hcall
        exact h
      · rename_i hfetch
        cases hcall
        exact (h.fetched hallows hfetch).2.2
  | push fa states => exact h.push hallows hall hcall
  | erase s => exact h.erase hcall

theorem Inv.run (h : u.Inv) (hrun : Relation.ReflTransGen Next u u') : u'.Inv := by
  induction hrun with
  | refl => exact h
  | tail _ hnext ih => exact ih.next hnext

/-! ## No state is lost or duplicated -/

/-- What the callers of a searcher rely on. All that is held is `heldElsewhere`, apart
from the state that a `RandomPickingSearcher` remembers. -/
structure Exact (u : Usage) : Prop where
  held_once : ∀ id ∈ u.pending, (u.searcher.held.map State.uid).count id = 1
  held_only : ∀ s ∈ u.searcher.held, s.uid ∈ u.pending ∨
    (u.searcher.internal.picked = some s ∧ u.executing.map State.uid = some s.uid)
  executing : ∀ s, u.executing = some s →
    s.uid ∉ u.searcher.heldElsewhere.map State.uid ∧
    (u.searcher.internal.isRandom = false → s.uid ∉ u.searcher.held.map State.uid)
  fetched : ∀ rand s σ, u.executing = none → u.searcher.fetch rand = some (s, σ) →
    s.uid ∈ u.pending ∧ s.status = .normal
  completed : ∀ id ∈ u.completed, (u.searcher.getCompletedStates.map State.uid).count id = 1

theorem mem_held_iff {σ : AnySearcher} {s : State} :
    s ∈ σ.held ↔ s ∈ σ.heldElsewhere ∨ σ.internal.picked = some s := by
  simp only [AnySearcher.held, AnySearcher.heldElsewhere, BasicSearcher.normalStates_eq,
    mem_append, Option.mem_toList]
  tauto

theorem held_perm (σ : AnySearcher) :
    σ.held ~ σ.internal.picked.toList ++ σ.heldElsewhere := by
  simp only [AnySearcher.held, AnySearcher.heldElsewhere, BasicSearcher.normalStates_eq]
  rw [← append_assoc]
  exact perm_append_comm.append_right _

/-- The states that are held: those that wait, and a remembered one that is running. -/
theorem Inv.held_cases (h : u.Inv) :
    u.searcher.held.map State.uid ~ u.pending ∨
    ∃ s p, u.executing = some s ∧ u.searcher.internal.picked = some p ∧ p.uid = s.uid ∧
      u.searcher.held.map State.uid ~ s.uid :: u.pending := by
  cases hrun : u.executing with
  | none =>
      left
      have hwaiting := h.waiting
      simpa [Usage.waiting, hrun] using hwaiting
  | some s =>
      have hwaiting : u.searcher.heldElsewhere.map State.uid ~ u.pending := by
        simpa [Usage.waiting, hrun] using h.waiting
      have hperm := (held_perm u.searcher).map State.uid
      cases hpicked : u.searcher.internal.picked with
      | none =>
          left
          rw [hpicked] at hperm
          exact hperm.trans hwaiting
      | some p =>
          right
          have huid := h.picked s p hrun hpicked
          rw [hpicked, map_append] at hperm
          refine ⟨s, p, rfl, rfl, huid, hperm.trans ?_⟩
          simp only [Option.toList_some, map_cons, map_nil, huid, singleton_append]
          exact hwaiting.cons s.uid

theorem Inv.running_not_mem (h : u.Inv) {s : State} (hs : u.executing = some s) :
    s.uid ∉ u.pending := by
  intro hmem
  have hrunning : s.uid ∈ u.running := by simp [running, hs]
  exact (nodup_append.1 h.nodup).2.2 _ hrunning _ (mem_append_left _ hmem) rfl

theorem Inv.exact (h : u.Inv) : u.Exact where
  held_once := by
    intro id hid
    have hpending : u.pending.Nodup := ((nodup_append.1 h.nodup).2.1).of_append_left
    rcases h.held_cases with hperm | ⟨s, p, hs, -, -, hperm⟩
    · rw [hperm.count_eq]
      exact count_eq_one_of_mem hpending hid
    · have hne : s.uid ≠ id := fun heq => h.running_not_mem hs (heq ▸ hid)
      rw [hperm.count_eq, count_cons_of_ne hne]
      exact count_eq_one_of_mem hpending hid
  held_only := by
    intro s hs
    rcases mem_held_iff.1 hs with hs | hs
    · left
      refine h.waiting.subset (mem_map_of_mem ?_)
      unfold Usage.waiting
      split
      · exact hs
      · exact mem_held_iff.2 (.inl hs)
    · cases hrun : u.executing with
      | none =>
          left
          refine h.waiting.subset (mem_map_of_mem ?_)
          simpa [Usage.waiting, hrun] using mem_held_iff.2 (.inr hs)
      | some t =>
          right
          exact ⟨hs, by rw [Option.map_some, h.picked t s hrun hs]⟩
  executing := by
    intro s hs
    have helse : s.uid ∉ u.searcher.heldElsewhere.map State.uid := by
      intro hmem
      refine h.running_not_mem hs (h.waiting.subset ?_)
      simpa [Usage.waiting, hs] using hmem
    refine ⟨helse, fun hrandom hmem => helse ?_⟩
    rw [((held_perm u.searcher).map State.uid).mem_iff, BasicSearcher.picked_eq_none hrandom]
      at hmem
    exact hmem
  fetched := by
    intro rand s σ hidle hfetch
    obtain ⟨hmem, hstatus, -⟩ := h.fetched hidle hfetch
    exact ⟨hmem, hstatus⟩
  completed := by
    intro id hid
    have hcompleted : u.completed.Nodup := ((nodup_append.1 h.nodup).2.1).of_append_right
    rw [h.done.count_eq]
    exact count_eq_one_of_mem hcompleted hid

/-- Whatever calls are made within the protocol, a searcher holds every state once that
it has to hand out, and no other, up to the memory of a `RandomPickingSearcher`. -/
theorem reachable_exact {σ : AnySearcher} {u : Usage} (hheld : σ.held = [])
    (hdone : σ.getCompletedStates = []) (hrun : Relation.ReflTransGen Next (new σ) u) : u.Exact :=
  ((Inv.new hheld hdone).run hrun).exact

/-- A flow graph without nodes. -/
def noGraph : FlowAnalysis := ⟨⟨[], [], 0x3000, none, none⟩, [], [], []⟩

/-- The initial state is pushed and fetched. -/
theorem new_fetch {σ σ₁ σ₂ : AnySearcher} {s : State} (hs : s.latestNonOSInst.1 = none)
    (hpush : σ.push noGraph [s] = .ok σ₁) (hall : ¬ σ.PostponesAll noGraph [s])
    (hfetch : σ₁.fetch 0 = some (s, σ₂)) :
    ∃ u, Relation.ReflTransGen Next (new σ) u ∧ u.searcher = σ₂ ∧ u.executing = some s := by
  have hfirst : ∃ u, (new σ).call (.push noGraph [s]) = .ok u ∧ u.searcher = σ₁ ∧
      u.executing = none := ⟨_, by simp only [call, new, hpush, Except.ok_bind']; rfl, rfl, rfl⟩
  obtain ⟨u, hcall, rfl, hidle⟩ := hfirst
  refine ⟨_, (Relation.ReflTransGen.single ⟨.push noGraph [s], ?_, hall, hcall⟩).tail
    ⟨.fetch 0, hidle, id, call_fetch hfetch⟩, rfl, rfl⟩
  refine ⟨.inr rfl, by simp, by simp [new], ?_⟩
  intro t ht inst hinst
  rw [mem_singleton.1 ht, hs] at hinst
  cases hinst

/-- A round of the main loop: the fetched state is executed, the coverage is updated, and the
results are pushed. -/
def turn (results : State → List State) (p : FlowAnalysis × Usage) :
    Except Abort (FlowAnalysis × Usage) := do
  let (fa, u) := p
  match u.searcher.fetch 0 with
  | none => throw .outOfFuel
  | some (s, σ) => do
    let v : Usage := { u with searcher := σ, executing := some s, pending := u.pending.erase s.uid }
    let (fa, states) ← Session.updateCoverage fa (results s)
    if v.searcher.internal.isRandom = false ∧ v.Allows (.push fa states) then do
      let u ← v.call (.push fa states)
      return (fa, u)
    else throw .outOfFuel

theorem turn_reaches {results : State → List State} {fa fa' : FlowAnalysis}
    (hidle : u.executing = none) (h : turn results (fa, u) = .ok (fa', u')) :
    Relation.ReflTransGen Next u u' ∧ u'.executing = none := by
  unfold turn at h
  dsimp only at h
  split at h
  · cases h
  rename_i s σ hfetch
  obtain ⟨⟨fa₁, states⟩, hcover, h⟩ := Except.bind_eq_ok_iff.1 h
  dsimp only at h
  split at h
  · rename_i hallows
    obtain ⟨v, hpush, h⟩ := Except.bind_eq_ok_iff.1 h
    cases h
    have hidle' : u'.executing = none := by
      obtain ⟨σ', -, hpush⟩ := Except.bind_eq_ok_iff.1 hpush
      cases hpush
      rfl
    exact ⟨(Relation.ReflTransGen.single ⟨.fetch 0, hidle, id, call_fetch hfetch⟩).tail
      ⟨.push fa' states, hallows.2, AnySearcher.not_postponesAll hallows.1, hpush⟩, hidle'⟩
  · cases h

/-- That many rounds. -/
def turns (rounds : List (State → List State)) (p : FlowAnalysis × Usage) :
    Except Abort (FlowAnalysis × Usage) :=
  rounds.foldlM (fun p results => turn results p) p

theorem turns_reaches {rounds : List (State → List State)} {fa fa' : FlowAnalysis}
    (hidle : u.executing = none) (h : turns rounds (fa, u) = .ok (fa', u')) :
    Relation.ReflTransGen Next u u' ∧ u'.executing = none := by
  induction rounds generalizing fa u with
  | nil =>
      cases h
      exact ⟨.refl, hidle⟩
  | cons results rounds ih =>
      obtain ⟨⟨fa₁, u₁⟩, hfirst, h⟩ := Except.bind_eq_ok_iff.1 h
      obtain ⟨hreach, hidle₁⟩ := turn_reaches hidle hfirst
      obtain ⟨hrest, hidle'⟩ := ih hidle₁ h
      exact ⟨hreach.trans hrest, hidle'⟩

namespace SkippingLoop

/-! A loop in which one instruction may be skipped. -/

def load : InstValue :=
  ⟨0x3000, 0x2004, ⟨.LD, .RL, 0xF000, 0x2000⟩, by decide, false, [], "skip.asm", 1, "LD R0, INPUT"⟩

def skip : InstValue :=
  ⟨0x3001, 0x0401, ⟨.BR, .CL, 0xF000, 0x0000⟩, by decide, false, ["LOOP"], "skip.asm", 2,
    "LOOP BRz SKIP"⟩

def increment : InstValue :=
  ⟨0x3002, 0x1021, ⟨.ADDi, .RRI, 0xF020, 0x1020⟩, matchInst_increment, false, [], "skip.asm", 3,
    "ADD R0, R0, #1"⟩

def back : InstValue :=
  ⟨0x3003, 0x03FD, ⟨.BR, .CL, 0xF000, 0x0000⟩, by decide, false, ["SKIP"], "skip.asm", 4,
    "SKIP BRp LOOP"⟩

def halt : InstValue :=
  ⟨0x3004, 0xF025, ⟨.TRAP, .V, 0xFF00, 0xF000⟩, matchInst_halt, false, [], "skip.asm", 5,
    "INSTANT_HALT"⟩

def graph : FlowAnalysis :=
  ⟨CoverageTracker.new ((FlowGraph.build
      ([load, skip, increment, back, halt].map fun i => (i.addr, .inst i)) 0x3000).addLoopEdges
      [⟨true, 0x3001, some 0x3004⟩, ⟨false, 0x3001, some 0x3001⟩]), [], [], []⟩

/-- The pruning searcher with this loop. -/
def pruner : AnySearcher :=
  .pruning (.new (.filo (.simpleFILO [] [])) [⟨0x3001, [0x3001, 0x3002, 0x3003], [],
    [[1, 5], [2, 5]], [9], [[1, 4], [2, 4]], [8], [4, 5]⟩] [0])

/-- A state behind an instruction. -/
def ran (i : InstValue) (pc : Word) (s : State) : State :=
  { s with
    pc := pc
    latestInst := (some i, s.latestInst.1)
    latestNonOSInst := (some i, s.latestNonOSInst.1) }

/-- The copy of a fork. -/
def copy (uid : Nat) (s : State) : State :=
  { s with uid := uid, coveredNewEdge := false, coveredNewSegment := false,
           avoidLoopReductionPostpone := false }

/-- The first state, as the main loop sets it up. -/
def start : State :=
  { State.init 0 (fun _ => none) 0x3000 with colorStack := [0x3000] }

/-- One round after another until two states are completed. The last copy is on a way through
the loop that was covered before. -/
def firstRounds : List (State → List State) :=
  [fun s => [ran load 0x3001 s],
   fun s => [ran skip 0x3003 (copy 1 s), ran skip 0x3002 s],
   fun s => [ran increment 0x3003 s],
   fun s => [ran back 0x3004 (copy 2 s), ran back 0x3001 s],
   fun s => [ran skip 0x3003 s, ran skip 0x3002 (copy 3 s)],
   fun s => [{ ran back 0x3001 s with status := .broken }],
   fun s => [{ ran halt 0x3005 s with status := .halted }]]

/-- The rounds that are left for the internal searcher. -/
def lastRounds : List (State → List State) :=
  [fun s => [ran back 0x3004 s], fun s => [{ ran halt 0x3005 s with status := .halted }]]

end SkippingLoop

open SkippingLoop in
/-- A state waits in each place while another is completed and erased, and at the end the
postponed one is handed out. -/
theorem reachable_exact_pruning : ∃ u₁ u₂ u₃ : Usage,
    Relation.ReflTransGen Next (new pruner) u₁ ∧ u₁.pending = [1, 3] ∧
    u₁.searcher.postponedStates.map State.uid = [3] ∧ u₁.completed = [0, 2] ∧ u₁.Exact ∧
    u₁.Next u₂ ∧ u₂.completed = [0] ∧ u₂.Exact ∧
    Relation.ReflTransGen Next u₂ u₃ ∧ u₃.executing.map State.uid = some 3 ∧
    u₃.completed = [0, 1] ∧ u₃.Exact := by
  obtain ⟨u₀, fa₁, u₁, s, u₂, fa, u, s', σ, hpush, hidle₀, hfirst, hpending, hpostponed, hcompleted,
      hmem, herase, hcompleted₂, hlast, hfetch, hexec, hcompleted₃⟩ :
      ∃ u₀ fa₁ u₁ s u₂ fa u s' σ,
        (new pruner).call (.push graph [start]) = .ok u₀ ∧ u₀.executing = none ∧
        turns firstRounds (graph, u₀) = .ok (fa₁, u₁) ∧ u₁.pending = [1, 3] ∧
        u₁.searcher.postponedStates.map State.uid = [3] ∧ u₁.completed = [0, 2] ∧
        u₁.searcher.getCompletedStates[1]? = some s ∧ u₁.call (.erase s) = .ok u₂ ∧
        u₂.completed = [0] ∧ turns lastRounds (fa₁, u₂) = .ok (fa, u) ∧
        u.searcher.fetch 0 = some (s', σ) ∧ s'.uid = 3 ∧ u.completed = [0, 1] :=
    ⟨_, _, _, _, _, _, _, _, _, rfl, rfl, rfl, rfl, rfl, rfl, rfl, rfl, rfl, rfl, rfl, rfl, rfl⟩
  have hall : ¬ pruner.PostponesAll graph [start] := AnySearcher.not_postponesAll rfl
  have hstart : (new pruner).Next u₀ := ⟨.push graph [start], by decide, hall, hpush⟩
  obtain ⟨hreach₁, hidle₁⟩ := turns_reaches hidle₀ hfirst
  have hreach₁ := hreach₁.head hstart
  have herased : u₁.Next u₂ := ⟨.erase s, List.mem_of_getElem? hmem, id, herase⟩
  have hidle₂ : u₂.executing = none := by
    obtain ⟨σ', -, herase⟩ := Except.bind_eq_ok_iff.1 herase
    cases herase
    exact hidle₁
  obtain ⟨hreach₃, hidle₃⟩ := turns_reaches hidle₂ hlast
  have hfetched : u.Next { u with
      searcher := σ, executing := some s', pending := u.pending.erase s'.uid } :=
    ⟨.fetch 0, hidle₃, id, call_fetch hfetch⟩
  exact ⟨u₁, u₂, _, hreach₁, hpending, hpostponed, hcompleted, reachable_exact rfl rfl hreach₁,
    herased, hcompleted₂, reachable_exact rfl rfl (hreach₁.tail herased), hreach₃.tail hfetched,
    congrArg some hexec, hcompleted₃,
    reachable_exact rfl rfl (((hreach₁.tail herased).trans hreach₃).tail hfetched)⟩

/-- A `RandomPickingSearcher` still holds the state that is being executed. -/
theorem random_holds_executing :
    ¬ ∀ (σ : AnySearcher) (u : Usage), σ.held = [] → σ.getCompletedStates = [] →
      Relation.ReflTransGen Next (new σ) u → ∀ s, u.executing = some s →
      s.uid ∉ u.searcher.held.map State.uid := by
  intro h
  obtain ⟨u, hrun, hsearcher, hexec⟩ := new_fetch (σ := .basic (.randomPicking none [] []))
    (s := State.init 0 (fun _ => none) 0x3000) rfl rfl id rfl
  refine h _ u rfl rfl hrun _ hexec ?_
  rw [hsearcher]
  exact mem_singleton.2 rfl

end Usage

end Klc3
