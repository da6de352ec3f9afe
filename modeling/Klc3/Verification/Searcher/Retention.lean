import Klc3.Model.EarlyRelease
import Klc3.Verification.Executor.References
import Klc3.Verification.Searcher.Protocol

/-!
# Retention

Which states an allocator has to keep: those that a searcher holds, those that are being
looked at, and those that something refers to. Early release only takes the others.
-/

namespace Klc3

open List

/-! ## What the searchers leave of a state -/

/-- A state without what the pruning searcher changes. -/
def State.unlooped (s : State) : State :=
  { s with loopStack := [], coveredNewSegment := false, avoidLoopReductionPostpone := false }

/-- What the pruning searcher does not change is read off the rest. -/
theorem State.unlooped_congr {α : Type} {s s' : State} (f : State → α)
    (h : s'.unlooped = s.unlooped) (hf : ∀ s : State, f s.unlooped = f s) : f s' = f s := by
  rw [← hf s', h, hf]

namespace PruningSearcher

variable {ps ps' : PruningSearcher} {fa : FlowAnalysis} {fg : FlowGraph} {s s' : State}
  {onEdge : Nat}

theorem appendLoopPath_unlooped (h : ps.appendLoopPath fg s onEdge = .ok s') :
    s'.unlooped = s.unlooped := by
  unfold appendLoopPath at h
  split at h
  · cases h
    rfl
  · obtain ⟨color, -, h⟩ := Except.bind_eq_ok_iff.1 h
    split at h
    · cases h
      rfl
    · obtain ⟨edge, -, h⟩ := Except.bind_eq_ok_iff.1 h
      obtain ⟨layer, -, h⟩ := Except.bind_eq_ok_iff.1 h
      cases h
      rfl

theorem coverSegment_unlooped (ps : PruningSearcher) (s : State) (loop : Nat)
    (cover : LoopInfo → LoopInfo × Bool) :
    (ps.coverSegment s loop cover).2.unlooped = s.unlooped := by
  unfold coverSegment
  split <;> rfl

theorem extendUpper_unlooped {exitLoop : Loop} {lastNode : Option Word}
    (h : ps.extendUpper fa s exitLoop lastNode = .ok s') : s'.unlooped = s.unlooped := by
  unfold extendUpper at h
  split at h
  · cases h
    rfl
  · obtain ⟨color, -, h⟩ := Except.bind_eq_ok_iff.1 h
    dsimp only at h
    split at h
    · cases h
      rfl
    · split at h
      · cases h
      · split at h
        · cases h
        · obtain ⟨layer, -, h⟩ := Except.bind_eq_ok_iff.1 h
          cases h
          rfl

theorem testLoopExit_unlooped {n : Nat}
    (h : testLoopExitAndUpdateH2XCoverage n ps fa s onEdge = .ok (ps', s')) :
    s'.unlooped = s.unlooped := by
  induction n generalizing ps s with
  | zero =>
      cases h
      rfl
  | succ n ih =>
      unfold testLoopExitAndUpdateH2XCoverage at h
      split at h
      · cases h
        rfl
      · rename_i top outer _
        obtain ⟨inside, -, h⟩ := Except.bind_eq_ok_iff.1 h
        dsimp only at h
        split at h
        · cases h
          rfl
        · obtain ⟨exitLoop, -, h⟩ := Except.bind_eq_ok_iff.1 h
          split at h
          · cases h
          · have hcover := coverSegment_unlooped ps s top.loop (coverH2X top.loopPathFromEntry)
            generalize ps.coverSegment s top.loop (coverH2X top.loopPathFromEntry) = r at h hcover
            obtain ⟨e, -, h⟩ := Except.bind_eq_ok_iff.1 h
            obtain ⟨s₁, hupper, h⟩ := Except.bind_eq_ok_iff.1 h
            calc s'.unlooped = s₁.unlooped := ih h
              _ = { r.2 with loopStack := outer }.unlooped := extendUpper_unlooped hupper
              _ = s.unlooped := hcover

theorem enterNewLoopIfAny_unlooped (h : ps.enterNewLoopIfAny fg s onEdge = .ok s') :
    s'.unlooped = s.unlooped := by
  obtain ⟨e, -, h⟩ := Except.bind_eq_ok_iff.1 h
  obtain ⟨color, -, h⟩ := Except.bind_eq_ok_iff.1 h
  obtain ⟨candidates, -, h⟩ := Except.bind_eq_ok_iff.1 h
  dsimp only at h
  split at h
  · cases h
    rfl
  · obtain ⟨l, -, h⟩ := Except.bind_eq_ok_iff.1 h
    split at h
    · cases h
    · cases h
      rfl

theorem testH2HAndUpdate_unlooped (h : ps.testH2HAndUpdate fg s onEdge = .ok (ps', s')) :
    s'.unlooped = s.unlooped := by
  unfold testH2HAndUpdate at h
  split at h
  · cases h
    rfl
  · rename_i top outer _
    obtain ⟨e, -, h⟩ := Except.bind_eq_ok_iff.1 h
    obtain ⟨l, -, h⟩ := Except.bind_eq_ok_iff.1 h
    dsimp only at h
    split at h
    · cases h
      rfl
    · split at h
      · cases h
      · cases h
        exact coverSegment_unlooped ps s top.loop (coverH2H top.loopPathFromEntry)

theorem updateLoops_unlooped (h : ps.updateLoops fa s onEdge = .ok (ps', s')) :
    s'.unlooped = s.unlooped := by
  obtain ⟨s₁, happend, h⟩ := Except.bind_eq_ok_iff.1 h
  obtain ⟨⟨ps₂, s₂⟩, hexit, h⟩ := Except.bind_eq_ok_iff.1 h
  obtain ⟨s₃, henter, h⟩ := Except.bind_eq_ok_iff.1 h
  calc s'.unlooped = s₃.unlooped := testH2HAndUpdate_unlooped h
    _ = s₂.unlooped := enterNewLoopIfAny_unlooped henter
    _ = s₁.unlooped := testLoopExit_unlooped hexit
    _ = s.unlooped := appendLoopPath_unlooped happend

theorem classify_unlooped {through : Bool} (h : ps.classify fa s = .ok (ps', s', through)) :
    s'.unlooped = s.unlooped := by
  unfold classify at h
  split at h
  · cases h
    rfl
  obtain ⟨covered, -, h⟩ := Except.bind_eq_ok_iff.1 h
  dsimp only at h
  split at h
  · cases h
    rfl
  · split at h
    · cases h
      rfl
    · obtain ⟨⟨ps₁, s₁⟩, hloops, h⟩ := Except.bind_eq_ok_iff.1 h
      have hsame := updateLoops_unlooped hloops
      dsimp only at h
      split at h
      · cases h
        exact hsame
      · split at h
        · split at h
          · cases h
            exact hsame
          · cases h
            exact hsame
        · cases h
          exact hsame

/-- Every state that goes through or is postponed comes from one that was pushed. -/
theorem classifyAll_mem {states through : List State} (htraps : ∀ s ∈ states, fa.fg.TrapsAt s)
    (h : ps.classifyAll fa states = .ok (ps', through)) :
    (∀ t ∈ through, ∃ s ∈ states, t.unlooped = s.unlooped) ∧
    ∀ t ∈ ps'.postponedStates, t ∈ ps.postponedStates ∨ ∃ s ∈ states, t.unlooped = s.unlooped := by
  induction states generalizing ps through with
  | nil =>
      cases h
      exact ⟨by simp, fun t ht => .inl ht⟩
  | cons s rest ih =>
      obtain ⟨⟨ps₁, s₁, goes⟩, hclassify, h⟩ := Except.bind_eq_ok_iff.1 h
      obtain ⟨⟨ps₂, others⟩, hrest, h⟩ := Except.bind_eq_ok_iff.1 h
      cases h
      have hsame := classify_unlooped hclassify
      obtain ⟨-, -, -, hpostponed, -⟩ := classify_spec (htraps s mem_cons_self) hclassify
      obtain ⟨hthrough, hlater⟩ := ih (fun t ht => htraps t (mem_cons_of_mem _ ht)) hrest
      have hmore : ∀ {t : State}, (∃ u ∈ rest, t.unlooped = u.unlooped) →
          ∃ u ∈ s :: rest, t.unlooped = u.unlooped := fun ⟨u, hu, h⟩ =>
        ⟨u, mem_cons_of_mem _ hu, h⟩
      refine ⟨fun t ht => ?_, fun t ht => ?_⟩
      · split at ht
        · rcases mem_cons.1 ht with rfl | ht
          · exact ⟨s, mem_cons_self, hsame⟩
          · exact hmore (hthrough t ht)
        · exact hmore (hthrough t ht)
      · rcases hlater t ht with hold | hnew
        · rw [hpostponed, mem_append] at hold
          rcases hold with hold | hnew
          · exact .inl hold
          · split at hnew
            · cases hnew
            · rw [mem_singleton.1 hnew]
              exact .inr ⟨s, mem_cons_self, hsame⟩
        · exact .inr (hmore hnew)

end PruningSearcher

namespace AnySearcher

variable {σ σ' : AnySearcher} {s : State} {states : List State} {rand : Nat} {fa : FlowAnalysis}

/-- The searcher hands out what it holds. -/
theorem fetch_mem (h : σ.fetch rand = some (s, σ')) : ∃ t ∈ σ.held, t.unlooped = s.unlooped := by
  cases σ with
  | basic b =>
      obtain ⟨⟨t, b'⟩, hfetch, h⟩ := Option.map_eq_some_iff.1 h
      cases h
      obtain ⟨hperm, -⟩ := BasicSearcher.fetch_spec hfetch
      exact ⟨t, mem_append_left _ (hperm.mem_iff.2 mem_cons_self), rfl⟩
  | pruning ps =>
      obtain ⟨⟨t, ps'⟩, hfetch, h⟩ := Option.map_eq_some_iff.1 h
      cases h
      unfold PruningSearcher.fetch at hfetch
      split at hfetch
      · rename_i b' hinner
        cases hfetch
        obtain ⟨hperm, -⟩ := BasicSearcher.fetch_spec hinner
        exact ⟨t, mem_append_left _ (hperm.mem_iff.2 mem_cons_self), rfl⟩
      · split at hfetch
        · cases hfetch
        · obtain ⟨⟨t, rest⟩, hpop, hfetch⟩ := Option.map_eq_some_iff.1 hfetch
          cases hfetch
          have hperm := BasicSearcher.swapPop_perm hpop
          exact ⟨t, mem_append_right _ (hperm.mem_iff.2 mem_cons_self), rfl⟩

/-- Whatever the searcher holds after a push, it held before or was pushed. -/
theorem push_mem (hnodup : (states.map State.uid).Nodup) (htraps : ∀ s ∈ states, fa.fg.TrapsAt s)
    (h : σ.push fa states = .ok σ') :
    ∀ t ∈ σ'.held, t ∈ σ.held ∨ ∃ s ∈ states, t.unlooped = s.unlooped := by
  have hothers : ∀ {b : BasicSearcher} {t : State}, t ∈ b.others → t ∈ b.normalStates := by
    intro b t ht
    rw [BasicSearcher.normalStates_eq]
    exact mem_append_left _ ht
  cases σ with
  | basic b =>
      cases h
      intro t ht
      obtain ⟨hnormal, -⟩ := b.push_spec hnodup
      rcases mem_append.1 ht with ht | ht
      · rcases mem_append.1 (hnormal.mem_iff.1 ht) with ht | ht
        · exact .inl (mem_append_left _ (hothers ht))
        · exact .inr ⟨t, (mem_filter.1 ht).1, rfl⟩
      · cases ht
  | pruning ps =>
      obtain ⟨ps₂, hpush, h⟩ := Except.bind_eq_ok_iff.1 h
      cases h
      obtain ⟨⟨ps₁, through⟩, hclassify, hpush⟩ := Except.bind_eq_ok_iff.1 hpush
      obtain ⟨hinternal, late, -, -, hperm⟩ :=
        PruningSearcher.classifyAll_spec htraps hclassify
      obtain ⟨hthrough, hpostponed⟩ := PruningSearcher.classifyAll_mem htraps hclassify
      have hlate : ∀ t ∈ ps₁.postponedStates, t ∈ held (.pruning ps) ∨
          ∃ s ∈ states, t.unlooped = s.unlooped := fun t ht =>
        (hpostponed t ht).imp_left fun hold => mem_append_right _ hold
      dsimp only at hpush
      split at hpush
      · cases hpush
        intro t ht
        rcases mem_append.1 ht with ht | ht
        · rw [show (pruning ps₂).internal = ps.internalSearcher from hinternal] at ht
          exact .inl (mem_append_left _ ht)
        · exact hlate t ht
      · cases hpush
        have hthroughNodup : (through.map State.uid).Nodup := nodup_uids_of_keys hnodup hperm
        intro t ht
        obtain ⟨hnormal, -⟩ := ps₁.internalSearcher.push_spec hthroughNodup
        rcases mem_append.1 ht with ht | ht
        · rcases mem_append.1 (hnormal.mem_iff.1 ht) with ht | ht
          · rw [hinternal] at ht
            exact .inl (mem_append_left _ (hothers ht))
          · exact .inr (hthrough t (mem_filter.1 ht).1)
        · exact hlate t ht

theorem fetch_isRandom (h : σ.fetch rand = some (s, σ')) :
    σ'.internal.isRandom = σ.internal.isRandom := by
  have hbasic : ∀ {b b' : BasicSearcher} {t : State}, b.fetch rand = some (t, b') →
      b'.isRandom = b.isRandom := by
    intro b b' t h
    cases b with
    | filo searcher =>
        obtain ⟨r, -, h⟩ := Option.map_eq_some_iff.1 h
        cases h
        rfl
    | simpleFIFO normal done =>
        cases normal with
        | nil => cases h
        | cons u rest =>
            cases h
            rfl
    | randomPicking pickedState others done =>
        cases pickedState with
        | some u =>
            cases h
            rfl
        | none =>
            obtain ⟨r, -, h⟩ := Option.map_eq_some_iff.1 h
            cases h
            rfl
  cases σ with
  | basic b =>
      obtain ⟨⟨t, b'⟩, hfetch, h⟩ := Option.map_eq_some_iff.1 h
      cases h
      exact hbasic hfetch
  | pruning ps =>
      obtain ⟨⟨t, ps'⟩, hfetch, h⟩ := Option.map_eq_some_iff.1 h
      cases h
      unfold PruningSearcher.fetch at hfetch
      split at hfetch
      · rename_i hinner
        cases hfetch
        exact hbasic hinner
      · split at hfetch
        · cases hfetch
        · obtain ⟨r, -, hfetch⟩ := Option.map_eq_some_iff.1 hfetch
          cases hfetch
          rfl

theorem push_isRandom (htraps : ∀ s ∈ states, fa.fg.TrapsAt s) (h : σ.push fa states = .ok σ') :
    σ'.internal.isRandom = σ.internal.isRandom := by
  have hbasic : ∀ (b : BasicSearcher) (states : List State),
      (b.push states).isRandom = b.isRandom := by
    intro b states
    cases b with
    | filo searcher => rfl
    | simpleFIFO normal done => rfl
    | randomPicking picked others done =>
        refine List.foldlRecOn states _ (motive := fun b : BasicSearcher => b.isRandom = true)
          rfl ?_
        intro b hb s _
        cases b with
        | randomPicking p others done =>
            simp only [BasicSearcher.pushOneRandom]
            split
            · split <;> rfl
            · rfl
        | filo _ => cases hb
        | simpleFIFO _ _ => cases hb
  cases σ with
  | basic b =>
      cases h
      exact hbasic b states
  | pruning ps =>
      obtain ⟨ps₂, hpush, h⟩ := Except.bind_eq_ok_iff.1 h
      cases h
      obtain ⟨⟨ps₁, through⟩, hclassify, hpush⟩ := Except.bind_eq_ok_iff.1 hpush
      obtain ⟨hinternal, -⟩ := PruningSearcher.classifyAll_spec htraps hclassify
      dsimp only at hpush
      split at hpush
      · cases hpush
        exact congrArg BasicSearcher.isRandom hinternal
      · cases hpush
        exact (hbasic _ through).trans (congrArg BasicSearcher.isRandom hinternal)

end AnySearcher

namespace AnySearcher

variable {σ σ' : AnySearcher} {states : List State} {fa : FlowAnalysis}

/-- The traps of the pushed states are as a pruning searcher needs them. -/
def TrapsAt (fa : FlowAnalysis) (states : List State) : AnySearcher → Prop
  | basic _ => True
  | pruning _ => ∀ s ∈ states, fa.fg.TrapsAt s

/-- Other searchers do not look at the graph. -/
theorem TrapsAt.exists_graph (h : σ.TrapsAt fa states) :
    ∃ fa' : FlowAnalysis, (∀ s ∈ states, fa'.fg.TrapsAt s) ∧ σ.push fa' states = σ.push fa states := by
  cases σ with
  | basic b =>
      refine ⟨Usage.noGraph, fun s _ inst _ e he => ?_, rfl⟩
      cases he
  | pruning ps => exact ⟨fa, h, rfl⟩

end AnySearcher

namespace AnySearcher

variable {σ σ' : AnySearcher} {s : State} {states : List State} {rand : Nat} {fa : FlowAnalysis}

/-- The searchers of gold programs do not prune. -/
def IsBasic (σ : AnySearcher) : Prop := ∃ b, σ = basic b

theorem IsBasic.trapsAt (h : σ.IsBasic) : σ.TrapsAt fa states := by
  obtain ⟨b, rfl⟩ := h
  trivial

theorem IsBasic.fetch (h : σ.IsBasic) (hfetch : σ.fetch rand = some (s, σ')) : σ'.IsBasic := by
  obtain ⟨b, rfl⟩ := h
  obtain ⟨⟨t, b'⟩, -, hfetch⟩ := Option.map_eq_some_iff.1 hfetch
  cases hfetch
  exact ⟨b', rfl⟩

theorem IsBasic.push (h : σ.IsBasic) (hpush : σ.push fa states = .ok σ') : σ'.IsBasic := by
  obtain ⟨b, rfl⟩ := h
  cases hpush
  exact ⟨b.push states, rfl⟩

theorem IsBasic.release {isDone : Status → Bool} {a a' : StateAllocator} (h : σ.IsBasic)
    (hrelease : releaseStates isDone states σ a = .ok (σ', a')) : σ'.IsBasic := by
  induction states generalizing σ a with
  | nil =>
      cases hrelease
      exact h
  | cons s rest ih =>
      unfold releaseStates at hrelease
      split at hrelease
      · obtain ⟨σ₁, herase, hrelease⟩ := Except.bind_eq_ok_iff.1 hrelease
        obtain ⟨a₁, -, hrelease⟩ := Except.bind_eq_ok_iff.1 hrelease
        refine ih ?_ hrelease
        obtain ⟨b, rfl⟩ := h
        unfold eraseCompletedStates at herase
        split at herase
        · cases herase
        · cases herase
          exact ⟨_, rfl⟩
      · exact ih h hrelease

end AnySearcher

/-! ## Allocators -/

namespace StateAllocator

variable {a a' : StateAllocator} {count id : Nat} {ex ex' : Executor} {s : State}

/-- The allocator has handed out `count` uids, and no state is alive and released. -/
structure WF (a : StateAllocator) (count : Nat) : Prop where
  alive_lt : ∀ id ∈ a.aliveStates, id < count
  released_lt : ∀ id ∈ a.released, id < count
  disjoint : ∀ id ∈ a.aliveStates, id ∉ a.released

theorem mem_allocate (hle : ex.totalAllocatedStateCount ≤ ex'.totalAllocatedStateCount) :
    id ∈ (a.allocate ex ex').aliveStates ↔ id ∈ a.aliveStates ∨
      (ex.totalAllocatedStateCount ≤ id ∧ id < ex'.totalAllocatedStateCount) := by
  simp only [allocate, mem_append, mem_range'_1]
  constructor
  · rintro (h | ⟨h, h'⟩)
    · exact .inl h
    · exact .inr ⟨h, by omega⟩
  · rintro (h | ⟨h, h'⟩)
    · exact .inl h
    · exact .inr ⟨h, by omega⟩

theorem WF.allocate (hle : ex.totalAllocatedStateCount ≤ ex'.totalAllocatedStateCount)
    (h : a.WF ex.totalAllocatedStateCount) :
    (a.allocate ex ex').WF ex'.totalAllocatedStateCount where
  alive_lt id hid := by
    rcases (mem_allocate hle).1 hid with hid | ⟨-, hid⟩
    · have := h.alive_lt id hid
      omega
    · exact hid
  released_lt id hid := by
    have := h.released_lt id hid
    omega
  disjoint id hid := by
    rcases (mem_allocate hle).1 hid with hid | ⟨hge, -⟩
    · exact h.disjoint id hid
    · intro hreleased
      have := h.released_lt id hreleased
      omega

theorem releaseState_eq_ok (h : a.releaseState s = .ok a') :
    s.uid ∈ a.aliveStates ∧ a' = ⟨a.aliveStates.filter (· ≠ s.uid), s.uid :: a.released⟩ := by
  unfold releaseState at h
  split at h
  · rename_i halive
    cases h
    exact ⟨by simpa using halive, rfl⟩
  · cases h

theorem WF.releaseState (hwf : a.WF count) (h : a.releaseState s = .ok a') : a'.WF count := by
  obtain ⟨halive, rfl⟩ := releaseState_eq_ok h
  constructor
  · intro id hid
    exact hwf.alive_lt id (mem_filter.1 hid).1
  · intro id hid
    rcases mem_cons.1 hid with rfl | hid
    · exact hwf.alive_lt _ halive
    · exact hwf.released_lt id hid
  · intro id hid hreleased
    obtain ⟨hid, hne⟩ := mem_filter.1 hid
    rcases mem_cons.1 hreleased with rfl | hreleased
    · simp at hne
    · exact hwf.disjoint id hid hreleased

end StateAllocator

/-- What a release loop takes. -/
def State.Unneeded (isDone : Status → Bool) (s : State) : Prop :=
  isDone s.status = true ∧ s.triggerNewIssue = false

section Release

variable {isDone : Status → Bool} {states : List State} {σ σ' : AnySearcher}
variable {a a' : StateAllocator}

/-- A release loop erases the same states from the searcher and from the allocator. -/
theorem releaseStates_spec (h : releaseStates isDone states σ a = .ok (σ', a')) :
    σ'.held = σ.held ∧ σ'.internal.isRandom = σ.internal.isRandom ∧
    σ'.getCompletedStates <+ σ.getCompletedStates ∧
    (∀ t ∈ σ'.getCompletedStates, ∀ s ∈ states, s.Unneeded isDone → t.uid ≠ s.uid) ∧
    (∀ id ∈ a.aliveStates, (∀ s ∈ states, s.Unneeded isDone → id ≠ s.uid) → id ∈ a'.aliveStates) ∧
    (∀ count, a.WF count → a'.WF count) := by
  induction states generalizing σ a with
  | nil =>
      cases h
      exact ⟨rfl, rfl, .refl _, by simp, fun id hid _ => hid, fun _ hwf => hwf⟩
  | cons s rest ih =>
      unfold releaseStates at h
      split at h
      · rename_i hdone
        obtain ⟨σ₁, herase, h⟩ := Except.bind_eq_ok_iff.1 h
        obtain ⟨a₁, hrelease, h⟩ := Except.bind_eq_ok_iff.1 h
        obtain ⟨hheld, hrandom, hsub, hgone, halive, hwf⟩ := ih h
        obtain ⟨hinternal, hpostponed⟩ := AnySearcher.eraseCompletedStates_spec herase
        obtain ⟨hothers, hpicked, hcompleted⟩ := σ.internal.eraseCompleted_spec s
        have hheld₁ : σ₁.held = σ.held := by
          unfold AnySearcher.held
          rw [hinternal, hpostponed, BasicSearcher.normalStates_eq, hothers, hpicked,
            ← BasicSearcher.normalStates_eq]
        have hcompleted₁ : σ₁.getCompletedStates =
            σ.getCompletedStates.filter fun t => t.uid ≠ s.uid := by
          unfold AnySearcher.getCompletedStates
          rw [hinternal, hcompleted]
        have hrandom₁ : σ₁.internal.isRandom = σ.internal.isRandom := by
          rw [hinternal]
          rcases σ.internal with (_ | _) | _ | _ <;> rfl
        obtain ⟨-, rfl⟩ := StateAllocator.releaseState_eq_ok hrelease
        refine ⟨hheld.trans hheld₁, hrandom.trans hrandom₁, ?_, ?_, ?_, ?_⟩
        · rw [hcompleted₁] at hsub
          exact hsub.trans filter_sublist
        · intro t ht u hu
          rcases mem_cons.1 hu with rfl | hu
          · intro _
            have hmem := hsub.subset ht
            rw [hcompleted₁] at hmem
            simpa using (mem_filter.1 hmem).2
          · exact hgone t ht u hu
        · intro id hid hneeded
          refine halive id (mem_filter.2 ⟨hid, ?_⟩) fun u hu => hneeded u (mem_cons_of_mem _ hu)
          have hunneeded : s.Unneeded isDone := by
            simpa [State.Unneeded, Bool.and_eq_true] using hdone
          simpa using hneeded s mem_cons_self hunneeded
        · intro count hwf₀
          exact hwf count (hwf₀.releaseState hrelease)
      · rename_i hkeep
        obtain ⟨hheld, hrandom, hsub, hgone, halive, hwf⟩ := ih h
        have hneeded : ¬ s.Unneeded isDone := by
          simpa [State.Unneeded, Bool.and_eq_true] using hkeep
        refine ⟨hheld, hrandom, hsub, ?_, ?_, hwf⟩
        · intro t ht u hu hunneeded
          rcases mem_cons.1 hu with rfl | hu
          · exact absurd hunneeded hneeded
          · exact hgone t ht u hu hunneeded
        · exact fun id hid hall => halive id hid fun u hu => hall u (mem_cons_of_mem _ hu)

end Release

/-! ## What has to be kept -/

/-- Everything that a searcher holds, that is in use or that is referred to is alive; and a
state that may still be released is flagged when something refers to it. -/
structure Retains (a : StateAllocator) (refers : Nat → Prop) (σ : AnySearcher)
    (inUse : List State) : Prop where
  referred : ∀ id, refers id → id ∈ a.aliveStates
  alive : ∀ s ∈ σ.held ++ inUse ++ σ.getCompletedStates, s.uid ∈ a.aliveStates
  flagged : ∀ s ∈ σ.held ++ inUse, refers s.uid → s.triggerNewIssue = true
  nodup : ((σ.held ++ inUse ++ σ.getCompletedStates).map State.uid).Nodup
  fixed : σ.internal.isRandom = false

namespace Retains

variable {a a' : StateAllocator} {refers refers' : Nat → Prop} {σ σ' : AnySearcher}
variable {inUse states before after : List State} {s s' : State} {rand : Nat} {fa : FlowAnalysis}

/-- A searcher that hands states out for good holds only what it has not handed out. -/
theorem heldElsewhere_eq (h : σ.internal.isRandom = false) : σ.heldElsewhere = σ.held := by
  unfold AnySearcher.heldElsewhere AnySearcher.held
  rw [BasicSearcher.normalStates_eq, BasicSearcher.picked_eq_none h, Option.toList_none, append_nil]

/-- More may be alive, and less may be referred to. -/
theorem mono (h : Retains a refers σ inUse) (halive : ∀ id ∈ a.aliveStates, id ∈ a'.aliveStates)
    (hrefers : ∀ id, refers' id → refers id) : Retains a' refers' σ inUse where
  referred id hid := halive id (h.referred id (hrefers id hid))
  alive s hs := halive _ (h.alive s hs)
  flagged s hs hid := h.flagged s hs (hrefers _ hid)
  nodup := h.nodup
  fixed := h.fixed

/-- A state in use is changed, and issues may be filed on it when its flag is set. -/
theorem replace (h : Retains a refers σ (before ++ s :: after)) (huid : s'.uid = s.uid)
    (hflag : s.triggerNewIssue = true → s'.triggerNewIssue = true)
    (hrefers : ∀ id, refers' id → refers id ∨ (id = s.uid ∧ s'.triggerNewIssue = true)) :
    Retains a refers' σ (before ++ s' :: after) := by
  have hs : s ∈ σ.held ++ (before ++ s :: after) ++ σ.getCompletedStates := by simp
  have huids : (σ.held ++ (before ++ s' :: after) ++ σ.getCompletedStates).map State.uid =
      (σ.held ++ (before ++ s :: after) ++ σ.getCompletedStates).map State.uid := by
    simp [huid]
  constructor
  · intro id hid
    rcases hrefers id hid with hold | ⟨rfl, -⟩
    · exact h.referred id hold
    · exact h.alive s hs
  · intro u hu
    have hmem : u.uid ∈ (σ.held ++ (before ++ s :: after) ++ σ.getCompletedStates).map State.uid := by
      rw [← huids]
      exact mem_map_of_mem hu
    obtain ⟨v, hv, hvu⟩ := mem_map.1 hmem
    rw [← hvu]
    exact h.alive v hv
  · intro u hu hid
    by_cases hu' : u = s'
    · subst hu'
      rcases hrefers _ hid with hold | ⟨-, hset⟩
      · refine hflag (h.flagged s (by simp) ?_)
        rwa [← huid]
      · exact hset
    · have hother : u ∈ σ.held ++ (before ++ after) := by
        simp only [mem_append, mem_cons] at hu ⊢
        tauto
      rcases hrefers _ hid with hrefer | ⟨heq, -⟩
      · refine h.flagged u ?_ hrefer
        simp only [mem_append, mem_cons] at hother ⊢
        tauto
      · -- no other state has the uid of the changed one
        have hperm : σ.held ++ (before ++ s :: after) ++ σ.getCompletedStates ~
            s :: (σ.held ++ (before ++ after) ++ σ.getCompletedStates) := by
          rw [append_assoc, append_assoc, append_assoc, append_assoc, ← append_assoc σ.held,
            ← append_assoc σ.held]
          exact perm_middle
        have hnodup := (hperm.map State.uid).nodup_iff.1 h.nodup
        rw [map_cons, nodup_cons] at hnodup
        refine absurd ?_ hnodup.1
        rw [← heq]
        exact mem_map_of_mem (mem_append_left _ hother)
  · rw [huids]
    exact h.nodup
  · exact h.fixed

/-- The level does not change what a searcher holds. -/
theorem setLevel (h : Retains a refers σ inUse) (level : Int) :
    Retains a refers (σ.setLevel level) inUse := by
  obtain ⟨hinternal, hpostponed⟩ := σ.setLevel_held level
  have hheld : (σ.setLevel level).held = σ.held := by
    unfold AnySearcher.held
    rw [hinternal, hpostponed]
  have hcompleted : (σ.setLevel level).getCompletedStates = σ.getCompletedStates :=
    congrArg BasicSearcher.completedStates hinternal
  refine ⟨h.referred, ?_, ?_, ?_, ?_⟩
  · rw [hheld, hcompleted]
    exact h.alive
  · rw [hheld]
    exact h.flagged
  · rw [hheld, hcompleted]
    exact h.nodup
  · rw [hinternal]
    exact h.fixed

/-- A fetched state is in use. -/
theorem fetch (h : Retains a refers σ []) (hfetch : σ.fetch rand = some (s, σ')) :
    Retains a refers σ' [s] := by
  obtain ⟨t, hkey, hperm, -, hcompleted⟩ := AnySearcher.fetch_spec hfetch
  obtain ⟨t', ht', hsame⟩ := AnySearcher.fetch_mem hfetch
  have hfixed : σ'.internal.isRandom = false := by
    rw [← h.fixed]
    exact AnySearcher.fetch_isRandom hfetch
  rw [heldElsewhere_eq hfixed] at hperm
  have huid : t.uid = s.uid := congrArg Prod.fst hkey
  have huid' : t'.uid = s.uid := State.unlooped_congr State.uid hsame fun _ => rfl
  have hflag' : t'.triggerNewIssue = s.triggerNewIssue :=
    State.unlooped_congr State.triggerNewIssue hsame fun _ => rfl
  have huids : (σ'.held ++ [s] ++ σ'.getCompletedStates).map State.uid ~
      (σ.held ++ [] ++ σ.getCompletedStates).map State.uid := by
    rw [append_nil, hcompleted, map_append, map_append, map_append]
    refine Perm.append_right _ ?_
    refine Perm.trans ?_ (hperm.map State.uid).symm
    rw [map_cons (a := t), huid, map_singleton]
    exact perm_append_singleton _ _
  refine ⟨h.referred, fun u hu => ?_, fun u hu hid => ?_, huids.nodup_iff.2 h.nodup, hfixed⟩
  · obtain ⟨v, hv, hvu⟩ := mem_map.1 (huids.subset (mem_map_of_mem hu))
    rw [← hvu]
    exact h.alive v hv
  · rcases mem_append.1 hu with hu | hu
    · exact h.flagged u (mem_append_left _ (hperm.mem_iff.2 (mem_cons_of_mem _ hu))) hid
    · rw [mem_singleton.1 hu] at hid ⊢
      rw [← hflag']
      exact h.flagged t' (mem_append_left _ ht') (huid' ▸ hid)

/-- A step replaces the state in use by itself and by new states. -/
theorem step {ex : Executor} {pkg : IssuePackage} {r : StepResult}
    (h : Retains a refers σ [s]) (hwf : a.WF ex.totalAllocatedStateCount)
    (halloc : ex.Allocates ⟨s, pkg⟩ r)
    (hrefers : ∀ id, refers' id → refers id ∨
      ∃ t ∈ r.states, id = t.uid ∧ t.triggerNewIssue = true) :
    Retains (a.allocate ex r.ex) refers' σ r.states ∧
      (a.allocate ex r.ex).WF r.ex.totalAllocatedStateCount := by
  obtain ⟨forks, t, hstates, huids, hcount, huid, hflag⟩ := halloc.results
  have hle : ex.totalAllocatedStateCount ≤ r.ex.totalAllocatedStateCount := by omega
  refine ⟨?_, hwf.allocate hle⟩
  have hkeeps : ∀ id ∈ a.aliveStates, id ∈ (a.allocate ex r.ex).aliveStates := fun id hid =>
    (StateAllocator.mem_allocate hle).2 (.inl hid)
  have hperm : (σ.held ++ r.states ++ σ.getCompletedStates).map State.uid ~
      List.range' ex.totalAllocatedStateCount forks.length ++
        (σ.held ++ [s] ++ σ.getCompletedStates).map State.uid := by
    simp only [hstates, map_append, huids, map_singleton, huid, append_assoc]
    exact perm_append_comm_assoc _ _ _
  have hnodup : ((σ.held ++ r.states ++ σ.getCompletedStates).map State.uid).Nodup := by
    refine hperm.nodup_iff.2 (nodup_append.2 ⟨nodup_range', h.nodup, ?_⟩)
    intro id hid id' hid'
    obtain ⟨u, hu, rfl⟩ := mem_map.1 hid'
    have := hwf.alive_lt _ (h.alive u hu)
    rw [mem_range'_1] at hid
    omega
  have halive : ∀ u ∈ σ.held ++ r.states ++ σ.getCompletedStates,
      u.uid ∈ (a.allocate ex r.ex).aliveStates := by
    intro u hu
    rcases mem_append.1 (hperm.subset (mem_map_of_mem hu)) with hid | hid
    · rw [mem_range'_1] at hid
      exact (StateAllocator.mem_allocate hle).2 (.inr (by omega))
    · obtain ⟨v, hv, hvu⟩ := mem_map.1 hid
      rw [← hvu]
      exact hkeeps _ (h.alive v hv)
  refine ⟨fun id hid => ?_, halive, fun u hu hid => ?_, hnodup, h.fixed⟩
  · rcases hrefers id hid with hid | ⟨u, hu, rfl, -⟩
    · exact hkeeps id (h.referred id hid)
    · exact halive u (mem_append_left _ (mem_append_right _ hu))
  · rcases hrefers _ hid with hid | ⟨v, hv, hvu, hset⟩
    · rcases mem_append.1 hu with hu | hu
      · exact h.flagged u (mem_append_left _ hu) hid
      · rw [hstates, mem_append, mem_singleton] at hu
        rcases hu with hu | rfl
        · -- nothing refers to a new state yet
          have hlt := hwf.alive_lt _ (h.referred _ hid)
          have hmem := mem_map_of_mem (f := State.uid) hu
          rw [huids, mem_range'_1] at hmem
          omega
        · exact hflag (h.flagged s (by simp) (huid ▸ hid))
    · have hmem : v ∈ σ.held ++ r.states ++ σ.getCompletedStates :=
        mem_append_left _ (mem_append_right _ hv)
      rw [inj_on_of_nodup_map hnodup (mem_append_left _ hu) hmem hvu]
      exact hset

/-- The searcher takes over the states in use. -/
theorem push (h : Retains a refers σ states) (htraps : σ.TrapsAt fa states)
    (hpush : σ.push fa states = .ok σ') :
    Retains a refers σ' [] ∧
      ∀ s ∈ states, s.status ≠ .normal → ∃ t ∈ σ'.getCompletedStates, t.uid = s.uid := by
  obtain ⟨fa', htraps, hsame⟩ := htraps.exists_graph
  rw [← hsame] at hpush
  have hstates : (states.map State.uid).Nodup := by
    have hnodup := h.nodup
    rw [map_append, map_append] at hnodup
    exact hnodup.of_append_left.of_append_right
  have hpostpones : ¬ σ.PostponesAll fa' states := by
    intro hall
    cases σ with
    | basic b => exact hall
    | pruning ps =>
        have hrandom := hall.1
        rw [show ps.internalSearcher.isRandom = false from h.fixed] at hrandom
        cases hrandom
  obtain ⟨hheld, hcompleted⟩ := AnySearcher.push_spec hstates htraps hpostpones hpush
  rw [heldElsewhere_eq h.fixed] at hheld
  have hmem := AnySearcher.push_mem hstates htraps hpush
  have hkeys : (σ'.held ++ [] ++ σ'.getCompletedStates).map State.key ~
      (σ.held ++ states ++ σ.getCompletedStates).map State.key := by
    rw [append_nil, map_append, map_append, map_append]
    have hsplit : (states.filter fun s => s.status = .normal).map State.key ++
        (states.filter fun s => s.status ≠ .normal).map State.key ~ states.map State.key := by
      rw [← map_append]
      refine Perm.map _ ?_
      simpa using filter_append_perm (fun s : State => decide (s.status = .normal)) states
    calc σ'.held.map State.key ++ σ'.getCompletedStates.map State.key
        ~ (σ.held.map State.key ++ (states.filter fun s => s.status = .normal).map State.key) ++
          (σ.getCompletedStates.map State.key ++
            (states.filter fun s => s.status ≠ .normal).map State.key) := hheld.append hcompleted
      _ ~ σ.held.map State.key ++ ((states.filter fun s => s.status = .normal).map State.key ++
            (states.filter fun s => s.status ≠ .normal).map State.key) ++
          σ.getCompletedStates.map State.key := by
          simp only [append_assoc]
          refine Perm.append_left _ (Perm.append_left _ ?_)
          exact perm_append_comm
      _ ~ σ.held.map State.key ++ states.map State.key ++ σ.getCompletedStates.map State.key :=
          Perm.append_right _ (Perm.append_left _ hsplit)
  have huids : (σ'.held ++ [] ++ σ'.getCompletedStates).map State.uid ~
      (σ.held ++ states ++ σ.getCompletedStates).map State.uid := by
    rw [map_uid_eq, map_uid_eq]
    exact hkeys.map Prod.fst
  refine ⟨⟨h.referred, fun u hu => ?_, fun u hu hid => ?_, huids.nodup_iff.2 h.nodup, ?_⟩, ?_⟩
  · obtain ⟨v, hv, hvu⟩ := mem_map.1 (huids.subset (mem_map_of_mem hu))
    rw [← hvu]
    exact h.alive v hv
  · rw [append_nil] at hu
    rcases hmem u hu with hold | ⟨s, hs, hsame⟩
    · exact h.flagged u (mem_append_left _ hold) hid
    · have huid : u.uid = s.uid := State.unlooped_congr State.uid hsame fun _ => rfl
      rw [State.unlooped_congr State.triggerNewIssue hsame fun _ => rfl]
      exact h.flagged s (mem_append_right _ hs) (huid ▸ hid)
  · rw [← h.fixed]
    exact AnySearcher.push_isRandom htraps hpush
  · intro s hs hstatus
    have hkey : s.key ∈ σ'.getCompletedStates.map State.key := by
      refine hcompleted.symm.subset (mem_append_right _ (mem_map_of_mem (mem_filter.2 ⟨hs, ?_⟩)))
      simpa using hstatus
    obtain ⟨t, ht, heq⟩ := mem_map.1 hkey
    exact ⟨t, ht, congrArg Prod.fst heq⟩

/-- A release loop behind a push leaves alive what has to be. -/
theorem release {isDone : Status → Bool} {σ₁ : AnySearcher} (h : Retains a refers σ states)
    (htraps : σ.TrapsAt fa states)
    (hdone : ∀ status, isDone status = true → status ≠ .normal)
    (hpush : σ.push fa states = .ok σ₁)
    (hrelease : releaseStates isDone states σ₁ a = .ok (σ', a')) :
    Retains a' refers σ' [] := by
  obtain ⟨hpushed, hcompleted⟩ := h.push htraps hpush
  obtain ⟨hheld, hrandom, hsub, hgone, halive, -⟩ := releaseStates_spec hrelease
  have hnodup := hpushed.nodup
  rw [append_nil] at hnodup
  refine ⟨fun id hid => ?_, fun u hu => ?_, fun u hu hid => ?_, ?_, hrandom.trans hpushed.fixed⟩
  · refine halive id (hpushed.referred id hid) fun s hs hunneeded heq => ?_
    -- a flagged state is not released
    have hflag := h.flagged s (mem_append_right _ hs) (heq ▸ hid)
    rw [hunneeded.2] at hflag
    cases hflag
  · have hu₁ : u ∈ σ₁.held ++ [] ++ σ₁.getCompletedStates := by
      rw [append_nil, mem_append] at hu ⊢
      rcases hu with hu | hu
      · exact .inl (hheld ▸ hu)
      · exact .inr (hsub.subset hu)
    refine halive u.uid (hpushed.alive u hu₁) fun s hs hunneeded heq => ?_
    rw [append_nil, mem_append] at hu
    rcases hu with hu | hu
    · -- what is released was completed and not held
      obtain ⟨t, ht, hts⟩ := hcompleted s hs (hdone _ hunneeded.1)
      rw [map_append, nodup_append] at hnodup
      exact hnodup.2.2 _ (mem_map_of_mem (hheld ▸ hu)) _ (mem_map_of_mem ht) (heq.trans hts.symm)
    · exact hgone u hu s hs hunneeded heq
  · rw [append_nil, hheld] at hu
    exact hpushed.flagged u (by simpa using hu) hid
  · rw [append_nil, hheld]
    exact hnodup.sublist (((Sublist.refl _).append hsub).map _)

/-- A new searcher holds nothing. -/
theorem of_new (option : SearcherOption) (hreferred : ∀ id, refers id → id ∈ a.aliveStates)
    (halive : ∀ s ∈ inUse, s.uid ∈ a.aliveStates)
    (hflagged : ∀ s ∈ inUse, refers s.uid → s.triggerNewIssue = true)
    (hnodup : (inUse.map State.uid).Nodup) : Retains a refers option.searcher inUse := by
  have hheld : option.searcher.held = [] := by
    cases option <;> rfl
  have hcompleted : option.searcher.getCompletedStates = [] := by
    cases option <;> rfl
  constructor
  · exact hreferred
  · simpa [hheld, hcompleted] using halive
  · simpa [hheld] using hflagged
  · simpa [hheld, hcompleted] using hnodup
  · cases option <;> rfl

/-- When a searcher is given up, what is referred to stays alive. -/
theorem drop (h : Retains a refers σ inUse) (option : SearcherOption) :
    Retains a refers option.searcher [] :=
  of_new option h.referred (by simp) (by simp) nodup_nil

end Retains

end Klc3
