import Klc3.Lib.Except
import Klc3.Lib.Tarjan
import Klc3.Model.LoopAnalyzer
import Mathlib.Data.Finset.Card

/-! `analysisSCC` finds the strongly connected components of a subgraph: its runs are derivations
of Tarjan's search, whose invariant says what roots and stack are in the end. -/

namespace Klc3

namespace SCCAnalysis

variable {fg : FlowGraph} {uncoverable : Nat → Bool} {s t u : SCCAnalysis} {v w : Word}

/-- The state of the search that an analysis is in. -/
def view (s : SCCAnalysis) : Tarjan.State Word where
  clock := s.dfsClock
  seen := fun x => s.ssg.info x ≠ none
  pre := fun x => ((s.ssg.info x).map DfsInfo.dfsPre).getD 0
  low := s.ssg.dfsLow
  root := s.ssg.getSCCRoot
  stack := s.tarjanStack
  blocks := s.ssg.loopBlockRoot

/-- The nodes that the analysis goes to from a node, in the order of the out edges. -/
def succ (fg : FlowGraph) (uncoverable : Nat → Bool) (ssg : SCCSubgraph) (v : Word) : List Word :=
  (fg.allOutEdges v).filterMap (target uncoverable ssg)

theorem target_congr {ssg ssg' : SCCSubgraph} (h : ssg'.nodes = ssg.nodes) :
    target uncoverable ssg' = target uncoverable ssg := by
  unfold target
  rw [h]

theorem mem_nodes_of_target {ssg : SCCSubgraph} {e : Nat × Edge}
    (h : target uncoverable ssg e = some w) : w ∈ ssg.nodes := by
  unfold target at h
  repeat' split at h
  all_goals first
    | (cases h; done)
    | (cases h; assumption)

/-! ## Steps -/

theorem view_enterNode (v : Word) (s : SCCAnalysis) : (s.enterNode v).view = s.view.enter v := by
  have hinfo : ∀ x, (s.enterNode v).ssg.info x =
      if x = v then some ⟨s.dfsClock + 1, s.dfsClock + 1, none⟩ else s.ssg.info x := fun _ => rfl
  unfold view Tarjan.State.enter SCCSubgraph.dfsLow SCCSubgraph.getSCCRoot
  simp only [hinfo]
  congr 1 <;> funext x <;> by_cases hx : x = v <;> simp [hx]

/-- `vInfo` is there when the out edges of `v` are scanned. -/
theorem view_lowerLow (s : SCCAnalysis) (v : Word) (n : Nat) :
    (view { s with ssg := s.ssg.lowerLow v n }) = s.view.lower v n := by
  unfold SCCSubgraph.lowerLow
  cases hv : s.ssg.info v with
  | none =>
    have hlow : s.view.low v = 0 := by
      unfold view SCCSubgraph.dfsLow
      simp [hv]
    unfold Tarjan.State.lower
    rw [hlow, Nat.zero_min, ← hlow, Function.update_eq_self]
  | some i =>
    have hinfo : ∀ x, (s.ssg.setInfo v { i with dfsLow := min i.dfsLow n }).info x =
        if x = v then some { i with dfsLow := min i.dfsLow n } else s.ssg.info x := fun _ => rfl
    unfold view Tarjan.State.lower SCCSubgraph.dfsLow SCCSubgraph.getSCCRoot
    simp only [hinfo]
    congr 1 <;> funext x <;> by_cases hx : x = v <;> simp [hx, hv]

theorem setRoot_info {ssg : SCCSubgraph} {v w : Word} (hw : ssg.info w ≠ none) (x : Word) :
    (ssg.setRoot v w).info x =
      if x = w then (ssg.info x).map fun i => { i with sccRoot := some v } else ssg.info x := by
  unfold SCCSubgraph.setRoot
  cases hinfo : ssg.info w with
  | none => exact absurd hinfo hw
  | some i =>
    by_cases hx : x = w
    · subst hx
      simp [SCCSubgraph.setInfo, hinfo]
    · simp [SCCSubgraph.setInfo, hx]

theorem setRoot_nodes (ssg : SCCSubgraph) (v w : Word) : (ssg.setRoot v w).nodes = ssg.nodes := by
  unfold SCCSubgraph.setRoot
  split <;> rfl

theorem setRoot_loopBlockRoot (ssg : SCCSubgraph) (v w : Word) :
    (ssg.setRoot v w).loopBlockRoot = ssg.loopBlockRoot := by
  unfold SCCSubgraph.setRoot
  split <;> rfl

/-- The stack is popped up to `v`, whose component this is. -/
theorem popSCC_spec {stack : List Word} {ssg : SCCSubgraph} {n : Nat} (hv : v ∈ stack)
    (hseen : ∀ x ∈ stack, ssg.info x ≠ none) :
    ∃ top rest ssg', stack = top ++ v :: rest ∧ v ∉ top ∧
      popSCC v stack ssg n = .ok (rest, ssg', n + top.length + 1) ∧
      ssg'.nodes = ssg.nodes ∧ ssg'.loopBlockRoot = ssg.loopBlockRoot ∧
      ∀ x, ssg'.info x = if x = v ∨ x ∈ top then
        (ssg.info x).map fun i => { i with sccRoot := some v } else ssg.info x := by
  induction stack generalizing ssg n with
  | nil => cases hv
  | cons w stack ih =>
    have hw := hseen w List.mem_cons_self
    unfold popSCC
    by_cases hvw : w = v
    · subst hvw
      refine ⟨[], stack, ssg.setRoot w w, rfl, nofun, ?_, setRoot_nodes _ _ _,
        setRoot_loopBlockRoot _ _ _, fun x => ?_⟩
      · rw [if_neg (not_not.2 rfl)]
        rfl
      · rw [setRoot_info hw]
        simp
    · have hseen' : ∀ x ∈ stack, (ssg.setRoot v w).info x ≠ none := by
        intro x hx
        rw [setRoot_info hw]
        have := hseen x (List.mem_cons_of_mem _ hx)
        split <;> simpa using this
      obtain ⟨top, rest, ssg', hstack, hnot, hpop, hnodes, hblocks, hinfo⟩ :=
        ih (n := n + 1) ((List.mem_cons.1 hv).resolve_left (Ne.symm hvw)) hseen'
      refine ⟨w :: top, rest, ssg', by rw [hstack]; rfl, ?_, ?_, ?_, ?_, fun x => ?_⟩
      · rw [List.mem_cons, not_or]
        exact ⟨Ne.symm hvw, hnot⟩
      · rw [if_pos hvw, hpop, List.length_cons]
        congr 3
        omega
      · exact hnodes.trans (setRoot_nodes _ _ _)
      · exact hblocks.trans (setRoot_loopBlockRoot _ _ _)
      · rw [hinfo, setRoot_info hw]
        by_cases hxw : x = w
        · subst hxw
          by_cases htop : x ∈ top <;> simp [hvw, htop, Function.comp_def]
        · simp [hxw]

theorem view_close {top rest : List Word} (hclock : u.dfsClock = s.dfsClock)
    (hstack : u.tarjanStack = rest)
    (hinfo : ∀ x, u.ssg.info x = if x = v ∨ x ∈ top then
      (s.ssg.info x).map fun i => { i with sccRoot := some v } else s.ssg.info x)
    (hblocks : u.ssg.loopBlockRoot =
      if top = [] then s.ssg.loopBlockRoot else v :: s.ssg.loopBlockRoot)
    (hseen : ∀ x, x = v ∨ x ∈ top → s.view.seen x) : u.view = s.view.close v top rest := by
  refine Tarjan.State.ext hclock (funext fun x => ?_) (funext fun x => ?_) (funext fun x => ?_)
    (funext fun x => ?_) hstack hblocks
  · change (u.ssg.info x ≠ none) = (s.ssg.info x ≠ none)
    rw [hinfo]
    split <;> simp
  · change ((u.ssg.info x).map DfsInfo.dfsPre).getD 0 = ((s.ssg.info x).map DfsInfo.dfsPre).getD 0
    rw [hinfo]
    split <;> simp [Function.comp_def]
  · change ((u.ssg.info x).map DfsInfo.dfsLow).getD 0 = ((s.ssg.info x).map DfsInfo.dfsLow).getD 0
    rw [hinfo]
    split <;> simp [Function.comp_def]
  · change (u.ssg.info x).bind DfsInfo.sccRoot =
      if x = v ∨ x ∈ top then some v else (s.ssg.info x).bind DfsInfo.sccRoot
    rw [hinfo]
    by_cases hx : x = v ∨ x ∈ top
    · rw [if_pos hx, if_pos hx]
      obtain ⟨i, hi⟩ := Option.ne_none_iff_exists'.1 (hseen x hx)
      rw [hi]
      rfl
    · rw [if_neg hx, if_neg hx]

/-- `closeSCC` finishes a vertex as the search does. -/
theorem closeSCC_spec (hv : v ∈ s.tarjanStack) (hseen : ∀ x ∈ s.tarjanStack, s.view.seen x) :
    ∃ u, closeSCC v s = .ok u ∧ Tarjan.Finish v s.view u.view ∧ u.ssg.nodes = s.ssg.nodes := by
  unfold closeSCC
  cases hinfo : s.ssg.info v with
  | none => exact absurd hinfo (hseen v hv)
  | some i =>
    have hpre : s.view.pre v = i.dfsPre := by simp [view, hinfo]
    have hlow : s.view.low v = i.dfsLow := by simp [view, SCCSubgraph.dfsLow, hinfo]
    dsimp only
    split
    · rename_i heq
      obtain ⟨top, rest, ssg', hstack, hnot, hpop, hnodes, hblocks, hinfo'⟩ :=
        popSCC_spec (n := 0) hv hseen
      rw [hpop]
      have hclose := Tarjan.Finish.close (s := s.view) (by rw [hlow, hpre, heq]) hstack hnot
      refine ⟨_, rfl, Eq.mpr (congrArg (Tarjan.Finish v s.view)
        (view_close (s := s) rfl rfl (fun x => ?_) ?_ fun x hx => ?_)) hclose, ?_⟩
      · rw [← hinfo']
        dsimp only
        split <;> rfl
      · dsimp only
        cases top <;> simp [hblocks]
      · refine hseen x ?_
        rw [hstack, List.mem_append, List.mem_cons]
        exact hx.elim (fun h => .inr (.inl h)) .inl
      · dsimp only
        split <;> exact hnodes
    · rename_i hne
      refine ⟨s, rfl, .keep ?_, rfl⟩
      rw [hlow, hpre]
      exact hne

/-! ## Runs -/

/-- The nodes that are not visited yet. -/
def unseen (s : SCCAnalysis) : Finset Word :=
  s.ssg.nodes.toFinset.filter fun x => s.ssg.info x = none

theorem mem_unseen {x : Word} : x ∈ s.unseen ↔ x ∈ s.ssg.nodes ∧ s.ssg.info x = none := by
  simp [unseen]

theorem unseen_subset (hnodes : t.ssg.nodes = s.ssg.nodes) (hext : Tarjan.Extends s.view t.view) :
    t.unseen ⊆ s.unseen := by
  intro x hx
  rw [mem_unseen, hnodes] at hx
  refine mem_unseen.2 ⟨hx.1, ?_⟩
  by_contra hseen
  exact hext.seen x hseen hx.2

theorem unseen_enterNode_lt (hv : v ∈ s.ssg.nodes) (hnew : s.ssg.info v = none) :
    (s.enterNode v).unseen.card < s.unseen.card := by
  have hext : Tarjan.Extends s.view (s.enterNode v).view := by
    rw [view_enterNode]
    exact Tarjan.enter_extends (not_not.2 hnew)
  have hsubset : (s.enterNode v).unseen ⊆ s.unseen := unseen_subset rfl hext
  refine Finset.card_lt_card ((Finset.ssubset_iff_of_subset hsubset).2 ⟨v, ?_⟩)
  refine ⟨mem_unseen.2 ⟨hv, hnew⟩, fun hmem => ?_⟩
  have hinfo : (s.enterNode v).ssg.info v = none := (mem_unseen.1 hmem).2
  rw [show (s.enterNode v).ssg.info v = some _ from if_pos rfl] at hinfo
  cases hinfo

/-- A search over the nodes of `base` that succeeds when at most `fuel` nodes are unseen. -/
def Works (fg : FlowGraph) (uncoverable : Nat → Bool) (base : SCCSubgraph) (fuel : Nat)
    (dfs : Word → SCCAnalysis → Except Abort SCCAnalysis) : Prop :=
  ∀ gray v s, s.ssg.nodes = base.nodes → Tarjan.Inv (succ fg uncoverable base) gray s.view →
    (∀ g ∈ gray, Tarjan.Reaches (succ fg uncoverable base) g v) → v ∈ base.nodes →
    s.ssg.info v = none → s.unseen.card ≤ fuel →
    ∃ u, dfs v s = .ok u ∧ Tarjan.Search (succ fg uncoverable base) (.visit v) s.view u.view ∧
      u.ssg.nodes = base.nodes

variable {base : SCCSubgraph} {fuel : Nat}
  {dfs : Word → SCCAnalysis → Except Abort SCCAnalysis} {gray : List Word}

/-- An out edge is scanned as the search does. -/
theorem scanEdge_spec (hdfs : Works fg uncoverable base fuel dfs) {e : Nat × Edge}
    (hnodes : s.ssg.nodes = base.nodes)
    (hinv : Tarjan.Inv (succ fg uncoverable base) (v :: gray) s.view)
    (hreach : ∀ g ∈ gray, Tarjan.Reaches (succ fg uncoverable base) g v)
    (he : e ∈ fg.allOutEdges v) (hfuel : s.unseen.card ≤ fuel) :
    ∃ u, scanEdge uncoverable dfs v s e = .ok u ∧
      Tarjan.Search (succ fg uncoverable base) (.scan v (target uncoverable base e).toList)
        s.view u.view ∧ u.ssg.nodes = base.nodes := by
  unfold scanEdge
  rw [target_congr hnodes]
  cases htarget : target uncoverable base e with
  | none => exact ⟨s, rfl, .nil, hnodes⟩
  | some w =>
    have hw : w ∈ succ fg uncoverable base v := List.mem_filterMap.2 ⟨e, he, htarget⟩
    dsimp only
    cases hinfo : s.ssg.info w with
    | none =>
      have hreach' : ∀ g ∈ v :: gray, Tarjan.Reaches (succ fg uncoverable base) g w := by
        intro g hg
        rcases List.mem_cons.1 hg with rfl | hg
        · exact .single hw
        · exact (hreach g hg).tail hw
      obtain ⟨t, ht, hsearch, hnodes'⟩ :=
        hdfs (v :: gray) w s hnodes hinv hreach' (mem_nodes_of_target htarget) hinfo hfuel
      rw [ht]
      refine ⟨_, rfl, .fresh (not_not.2 hinfo) hsearch ?_, ?_⟩
      · rw [view_lowerLow]
        exact .nil
      · unfold SCCSubgraph.lowerLow
        dsimp only
        split <;> exact hnodes'
    | some i =>
      have hseen : s.view.seen w := by
        intro hnone
        cases hinfo.symm.trans hnone
      have hroot : s.view.root w = i.sccRoot := by simp [view, SCCSubgraph.getSCCRoot, hinfo]
      dsimp only
      split
      · rename_i hopen
        refine ⟨_, rfl, .onStack hseen (hroot.trans hopen) ?_, ?_⟩
        · have hpre : s.view.pre w = i.dfsPre := by simp [view, hinfo]
          rw [view_lowerLow, hpre]
          exact .nil
        · unfold SCCSubgraph.lowerLow
          dsimp only
          split <;> exact hnodes
      · rename_i hclosed
        exact ⟨s, rfl, .closed hseen (by rwa [hroot]) .nil, hnodes⟩

/-- `tarjanDFS` is a search that comes to its end. -/
theorem tarjanDFS_works (fg : FlowGraph) (uncoverable : Nat → Bool) (base : SCCSubgraph)
    (fuel : Nat) : Works fg uncoverable base fuel (tarjanDFS fg uncoverable fuel) := by
  induction fuel with
  | zero =>
    intro gray v s hnodes _ _ hv hnew hfuel
    have hmem : v ∈ s.unseen := mem_unseen.2 ⟨hnodes ▸ hv, hnew⟩
    exact absurd hfuel (Nat.not_le.2 (Finset.card_pos.2 ⟨v, hmem⟩))
  | succ fuel ih =>
    intro gray v s hnodes hinv hreach hv hnew hfuel
    have hnew' : ¬s.view.seen v := not_not.2 hnew
    have henter := hinv.enter hnew' hreach
    have hlow := Tarjan.enter_lowInv (v := v) hinv
    rw [← view_enterNode] at henter hlow
    have hlt := unseen_enterNode_lt (hnodes ▸ hv) hnew
    -- What is known after some of the out edges.
    have hscanned : ∀ {done : List (Nat × Edge)} {t : SCCAnalysis}, done ⊆ fg.allOutEdges v →
        Tarjan.Search (succ fg uncoverable base) (.scan v (done.filterMap (target uncoverable base)))
          (s.enterNode v).view t.view →
        Tarjan.Scanned (succ fg uncoverable base) gray v (done.filterMap (target uncoverable base))
          (s.enterNode v).view t.view := by
      intro done t hdone hsearch
      refine hsearch.spec gray henter hreach hlow fun w hw => ?_
      obtain ⟨e, he, htarget⟩ := List.mem_filterMap.1 hw
      exact List.mem_filterMap.2 ⟨e, hdone he, htarget⟩
    have hfold : ∃ t, (fg.allOutEdges v).foldlM
          (scanEdge uncoverable (tarjanDFS fg uncoverable fuel) v) (s.enterNode v) = .ok t ∧
        Tarjan.Search (succ fg uncoverable base) (.scan v (succ fg uncoverable base v))
          (s.enterNode v).view t.view ∧ t.ssg.nodes = base.nodes := by
      refine Except.foldlM_isOk_split (motive := fun done (t : SCCAnalysis) =>
        Tarjan.Search (succ fg uncoverable base) (.scan v (done.filterMap (target uncoverable base)))
          (s.enterNode v).view t.view ∧ t.ssg.nodes = base.nodes) ⟨.nil, hnodes⟩ ?_
      rintro done e rest t hsplit ⟨hsearch, hnodes'⟩
      have hsub : done ⊆ fg.allOutEdges v := hsplit ▸ List.subset_append_left _ _
      have he : e ∈ fg.allOutEdges v := hsplit ▸ List.mem_append_right _ List.mem_cons_self
      have hpart := hscanned hsub hsearch
      have hle : t.unseen.card ≤ fuel := by
        have hsubset : t.unseen ⊆ (s.enterNode v).unseen :=
          unseen_subset (hnodes'.trans hnodes.symm) hpart.ext
        have hcard := Finset.card_le_card hsubset
        omega
      obtain ⟨u, hu, hstep, hnodes''⟩ := scanEdge_spec ih hnodes' hpart.inv hreach he hle
      refine ⟨u, hu, ?_, hnodes''⟩
      have hsingle : [e].filterMap (target uncoverable base) =
          (target uncoverable base e).toList := by
        cases htarget : target uncoverable base e <;> simp [htarget]
      rw [List.filterMap_append, hsingle]
      exact hsearch.append hstep
    obtain ⟨t, hfold, hsearch, hnodes'⟩ := hfold
    have hall := hscanned (List.Subset.refl _) hsearch
    have hstack : v ∈ t.tarjanStack := hall.inv.active v List.mem_cons_self
    obtain ⟨u, hu, hfinish, hnodes''⟩ :=
      closeSCC_spec hstack fun x hx => ((hall.inv.onStack x).1 hx).1
    refine ⟨u, ?_, ?_, hnodes''.trans hnodes'⟩
    · unfold tarjanDFS
      rw [hfold]
      exact hu
    · rw [view_enterNode] at hsearch
      exact .visit hnew' hsearch hfinish

/-- What is known of an analysis after some of the nodes. -/
structure Between (fg : FlowGraph) (uncoverable : Nat → Bool) (base : SCCSubgraph)
    (done : List Word) (s : SCCAnalysis) : Prop where
  nodes : s.ssg.nodes = base.nodes
  inv : Tarjan.Inv (succ fg uncoverable base) [] s.view
  seen : ∀ x ∈ done, s.view.seen x
  within : ∀ x, s.view.seen x → x ∈ base.nodes

/-- Every node is visited in the end. -/
theorem analysisSCC_between (fg : FlowGraph) (uncoverable : Nat → Bool) {s : SCCAnalysis}
    (h : s.tarjanStack = []) :
    ∃ u, analysisSCC fg uncoverable s = .ok u ∧
      Between fg uncoverable s.ssg s.ssg.nodes u := by
  unfold analysisSCC
  rw [if_neg (not_not.2 h)]
  refine Except.foldlM_isOk_split (motive := Between fg uncoverable s.ssg) ?_ ?_
  · refine ⟨rfl, ?_, nofun, fun x hx => absurd rfl hx⟩
    exact Tarjan.inv_of_not_seen (fun x hx => hx rfl) (fun _ => rfl) h rfl
  · intro done v rest t hsplit ht
    have hv : v ∈ s.ssg.nodes := hsplit ▸ List.mem_append_right _ List.mem_cons_self
    by_cases hnew : t.ssg.info v = none
    · rw [if_pos hnew]
      have hfuel : t.unseen.card ≤ t.ssg.nodes.length :=
        (Finset.card_filter_le _ _).trans (List.toFinset_card_le _)
      obtain ⟨u, hu, hsearch, hnodes⟩ := tarjanDFS_works fg uncoverable s.ssg t.ssg.nodes.length []
        v t ht.nodes ht.inv nofun hv hnew hfuel
      have hvisited := hsearch.visited ht.inv
      refine ⟨u, hu, hnodes, hvisited.inv, fun x hx => ?_, ?_⟩
      · rcases List.mem_append.1 hx with hx | hx
        · exact hvisited.ext.seen x (ht.seen x hx)
        · obtain rfl := List.mem_singleton.1 hx
          exact hvisited.seen
      · have hclosed : ∀ x ∈ s.ssg.nodes, ∀ y ∈ succ fg uncoverable s.ssg x, y ∈ s.ssg.nodes := by
          intro x _ y hy
          obtain ⟨e, -, htarget⟩ := List.mem_filterMap.1 hy
          exact mem_nodes_of_target htarget
        refine hsearch.seen_of hclosed (fun w hw => ?_) ht.within
        rcases List.mem_cons.1 hw with rfl | hw
        · exact hv
        · exact hclosed v hv w hw
    · rw [if_neg hnew]
      refine ⟨t, rfl, ht.nodes, ht.inv, fun x hx => ?_, ht.within⟩
      rcases List.mem_append.1 hx with hx | hx
      · exact ht.seen x hx
      · obtain rfl := List.mem_singleton.1 hx
        exact hnew

/-! ## Components -/

/-- An edge inside the subgraph that is neither a call, nor a virtual edge of a loop, nor flagged
`LIKELY_UNCOVERABLE`. -/
def InnerEdge (fg : FlowGraph) (uncoverable : Nat → Bool) (ssg : SCCSubgraph) (x y : Word) :
    Prop :=
  x ∈ ssg.nodes ∧ y ∈ ssg.nodes ∧ ∃ i e, fg.edges[i]? = some e ∧ e.src = some x ∧
    e.dst = some y ∧ e.type ∉ [EdgeType.jsr, .jsrr, .loopH2H, .loopH2X] ∧ uncoverable i = false

/-- `y` can be reached from `x` inside the subgraph. -/
abbrev InnerPath (fg : FlowGraph) (uncoverable : Nat → Bool) (ssg : SCCSubgraph) :
    Word → Word → Prop :=
  Relation.ReflTransGen (InnerEdge fg uncoverable ssg)

theorem mem_allOutEdges {fg : FlowGraph} {v : Word} {i : Nat} {e : Edge} :
    (i, e) ∈ fg.allOutEdges v ↔ fg.edges[i]? = some e ∧ e.src = some v := by
  unfold FlowGraph.allOutEdges
  rw [List.mem_filterMap]
  constructor
  · rintro ⟨⟨e', j⟩, hmem, h⟩
    dsimp only at h
    split at h
    · rename_i hsrc
      cases h
      exact ⟨List.mem_zipIdx_iff_getElem?.1 hmem, hsrc⟩
    · cases h
  · rintro ⟨hget, hsrc⟩
    exact ⟨(e, i), List.mem_zipIdx_iff_getElem?.2 hget, if_pos hsrc⟩

theorem target_eq_some_iff {ssg : SCCSubgraph} {i : Nat} {e : Edge} :
    target uncoverable ssg (i, e) = some w ↔ e.dst = some w ∧ w ∈ ssg.nodes ∧
      e.type ∉ [EdgeType.jsr, .jsrr, .loopH2H, .loopH2X] ∧ uncoverable i = false := by
  unfold target
  dsimp only
  by_cases hcall : e.type = .jsr ∨ e.type = .jsrr
  · rw [if_pos hcall]
    refine iff_of_false nofun fun h => h.2.2.1 ?_
    rcases hcall with h | h <;> simp [h]
  · rw [if_neg hcall]
    by_cases hloop : e.type = .loopH2H ∨ e.type = .loopH2X
    · rw [if_pos hloop]
      refine iff_of_false nofun fun h => h.2.2.1 ?_
      rcases hloop with h | h <;> simp [h]
    · rw [if_neg hloop]
      have htype : e.type ∉ [EdgeType.jsr, .jsrr, .loopH2H, .loopH2X] := by
        rw [not_or] at hcall hloop
        simp [hcall, hloop]
      by_cases hflag : uncoverable i = true
      · rw [if_pos hflag]
        exact iff_of_false nofun fun h => Bool.noConfusion (hflag.symm.trans h.2.2.2)
      · rw [if_neg hflag]
        cases hdst : e.dst with
        | none => exact iff_of_false nofun fun h => nomatch h.1
        | some x =>
          dsimp only
          by_cases hx : x ∈ ssg.nodes
          · rw [if_pos hx]
            constructor
            · intro h
              cases h
              exact ⟨rfl, hx, htype, by simpa using hflag⟩
            · exact fun h => h.1
          · rw [if_neg hx]
            refine iff_of_false nofun fun h => hx ?_
            rw [Option.some.inj h.1]
            exact h.2.1

theorem innerEdge_iff {ssg : SCCSubgraph} (hv : v ∈ ssg.nodes) :
    InnerEdge fg uncoverable ssg v w ↔ w ∈ succ fg uncoverable ssg v := by
  unfold InnerEdge succ
  rw [List.mem_filterMap]
  constructor
  · rintro ⟨-, hw, i, e, hget, hsrc, hdst, htype, hflag⟩
    exact ⟨(i, e), mem_allOutEdges.2 ⟨hget, hsrc⟩, target_eq_some_iff.2 ⟨hdst, hw, htype, hflag⟩⟩
  · rintro ⟨⟨i, e⟩, hmem, htarget⟩
    obtain ⟨hget, hsrc⟩ := mem_allOutEdges.1 hmem
    obtain ⟨hdst, hw, htype, hflag⟩ := target_eq_some_iff.1 htarget
    exact ⟨hv, hw, i, e, hget, hsrc, hdst, htype, hflag⟩

theorem innerPath_iff {ssg : SCCSubgraph} (hv : v ∈ ssg.nodes) :
    InnerPath fg uncoverable ssg v w ↔ Tarjan.Reaches (succ fg uncoverable ssg) v w := by
  constructor
  · intro h
    exact Relation.ReflTransGen.mono (fun x y hedge => (innerEdge_iff hedge.1).1 hedge) _ _ h
  · intro h
    suffices w ∈ ssg.nodes ∧ InnerPath fg uncoverable ssg v w from this.2
    induction h with
    | refl => exact ⟨hv, .refl⟩
    | tail _ hedge ih =>
      have hinner := (innerEdge_iff ih.1).2 hedge
      exact ⟨hinner.2.1, ih.2.tail hinner⟩

end SCCAnalysis

/-- The analysis ends with an empty stack, a root for every node, the same one exactly for nodes
that reach each other inside the subgraph, and the roots of the components with more than one
node. -/
theorem analysisSCC_components (fg : FlowGraph) (uncoverable : Nat → Bool) {s : SCCAnalysis}
    (h : s.tarjanStack = []) :
    ∃ u, SCCAnalysis.analysisSCC fg uncoverable s = .ok u ∧
      u.tarjanStack = [] ∧ u.ssg.nodes = s.ssg.nodes ∧
      (∀ x ∈ s.ssg.nodes, ∃ r ∈ s.ssg.nodes, u.ssg.getSCCRoot x = some r) ∧
      (∀ x ∈ s.ssg.nodes, ∀ y ∈ s.ssg.nodes,
        (u.ssg.getSCCRoot x = u.ssg.getSCCRoot y ↔
          SCCAnalysis.InnerPath fg uncoverable s.ssg x y ∧
            SCCAnalysis.InnerPath fg uncoverable s.ssg y x)) ∧
      ∀ r, r ∈ u.ssg.loopBlockRoot ↔
        ∃ x ∈ s.ssg.nodes, ∃ y ∈ s.ssg.nodes, x ≠ y ∧
          u.ssg.getSCCRoot x = some r ∧ u.ssg.getSCCRoot y = some r := by
  obtain ⟨u, hu, hbetween⟩ := SCCAnalysis.analysisSCC_between fg uncoverable h
  have hwithin : ∀ {x r}, u.ssg.getSCCRoot x = some r → x ∈ s.ssg.nodes := by
    intro x r hroot
    refine hbetween.within x (hbetween.inv.seen x ?_)
    rw [show u.view.root x = some r from hroot]
    exact Option.some_ne_none r
  refine ⟨u, hu, hbetween.inv.stack_eq_nil, hbetween.nodes, ?_, ?_, ?_⟩
  · intro x hx
    obtain ⟨r, hr⟩ := Option.ne_none_iff_exists'.1
      (hbetween.inv.root_ne_none (hbetween.seen x hx))
    exact ⟨r, hwithin (hbetween.inv.root x r hr), hr⟩
  · intro x hx y hy
    rw [SCCAnalysis.innerPath_iff hx, SCCAnalysis.innerPath_iff hy]
    exact hbetween.inv.root_eq_iff (hbetween.seen x hx) (hbetween.seen y hy)
  · intro r
    refine (hbetween.inv.blocks r).trans ?_
    constructor
    · rintro ⟨x, hne, hx⟩
      have hr := hbetween.inv.root x r hx
      exact ⟨x, hwithin hx, r, hwithin hr, hne, hx, hr⟩
    · rintro ⟨x, -, y, -, hne, hx, hy⟩
      by_cases hxr : x = r
      · exact ⟨y, fun hyr => hne (hxr.trans hyr.symm), hy⟩
      · exact ⟨x, hxr, hx⟩

/-- Two nodes with an edge in both directions. -/
theorem analysisSCC_cycle :
    ∃ u, SCCAnalysis.analysisSCC
        ⟨[], [⟨.normal, some 0, some 1, false, false, none⟩,
          ⟨.normal, some 1, some 0, false, false, none⟩], 0, none, none⟩ (fun _ => false)
        ⟨0, [], ⟨[0, 1], fun _ => none, []⟩⟩ = .ok u ∧
      u.ssg.getSCCRoot 0 = u.ssg.getSCCRoot 1 := by
  obtain ⟨u, hu, -, -, -, hroot, -⟩ := analysisSCC_components
    ⟨[], [⟨.normal, some 0, some 1, false, false, none⟩,
      ⟨.normal, some 1, some 0, false, false, none⟩], 0, none, none⟩ (fun _ => false)
    (s := ⟨0, [], ⟨[0, 1], fun _ => none, []⟩⟩) rfl
  refine ⟨u, hu, (hroot 0 (by simp) 1 (by simp)).2 ⟨.single ?_, .single ?_⟩⟩
  · exact ⟨by simp, by simp, 0, _, rfl, rfl, rfl, by simp, rfl⟩
  · exact ⟨by simp, by simp, 1, _, rfl, rfl, rfl, by simp, rfl⟩

end Klc3
