import Klc3.Verification.FlowGraph.Exits

/-!
# Edges of returns

What `setUpEntryExitPairs` constructs for every call out of the exits that have been
recorded, and when these are all exits.
-/

namespace Klc3

namespace FlowGraph

variable {fg : FlowGraph} {X : Word → Option (List Word)}

/-- The edge from an exit, associated with the edge of the call. -/
def exitEdge (k : Nat) (retTo exit : Word) : Edge :=
  ⟨.ret, some exit, some retTo, false, false, some k⟩

/-- The edges from some exits to behind a call, when there is a node. -/
def exitEdges (fg : FlowGraph) (k : Nat) (src : Word) (exits : List Word) : List Edge :=
  (fg.behind src).flatMap fun retTo => exits.map (exitEdge k retTo)

/-- The edges that belong to an edge, when its callee has the exits `X`. -/
def pairEdges (fg : FlowGraph) (X : Word → Option (List Word)) (x : Edge × Nat) : List Edge :=
  if x.1.type = .jsr ∨ x.1.type = .jsrr then
    (x.1.src.bind fun src => (x.1.dst.bind X).map fun exits => fg.exitEdges x.2 src exits).getD []
  else []

/-- Where the search begins. -/
def mainStart (fg : FlowGraph) : List (Word × Word) :=
  if (fg.getNodeByAddr fg.initPC).isSome then [(fg.initPC, fg.initPC)] else []

end FlowGraph

namespace FlowAnalysis

variable {fa fa' : FlowAnalysis} {fg : FlowGraph} {k : Nat} {e : Edge}

theorem newExitEdges_spec (fg : FlowGraph) (k : Nat) (retTo : Word) (exits : List Word) :
    (newExitEdges fg k retTo exits).1.edges = fg.edges ++ exits.map (FlowGraph.exitEdge k retTo) ∧
      (newExitEdges fg k retTo exits).1.nodes = fg.nodes ∧
      (newExitEdges fg k retTo exits).1.initPC = fg.initPC := by
  induction exits generalizing fg with
  | nil => simp [newExitEdges]
  | cons exit exits ih =>
      obtain ⟨hedges, hnodes, hinit⟩ := ih (fg.newEdge (some exit) (some retTo) .ret (some k)).1
      refine ⟨?_, hnodes, hinit⟩
      change (newExitEdges (fg.newEdge (some exit) (some retTo) .ret (some k)).1 k retTo
        exits).1.edges = _
      rw [hedges, List.map_cons, List.append_cons]
      rfl

/-- The pairs of a subroutine that grow by the pair of one edge. -/
theorem lookup_addPair {f : FlowAnalysis} {dst : Word} {info : SubroutineInfo} {es : List Nat}
    (hf : f.subroutines = fa.subroutines) (hinfo : fa.subroutines.lookup dst = some info) :
    (∀ c, ((f.setSubroutine dst
        { info with eePairs := info.eePairs ++ [(k, es)] }).subroutines.lookup c).map
          SubroutineInfo.exits = (fa.subroutines.lookup c).map SubroutineInfo.exits) ∧
    ∀ c info' k', (f.setSubroutine dst
        { info with eePairs := info.eePairs ++ [(k, es)] }).subroutines.lookup c = some info' →
      (info'.eePairs.lookup k').isSome →
      k' = k ∨ ∃ info, fa.subroutines.lookup c = some info ∧ (info.eePairs.lookup k').isSome := by
  refine ⟨fun c => ?_, fun c info' k' hinfo' hpair => ?_⟩
  · rw [lookup_setSubroutine, hf]
    split
    · rename_i heq
      rw [heq, hinfo]
      rfl
    · rfl
  · rw [lookup_setSubroutine, hf] at hinfo'
    split at hinfo'
    · rename_i heq
      cases hinfo'
      by_cases hk : k' = k
      · exact .inl hk
      · refine .inr ⟨info, heq ▸ hinfo, ?_⟩
        rw [List.lookup_isSome_iff] at hpair ⊢
        obtain ⟨p, hp, hkey⟩ := hpair
        rcases List.mem_append.1 hp with hp | hp
        · exact ⟨p, hp, hkey⟩
        · rw [List.mem_singleton.1 hp] at hkey
          exact absurd (beq_iff_eq.1 hkey) hk
    · exact .inr ⟨info', hinfo', hpair⟩

/-- What `setUpEntryExitPairs` does for one edge. -/
theorem setUpEntryExitPairs_eq_ok (hget : fa.fg.edges[k]? = some e)
    (h : fa.setUpEntryExitPairs (some k) = .ok fa') :
    ∃ src dst info, e.src = some src ∧ e.dst = some dst ∧ fa.subroutines.lookup dst = some info ∧
      src ≠ 0xFFFF ∧ fa'.fg.edges = fa.fg.edges ++ fa.fg.exitEdges k src info.exits ∧
      fa'.fg.nodes = fa.fg.nodes ∧ fa'.fg.initPC = fa.fg.initPC ∧
      (∀ c, (fa'.subroutines.lookup c).map SubroutineInfo.exits =
        (fa.subroutines.lookup c).map SubroutineInfo.exits) ∧
      ∀ c info' k', fa'.subroutines.lookup c = some info' → (info'.eePairs.lookup k').isSome →
        k' = k ∨ ∃ info, fa.subroutines.lookup c = some info ∧ (info.eePairs.lookup k').isSome := by
  unfold setUpEntryExitPairs at h
  rw [Option.bind_some, hget, Option.map_some] at h
  obtain ⟨type, src, dst, covered, improper, assoc⟩ := e
  cases src with
  | none => cases h
  | some src =>
    cases dst with
    | none => cases h
    | some dst =>
      dsimp only at h
      split at h
      · cases h
      rename_i info hinfo
      refine ⟨src, dst, info, rfl, rfl, hinfo, ?_⟩
      unfold FlowGraph.exitEdges
      split at h
      · cases h
      obtain ⟨retTo, hretTo, h⟩ := Except.bind_eq_ok_iff.1 h
      obtain ⟨hlast, hbehind⟩ := FlowGraph.getRetToNode_eq_ok.1 hretTo
      rw [hbehind]
      cases retTo with
      | some next =>
          cases h
          obtain ⟨hedges, hnodes, hinit⟩ := newExitEdges_spec fa.fg k next info.exits
          rw [Option.toList_some, List.flatMap_singleton]
          exact ⟨hlast, hedges, hnodes, hinit, lookup_addPair rfl hinfo⟩
      | none =>
          cases h
          rw [Option.toList_none, List.flatMap_nil, List.append_nil]
          exact ⟨hlast, rfl, rfl, rfl, lookup_addPair rfl hinfo⟩

theorem setUpEntryExitPairs_isOk {src dst : Word} {info : SubroutineInfo}
    (hget : fa.fg.edges[k]? = some e) (hsrc : e.src = some src) (hdst : e.dst = some dst)
    (hinfo : fa.subroutines.lookup dst = some info) (hnew : info.eePairs.lookup k = none)
    (hlast : src ≠ 0xFFFF) : ∃ fa', fa.setUpEntryExitPairs (some k) = .ok fa' := by
  obtain ⟨type, src, dst, covered, improper, assoc⟩ := e
  cases hsrc
  cases hdst
  unfold setUpEntryExitPairs
  rw [Option.bind_some, hget, Option.map_some]
  dsimp only
  rw [hinfo]
  dsimp only
  rw [hnew, if_neg (by simp)]
  have hretTo : ∃ retTo, fa.fg.getRetToNode src = .ok retTo := by
    unfold FlowGraph.getRetToNode
    rw [if_neg hlast]
    split <;> exact ⟨_, rfl⟩
  obtain ⟨retTo, hretTo⟩ := hretTo
  rw [hretTo, Except.ok_bind']
  cases retTo <;> exact ⟨_, rfl⟩

/-- The graph after the edges `done` have been looked at. -/
structure Pairs (fg : FlowGraph) (X : Word → Option (List Word)) (done : List (Edge × Nat))
    (fa : FlowAnalysis) : Prop where
  nodes : fa.fg.nodes = fg.nodes
  initPC : fa.fg.initPC = fg.initPC
  exits : ∀ c, (fa.subroutines.lookup c).map SubroutineInfo.exits = X c
  edges : fa.fg.edges = fg.edges ++ done.flatMap (fg.pairEdges X)
  keys : ∀ c info k, fa.subroutines.lookup c = some info → (info.eePairs.lookup k).isSome →
    ∃ x ∈ done, x.2 = k
  within : ∀ x ∈ done, x.1.type = .jsr ∨ x.1.type = .jsrr → x.1.src = some 0xFFFF →
    ∀ dst, x.1.dst = some dst → X dst = none

/-- What the loop over the edges does with one of them. -/
def pairStep (fa : FlowAnalysis) (x : Edge × Nat) : Except Abort FlowAnalysis :=
  if x.1.type = .jsr ∨ x.1.type = .jsrr then
    match x.1.dst with
    | none => throw .nullDeref
    | some dst =>
      if (fa.subroutines.lookup dst).isNone then pure fa
      else fa.setUpEntryExitPairs (some x.2)
  else pure fa

theorem colorFlowGraph_eq (fa : FlowAnalysis) : fa.colorFlowGraph =
    if (fa.fg.getNodeByAddr fa.fg.initPC).isNone then pure fa
    else (fa.setSubroutine fa.fg.initPC ⟨fa.fg.initPC, fa.fg.initPC, [], []⟩).color
      fa.fg.initPC fa.fg.initPC >>= fun fa => fa.fg.edges.zipIdx.foldlM pairStep fa := rfl

variable {X : Word → Option (List Word)} {done : List (Edge × Nat)} {x : Edge × Nat}

theorem Pairs.getElem? (h : Pairs fg X done fa) (hx : fg.edges[x.2]? = some x.1) :
    fa.fg.edges[x.2]? = some x.1 := by
  rw [h.edges]
  exact List.getElem?_append_left (List.getElem?_eq_some_iff.1 hx).1 ▸ hx

theorem Pairs.step (h : Pairs fg X done fa) (hx : fg.edges[x.2]? = some x.1)
    (hstep : fa.pairStep x = .ok fa') : Pairs fg X (done ++ [x]) fa' := by
  have hkeys : ∀ k, (∃ y ∈ done, y.2 = k) → ∃ y ∈ done ++ [x], y.2 = k := by
    rintro k ⟨y, hy, heq⟩
    exact ⟨y, List.mem_append_left _ hy, heq⟩
  have hwithin : (x.1.type = .jsr ∨ x.1.type = .jsrr → x.1.src = some 0xFFFF →
      ∀ dst, x.1.dst = some dst → X dst = none) → ∀ y ∈ done ++ [x],
      y.1.type = .jsr ∨ y.1.type = .jsrr → y.1.src = some 0xFFFF →
        ∀ dst, y.1.dst = some dst → X dst = none := by
    intro hx y hy
    rcases List.mem_append.1 hy with hy | hy
    · exact h.within y hy
    · rw [List.mem_singleton.1 hy]
      exact hx
  have hsame : fg.pairEdges X x = [] → (x.1.type = .jsr ∨ x.1.type = .jsrr →
      x.1.src = some 0xFFFF → ∀ dst, x.1.dst = some dst → X dst = none) →
      Pairs fg X (done ++ [x]) fa := fun hnil hx =>
    ⟨h.nodes, h.initPC, h.exits, by simp [h.edges, hnil],
      fun c info k hinfo hpair => hkeys k (h.keys c info k hinfo hpair), hwithin hx⟩
  unfold pairStep at hstep
  split at hstep
  · rename_i htype
    split at hstep
    · cases hstep
    · rename_i dst hdst
      split at hstep
      · rename_i hnone
        cases hstep
        have hX : X dst = none := by
          rw [← h.exits dst, Option.isNone_iff_eq_none.1 hnone]
          rfl
        refine hsame (by simp [FlowGraph.pairEdges, htype, hdst, hX]) fun _ _ dst' hdst' => ?_
        obtain rfl : dst = dst' := Option.some.inj (hdst.symm.trans hdst')
        exact hX
      · obtain ⟨src, dst', info, hsrc, hdst', hinfo, hlast, hedges, hnodes, hinit, hexits,
          hpairs⟩ := setUpEntryExitPairs_eq_ok (h.getElem? hx) hstep
        obtain rfl : dst = dst' := Option.some.inj (hdst.symm.trans hdst')
        have hX : X dst = some info.exits := by
          rw [← h.exits dst, hinfo]
          rfl
        have hcongr : fa.fg.exitEdges x.2 src info.exits = fg.exitEdges x.2 src info.exits := by
          unfold FlowGraph.exitEdges FlowGraph.behind FlowGraph.getNodeByAddr
          rw [h.nodes]
        have hpair : fg.pairEdges X x = fg.exitEdges x.2 src info.exits := by
          simp [FlowGraph.pairEdges, htype, hsrc, hdst, hX]
        refine ⟨hnodes.trans h.nodes, hinit.trans h.initPC, fun c => (hexits c).trans (h.exits c),
          ?_, fun c info' k hinfo' hpair' => ?_, hwithin fun _ hsrc' => ?_⟩
        · rw [hedges, h.edges, hcongr, List.flatMap_append, List.flatMap_singleton, hpair,
            List.append_assoc]
        · rcases hpairs c info' k hinfo' hpair' with rfl | ⟨info₀, hinfo₀, hpair₀⟩
          · exact ⟨x, List.mem_append_right _ (List.mem_singleton.2 rfl), rfl⟩
          · exact hkeys k (h.keys c info₀ k hinfo₀ hpair₀)
        · exact absurd (Option.some.inj (hsrc.symm.trans hsrc')) hlast
  · rename_i htype
    cases hstep
    exact hsame (if_neg htype) fun hjsr => absurd hjsr htype

/-- An edge is looked at once. -/
theorem Pairs.step_isOk (h : Pairs fg X done fa) (hx : fg.edges[x.2]? = some x.1)
    (hends : x.1.type = .jsr ∨ x.1.type = .jsrr → x.1.src.isSome ∧ x.1.dst.isSome)
    (hnew : ∀ y ∈ done, y.2 ≠ x.2) (hlast : x.1.type = .jsr ∨ x.1.type = .jsrr →
      x.1.src = some 0xFFFF → ∀ dst, x.1.dst = some dst → X dst = none) :
    ∃ fa', fa.pairStep x = .ok fa' := by
  unfold pairStep
  split
  · rename_i htype
    obtain ⟨hsrc, hdst⟩ := hends htype
    obtain ⟨src, hsrc⟩ := Option.isSome_iff_exists.1 hsrc
    obtain ⟨dst, hdst⟩ := Option.isSome_iff_exists.1 hdst
    rw [hdst]
    dsimp only
    split
    · exact ⟨fa, rfl⟩
    · rename_i hknown
      obtain ⟨info, hinfo⟩ : ∃ info, fa.subroutines.lookup dst = some info := by
        cases hcase : fa.subroutines.lookup dst with
        | none => simp [hcase] at hknown
        | some info => exact ⟨info, rfl⟩
      refine setUpEntryExitPairs_isOk (h.getElem? hx) hsrc hdst hinfo ?_ ?_
      swap
      · rintro rfl
        have hX := hlast htype hsrc dst hdst
        rw [← h.exits dst, hinfo] at hX
        cases hX
      cases hcase : info.eePairs.lookup x.2 with
      | none => rfl
      | some es =>
          obtain ⟨y, hy, heq⟩ := h.keys dst info x.2 hinfo (by rw [hcase]; rfl)
          exact absurd heq (hnew y hy)
  · exact ⟨fa, rfl⟩

theorem main_records (fg : FlowGraph) : Records fg [] (setSubroutine ⟨fg, [], [], []⟩ fg.initPC
    ⟨fg.initPC, fg.initPC, [], []⟩) where
  graph := rfl
  marks _ := ⟨fun hp => (by cases hp), fun hp => (by cases hp)⟩
  exits c hc := by
    rw [lookup_setSubroutine, if_neg hc]
    rfl
  noPairs c info hinfo := by
    rw [lookup_setSubroutine] at hinfo
    split at hinfo
    · cases hinfo
      rfl
    · cases hinfo

theorem Records.pairs {t : List (Word × Word)} (h : Records fg t fa) :
    Pairs fg (fun c => (fa.subroutines.lookup c).map SubroutineInfo.exits) [] fa where
  nodes := by rw [h.graph]
  initPC := by rw [h.graph]
  exits _ := rfl
  edges := by
    rw [h.graph]
    simp
  keys c info k hinfo hpair := by
    rw [h.noPairs c info hinfo] at hpair
    cases hpair
  within x hx := by cases hx

/-- What the constructor of the tracker leaves behind. -/
theorem colorFlowGraph_records (hone : ∀ node, (fg.callees node).length ≤ 1)
    (h : colorFlowGraph ⟨fg, [], [], []⟩ = .ok fa) :
    ∃ t X, Dfs fg.colorNext [] fg.mainStart t ∧ (∀ p, p ∈ fa.marks ↔ p ∈ t) ∧
      (∀ c ≠ fg.initPC, X c = fg.recorded t c) ∧ Pairs fg X fg.edges.zipIdx fa := by
  rw [colorFlowGraph_eq] at h
  split at h
  · rename_i hnone
    cases h
    refine ⟨[], fun _ => none, ?_, fun p => ?_, fun _ _ => rfl, rfl, rfl, fun _ => rfl, ?_, ?_,
      fun _ _ _ _ _ _ => rfl⟩
    · rw [FlowGraph.mainStart, if_neg (by simpa [Option.isSome_iff_ne_none] using hnone)]
      exact .nil
    · exact ⟨fun hp => (by cases hp), fun hp => (by cases hp)⟩
    · have hnil : ∀ x, fg.pairEdges (fun _ => none) x = [] := by
        intro x
        unfold FlowGraph.pairEdges
        split
        · cases x.1.src with
          | none => rfl
          | some src => cases x.1.dst <;> rfl
        · rfl
      simp [hnil]
    · intro c info k hinfo
      cases hinfo
  · rename_i hsome
    obtain ⟨fa₁, hcolor, h⟩ := Except.bind_eq_ok_iff.1 h
    obtain ⟨t, hdfs, hrecords⟩ := colorPath_records hone
      (fun _ => FlowGraph.mem_addrs_of_getNodeByAddr) (Finset.subset_insert fg.initPC _)
      (main_records fg) (.inl (Finset.mem_insert_self _ _)) (unmarked_card_lt_colorFuel _ _) hcolor
    suffices hpairs : Pairs fg (fun c => (fa₁.subroutines.lookup c).map SubroutineInfo.exits)
        fg.edges.zipIdx fa ∧ fa.marks = fa₁.marks by
      refine ⟨t, _, ?_, fun p => ?_, hrecords.exits, hpairs.1⟩
      · rw [FlowGraph.mainStart, if_pos (by simpa [Option.isSome_iff_ne_none] using hsome)]
        exact hdfs
      · rw [hpairs.2]
        exact hrecords.marks p
    rw [hrecords.graph] at h
    refine Except.foldlM_ok_split (motive := fun done (f : FlowAnalysis) =>
      Pairs fg (fun c => (fa₁.subroutines.lookup c).map SubroutineInfo.exits) done f ∧
        f.marks = fa₁.marks) ⟨hrecords.pairs, rfl⟩ ?_ h
    rintro done x rest f f' hsplit ⟨hf, hmarks⟩ hstep
    have hx : fg.edges[x.2]? = some x.1 :=
      List.mem_zipIdx_iff_getElem?.1 (hsplit ▸ List.mem_append_right done List.mem_cons_self)
    refine ⟨hf.step hx hstep, ?_⟩
    unfold pairStep at hstep
    split at hstep
    · split at hstep
      · cases hstep
      · split at hstep
        · cases hstep
          exact hmarks
        · exact (setUpEntryExitPairs_spec hstep).1.trans hmarks
    · cases hstep
      exact hmarks

end FlowAnalysis

namespace FlowGraph

variable {fg : FlowGraph} {X : Word → Option (List Word)} {e : Edge} {k : Nat} {r c node : Word}

end FlowGraph

namespace FlowGraph

variable {fg : FlowGraph} {t : List (Word × Word)}

end FlowGraph

namespace FlowAnalysis

variable {fa fa' : FlowAnalysis} {fg : FlowGraph} {node color : Word}

/-! ## Nothing stops the constructor -/

/-- Colouring what is inside the subroutines succeeds when the graph fits. -/
theorem colorPath_isOk {n : Nat} (hfits : fg.Fits) (hfg : fa.fg = fg)
    (hdst : ∀ e ∈ fg.edges, ∀ addr, e.dst = some addr → (fg.getNodeByAddr addr).isSome)
    (hnode : (fg.getNodeByAddr node).isSome) (hknows : fa.Knows color)
    (hinside : fg.Inside color node) : ∃ fa', colorPath n fa node color = .ok fa' := by
  induction n generalizing fa node color with
  | zero => exact ⟨fa, rfl⟩
  | succ n ih =>
      obtain ⟨inst, hinst⟩ := Option.isSome_iff_exists.1 hnode
      unfold colorPath
      split
      · exact ⟨fa, rfl⟩
      rw [hfg, hinst]
      dsimp only
      have hfg₁ : (fa.insertColor node color).fg = fg := (insertColor_fg _ _ _).trans hfg
      have hknows₁ := (knows_insertColor fa node color).2 hknows
      generalize fa.insertColor node color = fa₁ at hfg₁ hknows₁
      have hout : ∀ e ∈ fa₁.fg.runtimeOutEdges node, ∀ addr, e.2.dst = some addr →
          (fg.getNodeByAddr addr).isSome := by
        intro e he addr haddr
        rw [hfg₁] at he
        exact hdst e.2 (List.mem_of_getElem? (FlowGraph.mem_runtimeOutEdges.1 he).1) addr haddr
      split
      · rename_i hjsr
        have hcall : inst.isCall = true := by simpa [InstValue.isCall] using hjsr
        have hcallees : ∃ fa₂, (fa₁.calleesOf node).foldlM
            (fun fa callee => colorPath n (fa.enterSubroutine callee) callee callee) fa₁ = .ok fa₂ ∧
            fa₂.fg = fg ∧ fa₂.Knows color := by
          apply Except.foldlM_isOk (P := fun f : FlowAnalysis => f.fg = fg ∧ f.Knows color)
            ⟨hfg₁, hknows₁⟩
          · intro callee hcallee f hf
            have hcallee' : (fg.getNodeByAddr callee).isSome := by
              obtain ⟨e, he, hcallee⟩ := List.mem_filterMap.1 hcallee
              split at hcallee
              · exact hout e he callee hcallee
              · cases hcallee
            have hcalls : fg.Calls node callee := by
              refine ⟨⟨inst, hinst, hcall⟩, FlowGraph.mem_callees.1 ?_⟩
              rw [← hfg₁]
              exact hcallee
            obtain ⟨f', hf'⟩ := ih ((enterSubroutine_fg f callee).trans hf.1) hcallee'
              ((knows_enterSubroutine f callee).2 (.inl rfl)) (hinside.calls hcalls)
            refine ⟨f', hf', (colorPath_fg hf').trans ((enterSubroutine_fg f callee).trans hf.1), ?_⟩
            exact colorPath_knows hf' ((knows_enterSubroutine f callee).2 (.inr hf.2))
        obtain ⟨fa₂, hfold, hfg₂, hknows₂⟩ := hcallees
        have hlast : node ≠ 0xFFFF := by
          rintro rfl
          rw [hfits.inside color inst hinside hinst] at hcall
          cases hcall
        obtain ⟨retTo, hretTo⟩ : ∃ retTo, fg.getRetToNode node = .ok retTo := by
          unfold FlowGraph.getRetToNode
          rw [if_neg hlast]
          split <;> exact ⟨_, rfl⟩
        rw [hfold, Except.ok_bind', hfg₂, hretTo, Except.ok_bind']
        cases retTo with
        | some next =>
            have hnext : next ∈ fg.behind node := by
              rw [(FlowGraph.getRetToNode_eq_ok.1 hretTo).2]
              exact List.mem_singleton.2 rfl
            exact ih hfg₂ (FlowGraph.mem_behind.1 hnext).2.2 hknows₂
              (hinside.flows (.behind hinst hcall hnext))
        | none => exact ⟨fa₂, rfl⟩
      · rename_i hjsr
        have hcall : inst.isCall = false := by simpa [InstValue.isCall] using hjsr
        split
        · split
          · obtain ⟨info, hinfo⟩ := Option.isSome_iff_exists.1 hknows₁
            rw [hinfo]
            exact ⟨_, rfl⟩
          · exact ⟨_, rfl⟩
        · rename_i hret
          refine Exists.imp (fun _ => And.left) (Except.foldlM_isOk
            (P := fun f : FlowAnalysis => f.fg = fg ∧ f.Knows color) ⟨hfg₁, hknows₁⟩ ?_)
          intro e he f hf
          split
          · rename_i next hnext
            have hedge : fg.HasEdge (some node) (some next) := by
              refine FlowGraph.mem_follows.1 (List.mem_filterMap.2 ⟨e, ?_, hnext⟩)
              rw [← hfg₁]
              exact he
            obtain ⟨f', hf'⟩ := ih hf.1 (hout e he next hnext) hf.2
              (hinside.flows (.along hinst hcall (by simpa using hret) hedge))
            exact ⟨f', hf', (colorPath_fg hf').trans hf.1, colorPath_knows hf' hf.2⟩
          · exact ⟨f, rfl, hf⟩

/-- A subroutine that is known after the search is called from the main code. -/
theorem Records.entry {t : List (Word × Word)} {c : Word} (h : Records fg t fa)
    (hnode : (fg.getNodeByAddr fg.initPC).isSome)
    (hdfs : Dfs fg.colorNext [] [(fg.initPC, fg.initPC)] t) (hknows : fa.Knows c) :
    fg.Entry c := by
  by_cases hc : c = fg.initPC
  · exact hc ▸ .main hnode
  · have hrecorded : (fg.recorded t c).isSome := by
      rw [← h.exits c hc, Option.isSome_map]
      exact hknows
    obtain ⟨p, hp, hcalls⟩ := FlowGraph.recorded_isSome_iff.1 hrecorded
    obtain ⟨v, hv, hreach⟩ := hdfs.spreads.sound p hp List.not_mem_nil
    rw [List.mem_singleton.1 hv] at hreach
    exact (((FlowGraph.reaches_iff_inside hnode).1 hreach).calls hcalls).1

/-- The constructor of the tracker succeeds when the graph fits. -/
theorem colorFlowGraph_isOk (hfits : fg.Fits) (hone : ∀ node, (fg.callees node).length ≤ 1)
    (hdst : ∀ e ∈ fg.edges, ∀ addr, e.dst = some addr → (fg.getNodeByAddr addr).isSome)
    (hends : ∀ e ∈ fg.edges, e.type = .jsr ∨ e.type = .jsrr → e.src.isSome ∧ e.dst.isSome)
    (hcall : ∀ e ∈ fg.edges, ∀ node, e.type = .jsr ∨ e.type = .jsrr → e.src = some node →
      ∃ i, fg.getNodeByAddr node = some i ∧ i.instID = .JSR) :
    ∃ fa, colorFlowGraph ⟨fg, [], [], []⟩ = .ok fa := by
  rw [colorFlowGraph_eq]
  split
  · exact ⟨_, rfl⟩
  · rename_i hsome
    have hnode : (fg.getNodeByAddr fg.initPC).isSome := by
      simpa [Option.isSome_iff_ne_none] using hsome
    obtain ⟨fa₁, hcolor⟩ := colorPath_isOk (n := colorFuel (setSubroutine ⟨fg, [], [], []⟩ fg.initPC
      ⟨fg.initPC, fg.initPC, [], []⟩)) hfits (main_records fg).graph hdst hnode
      ((knows_setSubroutine _ _ _).2 (.inl rfl)) ⟨.main hnode, .refl⟩
    obtain ⟨t, hdfs, hrecords⟩ := colorPath_records hone
      (fun _ => FlowGraph.mem_addrs_of_getNodeByAddr) (Finset.subset_insert fg.initPC _)
      (main_records fg) (.inl (Finset.mem_insert_self _ _)) (unmarked_card_lt_colorFuel _ _) hcolor
    rw [color, hcolor, Except.ok_bind', hrecords.graph]
    refine Exists.imp (fun _ => And.left) (Except.foldlM_isOk_split (motive := fun done f =>
      Pairs fg (fun c => (fa₁.subroutines.lookup c).map SubroutineInfo.exits) done f)
      hrecords.pairs ?_)
    intro done x rest f hsplit hf
    have hmem : x ∈ fg.edges.zipIdx := hsplit ▸ List.mem_append_right done List.mem_cons_self
    have hx := List.mem_zipIdx_iff_getElem?.1 hmem
    have hnodup : ((done ++ x :: rest).map Prod.snd).Nodup := by
      rw [hsplit, List.zipIdx_map_snd]
      exact List.nodup_range'
    rw [List.map_append, List.map_cons, List.nodup_append] at hnodup
    have hedge := List.mem_of_getElem? hx
    obtain ⟨f', hf'⟩ := hf.step_isOk hx (hends x.1 hedge) (fun y hy =>
      hnodup.2.2 y.2 (List.mem_map_of_mem hy) x.2 List.mem_cons_self) (by
        -- The subroutine of a call at the last address is not known.
        intro htype hsrc dst hdst'
        obtain ⟨i, hi, hid⟩ := hcall x.1 hedge 0xFFFF htype hsrc
        rw [Option.map_eq_none_iff, ← Option.not_isSome_iff_eq_none]
        intro hknows
        refine hfits.callee dst ⟨⟨i, hi, by simp [InstValue.isCall, hid]⟩, x.1, hedge, htype, hsrc,
          hdst'⟩ (hrecords.entry hnode hdfs hknows))
    exact ⟨f', hf', hf.step hx hf'⟩

/-- The constructors succeed exactly for the programs that fit. -/
theorem new_isOk_iff {mem : List (Word × MemValue)} (hmem : Loaded mem) (initPC : Word) :
    (∃ fa, FlowAnalysis.new mem initPC = .ok fa) ↔ (FlowGraph.build mem initPC).Fits := by
  have hnodes := (FlowGraph.build_sound hmem initPC).2.1
  have hone := FlowGraph.build_callees_length hmem initPC
  constructor
  · rintro ⟨fa, h⟩
    obtain ⟨hcount, fa₁, hcolor, -⟩ := new_eq_ok.1 h
    obtain ⟨hmarks, hknows, hwithin⟩ := colorFlowGraph_spec hcolor
    obtain ⟨t, X, -, -, -, hpairs⟩ := colorFlowGraph_records hone hcolor
    refine ⟨hnodes ▸ hcount, fun color i hinside hi => ?_, ?_⟩
    · exact hwithin color i ((hmarks 0xFFFF color).2 hinside) hi
    · rintro entry ⟨-, e, he, htype, hsrc, hdst⟩ hentry
      obtain ⟨k, hk⟩ := List.mem_iff_getElem?.1 he
      have hnone := hpairs.within (e, k) (List.mem_zipIdx_iff_getElem?.2 hk) htype hsrc entry hdst
      have hsome := hknows (entry, entry) ((hmarks entry entry).2 ⟨hentry, .refl⟩)
      rw [← hpairs.exits entry, Option.map_eq_none_iff] at hnone
      rw [Knows, hnone] at hsome
      cases hsome
  · intro hfits
    obtain ⟨fa, hcolor⟩ := colorFlowGraph_isOk hfits hone (fun e he addr => FlowGraph.build_dst he)
      (FlowGraph.build_callEnds hmem) fun e he node => FlowGraph.build_call hmem he
    exact ⟨_, new_eq_ok.2 ⟨hnodes ▸ hfits.count, fa, hcolor, rfl⟩⟩

end FlowAnalysis

end Klc3
