import Klc3.Verification.FlowGraph.Static

/-!
# Covered edges

`CoverageTracker` marks the first edge between two instructions that were executed one
after the other, and counts the edges it marks.
-/

namespace Klc3

namespace FlowGraph

variable {fg fg' fg'' : FlowGraph} {src dst : Option Word} {node : Word} {k : Nat} {e : Edge}

/-- No runtime edge with a smaller index joins the same nodes. -/
def First (fg : FlowGraph) (k : Nat) (e : Edge) : Prop :=
  ∀ j < k, ∀ e', fg.edges[j]? = some e' → e'.type.isRuntime = true →
    ¬ (e'.src = e.src ∧ e'.dst = e.dst)

theorem zipIdx_sorted {α : Type} (l : List α) (n : Nat) :
    (l.zipIdx n).Pairwise fun a b => a.2 < b.2 := by
  induction l generalizing n with
  | nil => simp
  | cons a l ih =>
      rw [List.zipIdx_cons, List.pairwise_cons]
      refine ⟨fun b hb => ?_, ih (n + 1)⟩
      have hle := (List.mem_zipIdx hb).1
      exact Nat.lt_of_succ_le hle

theorem runtimeOutEdges_sorted (fg : FlowGraph) (node : Word) :
    (fg.runtimeOutEdges node).Pairwise fun a b => a.1 < b.1 := by
  unfold runtimeOutEdges
  refine (zipIdx_sorted fg.edges 0).filterMap _ ?_
  rintro ⟨e, i⟩ ⟨e', i'⟩ hlt p hp p' hp'
  dsimp only at hp hp'
  split at hp
  · split at hp'
    · cases hp
      cases hp'
      exact hlt
    · cases hp'
  · cases hp

/-- Searching the edges of a node finds the first one. -/
theorem find_runtimeOutEdges {p : Nat × Edge → Bool}
    (h : (fg.runtimeOutEdges node).find? p = some (k, e)) :
    fg.edges[k]? = some e ∧ e.type.isRuntime = true ∧ e.src = some node ∧ p (k, e) = true ∧
      ∀ j < k, ∀ e', fg.edges[j]? = some e' → e'.type.isRuntime = true → e'.src = some node →
        p (j, e') = false := by
  obtain ⟨hget, hrun, hsrc⟩ := mem_runtimeOutEdges.1 (List.mem_of_find?_eq_some h)
  obtain ⟨hp, before, after, hsplit, hbefore⟩ := List.find?_eq_some_iff_append.1 h
  refine ⟨hget, hrun, hsrc, hp, fun j hj e' hget' hrun' hsrc' => ?_⟩
  have hmem : (j, e') ∈ fg.runtimeOutEdges node := mem_runtimeOutEdges.2 ⟨hget', hrun', hsrc'⟩
  have hsorted := runtimeOutEdges_sorted fg node
  rw [hsplit] at hmem hsorted
  rcases List.mem_append.1 hmem with hin | hin
  · simpa using hbefore _ hin
  · rcases List.mem_cons.1 hin with heq | hin
    · cases heq
      exact absurd hj (Nat.lt_irrefl _)
    · have hlt := (List.pairwise_cons.1 (List.pairwise_append.1 hsorted).2.1).1 _ hin
      exact absurd hj (Nat.lt_asymm hlt)

/-- The first edge from a node to another one. -/
theorem find_dst (h : (fg.runtimeOutEdges node).find? (fun e => e.2.dst = dst) = some (k, e)) :
    fg.edges[k]? = some e ∧ e.type.isRuntime = true ∧ e.src = some node ∧ e.dst = dst ∧
      fg.First k e := by
  obtain ⟨hget, hrun, hsrc, hp, hfirst⟩ := find_runtimeOutEdges h
  have hdst : e.dst = dst := by simpa using hp
  refine ⟨hget, hrun, hsrc, hdst, fun j hj e' hget' hrun' hends => ?_⟩
  have hnot := hfirst j hj e' hget' hrun' (hends.1.trans hsrc)
  simp [hends.2, hdst] at hnot

/-! ## Marking an edge -/

/-- The graph after an edge is marked as covered. -/
def cover (fg : FlowGraph) (k : Nat) (e : Edge) : FlowGraph :=
  { fg with
    edges := fg.edges.set k { e with covered := true }
    tracker := fg.tracker.map (CoverageTracker.countCovered e) }

/-- Marking changes nothing but the mark. -/
theorem cover_getElem? (hget : fg.edges[k]? = some e) {j : Nat} {e' : Edge}
    (h : (fg.cover k e).edges[j]? = some e') :
    ∃ e₀, fg.edges[j]? = some e₀ ∧ e'.type = e₀.type ∧ e'.src = e₀.src ∧ e'.dst = e₀.dst ∧
      (e'.covered = true ↔ e₀.covered = true ∨ j = k) := by
  change (fg.edges.set k { e with covered := true })[j]? = some e' at h
  rw [List.getElem?_set] at h
  split at h
  · rename_i hjk
    subst hjk
    split at h
    · cases h
      exact ⟨e, hget, rfl, rfl, rfl, by simp⟩
    · cases h
  · rename_i hjk
    exact ⟨e', h, rfl, rfl, rfl, by simp [Ne.symm hjk]⟩

theorem getElem?_cover (hget : fg.edges[k]? = some e) {j : Nat} {e₀ : Edge}
    (h : fg.edges[j]? = some e₀) :
    ∃ e', (fg.cover k e).edges[j]? = some e' ∧ e'.type = e₀.type ∧ e'.src = e₀.src ∧
      e'.dst = e₀.dst := by
  change ∃ e', (fg.edges.set k { e with covered := true })[j]? = some e' ∧ _
  rw [List.getElem?_set]
  split
  · rename_i hjk
    subst hjk
    rw [hget] at h
    cases h
    obtain ⟨hlt, -⟩ := List.getElem?_eq_some_iff.1 hget
    exact ⟨_, if_pos hlt, rfl, rfl, rfl⟩
  · exact ⟨e₀, h, rfl, rfl, rfl⟩

theorem cover_hasEdge_iff (hget : fg.edges[k]? = some e) :
    (fg.cover k e).HasEdge src dst ↔ fg.HasEdge src dst := by
  constructor
  · rintro ⟨e', hmem, hrun, hsrc, hdst⟩
    obtain ⟨j, hj⟩ := List.mem_iff_getElem?.1 hmem
    obtain ⟨e₀, hget₀, htype, hsrc₀, hdst₀, -⟩ := cover_getElem? hget hj
    exact ⟨e₀, List.mem_of_getElem? hget₀, htype ▸ hrun, hsrc₀ ▸ hsrc, hdst₀ ▸ hdst⟩
  · rintro ⟨e₀, hmem, hrun, hsrc, hdst⟩
    obtain ⟨j, hj⟩ := List.mem_iff_getElem?.1 hmem
    obtain ⟨e', hget', htype, hsrc', hdst'⟩ := getElem?_cover hget hj
    exact ⟨e', List.mem_of_getElem? hget', htype ▸ hrun, hsrc'.trans hsrc, hdst'.trans hdst⟩

theorem Sound.cover (hs : fg.Sound) (hget : fg.edges[k]? = some e) : (fg.cover k e).Sound where
  placed := hs.placed
  static addr i hi dst hdst hnode := (cover_hasEdge_iff hget).2 (hs.static addr i hi dst hdst hnode)
  traps e' he' htype := by
    obtain ⟨j, hj⟩ := List.mem_iff_getElem?.1 he'
    obtain ⟨e₀, hget₀, htype₀, hsrc₀, -, -⟩ := cover_getElem? hget hj
    obtain ⟨i, hsrc, hi⟩ := hs.traps e₀ (List.mem_of_getElem? hget₀) (htype₀ ▸ htype)
    exact ⟨i, hsrc₀.trans hsrc, hi⟩
  halts e' he' hrun hdst := by
    obtain ⟨j, hj⟩ := List.mem_iff_getElem?.1 he'
    obtain ⟨e₀, hget₀, htype₀, -, hdst₀, -⟩ := cover_getElem? hget hj
    exact htype₀.trans
      (hs.halts e₀ (List.mem_of_getElem? hget₀) (htype₀ ▸ hrun) (hdst₀ ▸ hdst))
  init hnode := by
    obtain ⟨j, e₀, hinit, hget₀, htype, hsrc, hdst⟩ := hs.init hnode
    obtain ⟨e', hget', htype', hsrc', hdst'⟩ := getElem?_cover hget hget₀
    exact ⟨j, e', hinit, hget', htype'.trans htype, hsrc'.trans hsrc, hdst'.trans hdst⟩
  entry j e' hget' hsrc := by
    obtain ⟨e₀, hget₀, -, hsrc₀, -, -⟩ := cover_getElem? hget hget'
    exact hs.entry j e₀ hget₀ (hsrc₀ ▸ hsrc)

/-- What never changes while a graph is used, whether edges are marked or added. -/
structure Grows (fg fg' : FlowGraph) : Prop where
  nodes : fg'.nodes = fg.nodes
  initPC : fg'.initPC = fg.initPC
  hasEdge : ∀ src dst, fg.HasEdge src dst → fg'.HasEdge src dst
  sound : fg.Sound → fg'.Sound

theorem Grows.refl (fg : FlowGraph) : fg.Grows fg := ⟨rfl, rfl, fun _ _ => id, id⟩

theorem Grows.trans (h : fg.Grows fg') (h' : fg'.Grows fg'') : fg.Grows fg'' :=
  ⟨h'.nodes.trans h.nodes, h'.initPC.trans h.initPC,
    fun src dst he => h'.hasEdge src dst (h.hasEdge src dst he), fun hs => h'.sound (h.sound hs)⟩

theorem Grows.getNodeByAddr (h : fg.Grows fg') (addr : Word) :
    fg'.getNodeByAddr addr = fg.getNodeByAddr addr := by
  rw [FlowGraph.getNodeByAddr, h.nodes]
  rfl

theorem Extends.grows (h : fg.Extends fg') : fg.Grows fg' :=
  ⟨h.nodes, h.initPC, fun _ _ => h.hasEdge, fun hs => hs.extends h⟩

theorem cover_grows (hget : fg.edges[k]? = some e) : fg.Grows (fg.cover k e) :=
  ⟨rfl, rfl, fun _ _ => (cover_hasEdge_iff hget).2, fun hs => hs.cover hget⟩

/-! ## Marks and executed transitions -/

/-- A transition between two instructions, from nowhere for the first one and to nowhere
when the program halts. -/
abbrev Transition := Option Word × Option Word

/-- Marked are the first edges of the transitions so far, and the counters count. -/
structure Covers (fg : FlowGraph) (hist : List Transition) : Prop where
  covered : ∀ (k : Nat) e, fg.edges[k]? = some e → e.type.isRuntime = true →
    (e.covered = true ↔ (e.src, e.dst) ∈ hist ∧ fg.First k e)
  known : ∀ src addr, (some src, some addr) ∈ hist → fg.HasEdge (some src) (some addr)
  count : ∃ c, fg.tracker = some c ∧
    c.coveredEdgeCount = fg.edges.countP (fun e => e.type.isRuntime && e.covered) ∧
    c.totalEdgeToCover = fg.edges.countP fun e => e.type.isRuntime

variable {hist : List Transition}

theorem First.cover_iff (hget : fg.edges[k]? = some e) {j : Nat} {e₀ e' : Edge}
    (hsrc : e'.src = e₀.src) (hdst : e'.dst = e₀.dst) :
    (fg.cover k e).First j e' ↔ fg.First j e₀ := by
  constructor
  · intro h i hi e₁ hget₁ hrun hends
    obtain ⟨e₂, hget₂, htype₂, hsrc₂, hdst₂⟩ := getElem?_cover hget hget₁
    exact h i hi e₂ hget₂ (htype₂ ▸ hrun)
      ⟨hsrc₂.trans (hends.1.trans hsrc.symm), hdst₂.trans (hends.2.trans hdst.symm)⟩
  · intro h i hi e₂ hget₂ hrun hends
    obtain ⟨e₁, hget₁, htype₁, hsrc₁, hdst₁, -⟩ := cover_getElem? hget hget₂
    exact h i hi e₁ hget₁ (htype₁ ▸ hrun)
      ⟨hsrc₁.symm.trans (hends.1.trans hsrc), hdst₁.symm.trans (hends.2.trans hdst)⟩

/-- Two first edges between the same nodes are the same edge. -/
theorem First.unique {j : Nat} {e₀ : Edge} (h : fg.First k e) (h' : fg.First j e₀)
    (hget : fg.edges[k]? = some e) (hget' : fg.edges[j]? = some e₀)
    (hrun : e.type.isRuntime = true) (hrun' : e₀.type.isRuntime = true)
    (hsrc : e₀.src = e.src) (hdst : e₀.dst = e.dst) : j = k := by
  rcases Nat.lt_trichotomy j k with hlt | heq | hgt
  · exact absurd ⟨hsrc, hdst⟩ (h j hlt e₀ hget' hrun')
  · exact heq
  · exact absurd ⟨hsrc.symm, hdst.symm⟩ (h' k hgt e hget hrun)

theorem Covers.cover (hc : fg.Covers hist) (hget : fg.edges[k]? = some e)
    (hrun : e.type.isRuntime = true) (hfirst : fg.First k e) :
    (fg.cover k e).Covers (hist ++ [(e.src, e.dst)]) where
  covered j e' hget' hrun' := by
    obtain ⟨e₀, hget₀, htype, hsrc, hdst, hcovered⟩ := cover_getElem? hget hget'
    have hrun₀ : e₀.type.isRuntime = true := htype ▸ hrun'
    rw [hcovered, hc.covered j e₀ hget₀ hrun₀, First.cover_iff hget hsrc hdst, hsrc, hdst,
      List.mem_append, List.mem_singleton, Prod.mk.injEq]
    constructor
    · rintro (⟨hin, hf⟩ | rfl)
      · exact ⟨.inl hin, hf⟩
      · rw [hget] at hget₀
        cases hget₀
        exact ⟨.inr ⟨rfl, rfl⟩, hfirst⟩
    · rintro ⟨hin | ⟨hs, hd⟩, hf⟩
      · exact .inl ⟨hin, hf⟩
      · exact .inr (hfirst.unique hf hget hget₀ hrun hrun₀ hs hd)
  known src addr hin := by
    rw [cover_hasEdge_iff hget]
    rcases List.mem_append.1 hin with hin | hin
    · exact hc.known src addr hin
    · rw [List.mem_singleton, Prod.mk.injEq] at hin
      exact ⟨e, List.mem_of_getElem? hget, hrun, hin.1.symm, hin.2.symm⟩
  count := by
    obtain ⟨c, htracker, hcount, htotal⟩ := hc.count
    obtain ⟨hlt, hgetElem⟩ := List.getElem?_eq_some_iff.1 hget
    refine ⟨CoverageTracker.countCovered e c, by simp [FlowGraph.cover, htracker], ?_, ?_⟩
    · have hpos : e.covered = true →
          0 < fg.edges.countP (fun e => e.type.isRuntime && e.covered) := fun hcov =>
        List.countP_pos_iff.2 ⟨e, List.mem_of_getElem? hget, by simp [hrun, hcov]⟩
      simp only [FlowGraph.cover, List.countP_set hlt, hgetElem, hrun, Bool.true_and, if_true]
      unfold CoverageTracker.countCovered
      split
      · rename_i hcov
        have hone := hpos hcov
        omega
      · simp only
        omega
    · have hpos : 0 < fg.edges.countP fun e => e.type.isRuntime :=
        List.countP_pos_iff.2 ⟨e, List.mem_of_getElem? hget, hrun⟩
      simp only [FlowGraph.cover, List.countP_set hlt, hgetElem, hrun, if_true]
      unfold CoverageTracker.countCovered
      split
      · omega
      · simp only
        omega

theorem Covers.mono_hist {hist' : List Transition} (hc : fg.Covers hist)
    (h : ∀ p, p ∈ hist' ↔ p ∈ hist) : fg.Covers hist' where
  covered k e hget hrun := by rw [hc.covered k e hget hrun, h]
  known src addr hin := hc.known src addr ((h _).1 hin)
  count := hc.count

/-- A way out that no edge stands for. -/
theorem Covers.absent (hc : fg.Covers hist) (h : ¬ fg.HasEdge src none) :
    fg.Covers (hist ++ [(src, none)]) where
  covered k e hget hrun := by
    rw [hc.covered k e hget hrun, List.mem_append, List.mem_singleton]
    constructor
    · rintro ⟨hin, hf⟩
      exact ⟨.inl hin, hf⟩
    · rintro ⟨hin | heq, hf⟩
      · exact ⟨hin, hf⟩
      · obtain ⟨hsrc, hdst⟩ := Prod.mk.inj heq
        exact absurd ⟨e, List.mem_of_getElem? hget, hrun, hsrc, hdst⟩ h
  known src addr hin := by
    rw [List.mem_append, List.mem_singleton] at hin
    rcases hin with hin | heq
    · exact hc.known src addr hin
    · cases (Prod.mk.inj heq).2
  count := hc.count

theorem countP_sig (p : EdgeType × Option Word × Option Word × Bool → Bool) (l : List Edge) :
    (l.map Edge.sig).countP p = l.countP fun e => p e.sig := by
  rw [List.countP_map]
  rfl

theorem Covers.extends (hc : fg.Covers hist) (h : fg.Extends fg') : fg'.Covers hist where
  covered k e hget hrun := by
    have hfirst : ∀ e₀, e.sig = e₀.sig → fg.edges[k]? = some e₀ →
        (fg'.First k e ↔ fg.First k e₀) := by
      intro e₀ hsig hget₀
      simp only [Edge.sig, Prod.mk.injEq] at hsig
      constructor
      · intro hf j hj e₁ hget₁ hrun₁ hends
        obtain ⟨e₂, hget₂, hsig₂⟩ := h.getElem? hget₁
        simp only [Edge.sig, Prod.mk.injEq] at hsig₂
        exact hf j hj e₂ hget₂ (hsig₂.1 ▸ hrun₁)
          ⟨hsig₂.2.1.trans (hends.1.trans hsig.2.1.symm),
            hsig₂.2.2.1.trans (hends.2.trans hsig.2.2.1.symm)⟩
      · intro hf j hj e₂ hget₂ hrun₂ hends
        obtain ⟨hlt, -⟩ := List.getElem?_eq_some_iff.1 hget₀
        rcases h.getElem?_cases hget₂ with ⟨e₁, hget₁, hsig₁⟩ | ⟨hge, -⟩
        · simp only [Edge.sig, Prod.mk.injEq] at hsig₁
          exact hf j hj e₁ hget₁ (hsig₁.1 ▸ hrun₂)
            ⟨hsig₁.2.1.symm.trans (hends.1.trans hsig.2.1),
              hsig₁.2.2.1.symm.trans (hends.2.trans hsig.2.2.1)⟩
        · omega
    rcases h.getElem?_cases hget with ⟨e₀, hget₀, hsig⟩ | ⟨hge, hcovered, -, hsrc, hdst⟩
    · rw [hfirst e₀ hsig hget₀]
      simp only [Edge.sig, Prod.mk.injEq] at hsig
      rw [hsig.2.1, hsig.2.2.1, hsig.2.2.2]
      exact hc.covered k e₀ hget₀ (hsig.1 ▸ hrun)
    · -- a new edge is not marked, and if its transition was executed it is not the first
      refine iff_of_false (by simp [hcovered]) ?_
      rintro ⟨hin, hf⟩
      obtain ⟨node, hnode⟩ := Option.isSome_iff_exists.1 hsrc
      obtain ⟨addr, haddr⟩ := Option.isSome_iff_exists.1 hdst
      rw [hnode, haddr] at hin
      obtain ⟨e₁, hmem, hrun₁, hsrc₁, hdst₁⟩ := hc.known _ _ hin
      obtain ⟨j, hj⟩ := List.mem_iff_getElem?.1 hmem
      obtain ⟨e₂, hget₂, hsig₂⟩ := h.getElem? hj
      obtain ⟨hlt, -⟩ := List.getElem?_eq_some_iff.1 hj
      simp only [Edge.sig, Prod.mk.injEq] at hsig₂
      exact hf j (by omega) e₂ hget₂ (hsig₂.1 ▸ hrun₁)
        ⟨by rw [hsig₂.2.1, hsrc₁, hnode], by rw [hsig₂.2.2.1, hdst₁, haddr]⟩
  known src addr hin := h.hasEdge (hc.known src addr hin)
  count := by
    obtain ⟨c, htracker, hcount, htotal⟩ := hc.count
    obtain ⟨new, hsig, hnew, htracker'⟩ := h.edges
    rw [htracker] at htracker'
    refine ⟨_, htracker', ?_, ?_⟩
    · have hmap := congrArg (List.countP fun s => s.1.isRuntime && s.2.2.2) hsig
      rw [countP_sig, countP_sig, List.countP_append] at hmap
      have hzero : new.countP (fun e => e.type.isRuntime && e.covered) = 0 := by
        rw [List.countP_eq_zero]
        intro e he
        simp [(hnew e he).1]
      simp only [Edge.sig] at hmap
      rw [hzero, Nat.add_zero] at hmap
      exact hcount.trans hmap.symm
    · have hmap := congrArg (List.countP fun s => s.1.isRuntime) hsig
      rw [countP_sig, countP_sig, List.countP_append] at hmap
      have hall : new.countP (fun e => e.type.isRuntime) = new.length := by
        rw [List.countP_eq_length]
        exact fun e he => isRuntime_of_isDynamic (hnew e he).2.1
      simp only [Edge.sig] at hmap
      rw [hall, ← htotal] at hmap
      exact hmap.symm

end FlowGraph

/-- The flow graph when the exploration starts. -/
theorem FlowAnalysis.new_spec {mem : List (Word × MemValue)} {initPC : Word} {fa : FlowAnalysis}
    (hmem : Loaded mem) (h : FlowAnalysis.new mem initPC = .ok fa) :
    fa.fg.Sound ∧ fa.fg.nodes = FlowGraph.userInsts mem ∧ fa.fg.initPC = initPC ∧
      fa.fg.Covers [] := by
  obtain ⟨-, fa₁, hcolor, rfl⟩ := FlowAnalysis.new_eq_ok.1 h
  have hextends : (FlowGraph.build mem initPC).Extends fa₁.fg := colorFlowGraph_extends hcolor
  obtain ⟨hsound, hnodes, hinitPC, -, huncovered⟩ := FlowGraph.build_sound hmem initPC
  have hsound₁ := hsound.extends hextends
  have huncovered₁ : ∀ e ∈ fa₁.fg.edges, e.covered = false := by
    intro e he
    rcases hextends.mem he with ⟨e₀, he₀, hsig⟩ | ⟨hcovered, -⟩
    · simp only [Edge.sig, Prod.mk.injEq] at hsig
      rw [hsig.2.2.2]
      exact huncovered e₀ he₀
    · exact hcovered
  refine ⟨⟨hsound₁.placed, hsound₁.static, hsound₁.traps, hsound₁.halts, hsound₁.init,
    hsound₁.entry⟩, hextends.nodes.trans hnodes, hextends.initPC.trans hinitPC, ?_, ?_, ?_⟩
  · intro k e hget _
    simp [huncovered₁ e (List.mem_of_getElem? hget)]
  · simp
  · refine ⟨_, rfl, ?_, rfl⟩
    symm
    rw [List.countP_eq_zero]
    intro e he
    simp [huncovered₁ e he]

end Klc3
