import Klc3.Lib.Except
import Klc3.Model.SubroutineTracker
import Mathlib.Data.Finset.Card

/-!
# Edges of the flow graph

The graph only ever grows: edges keep their ends, and what the trackers add are edges of
calls, jumps and returns. The static edges are there from the start.
-/

namespace Klc3

/-- What matters of an edge for coverage. -/
def Edge.sig (e : Edge) : EdgeType × Option Word × Option Word × Bool :=
  (e.type, e.src, e.dst, e.covered)

namespace FlowGraph

variable {fg fg' fg'' : FlowGraph} {src dst : Option Word} {addr node : Word}

/-- A runtime edge between two nodes. -/
def HasEdge (fg : FlowGraph) (src dst : Option Word) : Prop :=
  ∃ e ∈ fg.edges, e.type.isRuntime = true ∧ e.src = src ∧ e.dst = dst

theorem mem_nodes_of_getNodeByAddr {i : InstValue} (h : fg.getNodeByAddr addr = some i) :
    (addr, i) ∈ fg.nodes := by
  obtain ⟨before, after, hnodes, -⟩ := List.lookup_eq_some_iff.1 h
  rw [hnodes]
  exact List.mem_append_right _ List.mem_cons_self

/-- The addresses of the nodes. -/
def addrs (fg : FlowGraph) : Finset Word :=
  (fg.nodes.map Prod.fst).toFinset

theorem mem_addrs_of_getNodeByAddr (h : (fg.getNodeByAddr addr).isSome) : addr ∈ fg.addrs := by
  obtain ⟨i, hi⟩ := Option.isSome_iff_exists.1 h
  exact List.mem_toFinset.2 (List.mem_map_of_mem (mem_nodes_of_getNodeByAddr hi))

theorem card_addrs_le (fg : FlowGraph) : fg.addrs.card ≤ fg.nodes.length := by
  have h := List.toFinset_card_le (fg.nodes.map Prod.fst)
  rwa [List.length_map] at h

theorem mem_runtimeOutEdges {i : Nat} {e : Edge} :
    (i, e) ∈ fg.runtimeOutEdges node ↔
      fg.edges[i]? = some e ∧ e.type.isRuntime = true ∧ e.src = some node := by
  unfold runtimeOutEdges
  simp only [List.mem_filterMap, Prod.exists]
  constructor
  · rintro ⟨e', i', hmem, hif⟩
    split at hif
    · rename_i hedge
      cases hif
      exact ⟨List.mem_zipIdx_iff_getElem?.1 hmem, hedge⟩
    · cases hif
  · rintro ⟨hget, hedge⟩
    exact ⟨e, i, List.mem_zipIdx_iff_getElem?.2 hget, by simp [hedge]⟩

theorem find_runtimeOutEdges_iff :
    ((fg.runtimeOutEdges node).find? fun e => e.2.dst = dst).isSome ↔
      fg.HasEdge (some node) dst := by
  rw [List.find?_isSome]
  constructor
  · rintro ⟨⟨i, e⟩, hmem, hdst⟩
    obtain ⟨hget, hrun, hsrc⟩ := mem_runtimeOutEdges.1 hmem
    exact ⟨e, List.mem_of_getElem? hget, hrun, hsrc, by simpa using hdst⟩
  · rintro ⟨e, hmem, hrun, hsrc, hdst⟩
    obtain ⟨i, hget⟩ := List.mem_iff_getElem?.1 hmem
    exact ⟨(i, e), mem_runtimeOutEdges.2 ⟨hget, hrun, hsrc⟩, by simpa using hdst⟩

/-! ## Growth -/

/-- The edges that are found while the program runs. -/
def isDynamic (type : EdgeType) : Bool :=
  match type with
  | .ret | .jmp | .jsrr => true
  | _ => false

theorem isRuntime_of_isDynamic {type : EdgeType} (h : isDynamic type = true) :
    type.isRuntime = true := by
  cases type <;> first | rfl | cases h

/-- The graph with more dynamic edges, none of them covered yet. -/
structure Extends (fg fg' : FlowGraph) : Prop where
  nodes : fg'.nodes = fg.nodes
  initPC : fg'.initPC = fg.initPC
  initPCEdge : fg'.initPCEdge = fg.initPCEdge
  edges : ∃ new : List Edge, fg'.edges.map Edge.sig = (fg.edges ++ new).map Edge.sig ∧
    (∀ e ∈ new, e.covered = false ∧ isDynamic e.type = true ∧ e.src.isSome ∧ e.dst.isSome) ∧
    fg'.tracker = fg.tracker.map fun c => { c with totalEdgeToCover := c.totalEdgeToCover + new.length }

theorem Extends.refl (fg : FlowGraph) : fg.Extends fg where
  nodes := rfl
  initPC := rfl
  initPCEdge := rfl
  edges := ⟨[], by simp, by simp, by cases fg.tracker <;> rfl⟩

theorem Extends.trans (h : fg.Extends fg') (h' : fg'.Extends fg'') : fg.Extends fg'' where
  nodes := h'.nodes.trans h.nodes
  initPC := h'.initPC.trans h.initPC
  initPCEdge := h'.initPCEdge.trans h.initPCEdge
  edges := by
    obtain ⟨new, hsig, hnew, htracker⟩ := h.edges
    obtain ⟨new', hsig', hnew', htracker'⟩ := h'.edges
    refine ⟨new ++ new', ?_, ?_, ?_⟩
    · rw [hsig', List.map_append, hsig, ← List.map_append, List.append_assoc]
    · intro e he
      rcases List.mem_append.1 he with he | he
      · exact hnew e he
      · exact hnew' e he
    · rw [htracker', htracker]
      cases fg.tracker with
      | none => rfl
      | some c => simp [Nat.add_assoc]

theorem Extends.getNodeByAddr (h : fg.Extends fg') (addr : Word) :
    fg'.getNodeByAddr addr = fg.getNodeByAddr addr := by
  rw [FlowGraph.getNodeByAddr, h.nodes]
  rfl

/-- An edge of the smaller graph is found in the larger one. -/
theorem Extends.getElem? (h : fg.Extends fg') {i : Nat} {e : Edge} (he : fg.edges[i]? = some e) :
    ∃ e', fg'.edges[i]? = some e' ∧ e'.sig = e.sig := by
  obtain ⟨new, hsig, -, -⟩ := h.edges
  have hget := congrArg (fun l => l[i]?) hsig
  obtain ⟨hlt, -⟩ := List.getElem?_eq_some_iff.1 he
  simp only [List.getElem?_map, List.getElem?_append_left hlt, he, Option.map_some,
    Option.map_eq_some_iff] at hget
  exact hget

theorem Extends.hasEdge (h : fg.Extends fg') (he : fg.HasEdge src dst) : fg'.HasEdge src dst := by
  obtain ⟨e, hmem, hrun, hsrc, hdst⟩ := he
  obtain ⟨i, hget⟩ := List.mem_iff_getElem?.1 hmem
  obtain ⟨e', hget', hsig⟩ := h.getElem? hget
  simp only [Edge.sig, Prod.mk.injEq] at hsig
  exact ⟨e', List.mem_of_getElem? hget', by rw [hsig.1]; exact hrun, hsig.2.1.trans hsrc,
    hsig.2.2.1.trans hdst⟩

/-- An edge of the larger graph is the one of the smaller graph with the same index, or
a new dynamic one. -/
theorem Extends.getElem?_cases (h : fg.Extends fg') {i : Nat} {e : Edge}
    (he : fg'.edges[i]? = some e) :
    (∃ e₀, fg.edges[i]? = some e₀ ∧ e.sig = e₀.sig) ∨
      (fg.edges.length ≤ i ∧ e.covered = false ∧ isDynamic e.type = true ∧ e.src.isSome ∧
        e.dst.isSome) := by
  obtain ⟨new, hsig, hnew, -⟩ := h.edges
  have hget := congrArg (fun l => l[i]?) hsig
  simp only [List.getElem?_map, he, Option.map_some] at hget
  obtain ⟨e₀, he₀, heq⟩ := Option.map_eq_some_iff.1 hget.symm
  rcases Nat.lt_or_ge i fg.edges.length with hlt | hge
  · rw [List.getElem?_append_left hlt] at he₀
    exact .inl ⟨e₀, he₀, heq.symm⟩
  · rw [List.getElem?_append_right hge] at he₀
    obtain ⟨hcovered, hdyn, hends⟩ := hnew e₀ (List.mem_of_getElem? he₀)
    simp only [Edge.sig, Prod.mk.injEq] at heq
    exact .inr ⟨hge, heq.2.2.2 ▸ hcovered, heq.1 ▸ hdyn, heq.2.1 ▸ heq.2.2.1 ▸ hends⟩

/-- An edge of the larger graph is one of the smaller graph or a new dynamic one. -/
theorem Extends.mem (h : fg.Extends fg') {e : Edge} (he : e ∈ fg'.edges) :
    (∃ e₀ ∈ fg.edges, e.sig = e₀.sig) ∨
      (e.covered = false ∧ isDynamic e.type = true ∧ e.src.isSome ∧ e.dst.isSome) := by
  obtain ⟨i, hget⟩ := List.mem_iff_getElem?.1 he
  rcases h.getElem?_cases hget with ⟨e₀, hget₀, hsig⟩ | ⟨-, hnew⟩
  · exact .inl ⟨e₀, List.mem_of_getElem? hget₀, hsig⟩
  · exact .inr hnew

theorem newEdge_extends {type : EdgeType} (src dst : Word) (assoc : Option Nat)
    (htype : isDynamic type = true) :
    fg.Extends (fg.newEdge (some src) (some dst) type assoc).1 where
  nodes := rfl
  initPC := rfl
  initPCEdge := rfl
  edges := by
    refine ⟨[⟨type, some src, some dst, false, false, assoc⟩], rfl, by simpa using htype, ?_⟩
    have hcallback : newEdgeCallback type =
        fun c => { c with totalEdgeToCover := c.totalEdgeToCover + 1 } := by
      funext c
      rw [newEdgeCallback, if_pos (isRuntime_of_isDynamic htype)]
    rw [newEdge, hcallback]
    rfl

theorem hasEdge_newEdge {type : EdgeType} (assoc : Option Nat) (htype : type.isRuntime = true) :
    (fg.newEdge src dst type assoc).1.HasEdge src dst :=
  ⟨⟨type, src, dst, false, false, assoc⟩, by simp [newEdge], htype, rfl, rfl⟩

/-- A change of flags of one edge that `sig` does not show. -/
theorem modify_extends (i : Nat) {f : Edge → Edge} (hf : ∀ e, (f e).sig = e.sig) :
    fg.Extends { fg with edges := fg.edges.modify i f } where
  nodes := rfl
  initPC := rfl
  initPCEdge := rfl
  edges := by
    refine ⟨[], ?_, by simp, by cases fg.tracker <;> rfl⟩
    rw [List.append_nil]
    refine List.ext_getElem? fun j => ?_
    simp only [List.getElem?_map, List.getElem?_modify]
    cases fg.edges[j]? with
    | none => rfl
    | some e =>
        by_cases hij : i = j
        · simp [hij, hf]
        · simp [hij]

end FlowGraph

/-! ## The node behind a call -/

namespace FlowGraph

variable {fg : FlowGraph} {node next : Word}

/-- The address after a call, when there is a node. No address comes after xFFFF. -/
def behind (fg : FlowGraph) (node : Word) : List Word :=
  if node ≠ 0xFFFF ∧ (fg.getNodeByAddr (node + 1)).isSome then [node + 1] else []

theorem mem_behind : next ∈ fg.behind node ↔
    node ≠ 0xFFFF ∧ next = node + 1 ∧ (fg.getNodeByAddr next).isSome := by
  unfold behind
  split
  · rename_i h
    rw [List.mem_singleton]
    exact ⟨fun heq => ⟨h.1, heq, heq ▸ h.2⟩, fun h => h.2.1⟩
  · rename_i h
    refine ⟨fun hmem => (by cases hmem), fun hnext => absurd ⟨hnext.1, ?_⟩ h⟩
    rw [← hnext.2.1]
    exact hnext.2.2

theorem getRetToNode_eq_ok {retTo : Option Word} :
    fg.getRetToNode node = .ok retTo ↔ node ≠ 0xFFFF ∧ fg.behind node = retTo.toList := by
  unfold getRetToNode behind
  split
  · rename_i hlast
    exact ⟨fun h => (by cases h), fun h => absurd hlast h.1⟩
  · rename_i hlast
    rw [and_iff_right hlast]
    simp only [ne_eq, hlast, not_false_eq_true, true_and]
    split <;> cases retTo <;> simp [pure, Except.pure]

end FlowGraph

/-! ## The trackers only add dynamic edges -/

namespace FlowAnalysis

open FlowGraph (Extends)

variable {fa fa' : FlowAnalysis} {node color : Word}

/-- Colouring does not touch the graph. -/
theorem colorPath_fg {n : Nat} (h : colorPath n fa node color = .ok fa') : fa'.fg = fa.fg := by
  induction n generalizing fa fa' node color with
  | zero =>
      cases h
      rfl
  | succ n ih =>
      unfold colorPath at h
      split at h
      · cases h
        rfl
      · split at h
        · cases h
        · dsimp only at h
          have hinsert : (fa.insertColor node color).fg = fa.fg := by
            unfold insertColor
            split <;> rfl
          split at h
          · obtain ⟨fa₁, hfold, h⟩ := Except.bind_eq_ok_iff.1 h
            have hfold' := Except.foldlM_ok_induction
              (motive := fun (_ : List Word) (f : FlowAnalysis) => f.fg = fa.fg) hinsert (by
                intro done x acc acc' hacc hstep
                refine (ih hstep).trans ?_
                unfold enterSubroutine setEntry setSubroutine
                split <;> exact hacc) hfold
            obtain ⟨retTo, -, h⟩ := Except.bind_eq_ok_iff.1 h
            cases retTo with
            | some next => exact (ih h).trans hfold'
            | none =>
                cases h
                exact hfold'
          · split at h
            · split at h
              · split at h
                · cases h
                · cases h
                  exact hinsert
              · cases h
                exact hinsert
            · exact Except.foldlM_ok_induction
                (motive := fun (_ : List (Nat × Edge)) (f : FlowAnalysis) => f.fg = fa.fg) hinsert (by
                  intro done x acc acc' hacc hstep
                  split at hstep
                  · exact (ih hstep).trans hacc
                  · cases hstep
                    exact hacc) h

theorem color_fg (h : fa.color node color = .ok fa') : fa'.fg = fa.fg :=
  colorPath_fg h

theorem newExitEdges_extends (fg : FlowGraph) (entryEdge : Nat) (retToNode : Word)
    (exits : List Word) : fg.Extends (newExitEdges fg entryEdge retToNode exits).1 := by
  induction exits generalizing fg with
  | nil => exact .refl fg
  | cons exit exits ih =>
      exact (FlowGraph.newEdge_extends exit retToNode (some entryEdge) rfl).trans (ih _)

theorem setUpEntryExitPairs_extends {edge : Option Nat}
    (h : fa.setUpEntryExitPairs edge = .ok fa') : fa.fg.Extends fa'.fg := by
  unfold setUpEntryExitPairs at h
  split at h
  · split at h
    · cases h
    · split at h
      · cases h
      · obtain ⟨retTo, -, h⟩ := Except.bind_eq_ok_iff.1 h
        cases retTo with
        | some next =>
            cases h
            exact newExitEdges_extends _ _ _ _
        | none =>
            cases h
            exact .refl _
  · cases h

theorem colorFlowGraph_extends (h : fa.colorFlowGraph = .ok fa') : fa.fg.Extends fa'.fg := by
  unfold colorFlowGraph at h
  dsimp only at h
  split at h
  · cases h
    exact .refl _
  · obtain ⟨fa₁, hcolor, h⟩ := Except.bind_eq_ok_iff.1 h
    have hfg : fa₁.fg = fa.fg := (color_fg hcolor).trans rfl
    refine Except.foldlM_ok_induction
      (motive := fun (_ : List (Edge × Nat)) (f : FlowAnalysis) => fa.fg.Extends f.fg)
      (hfg ▸ .refl _) ?_ h
    rintro done ⟨e, i⟩ acc acc' hacc hstep
    dsimp only at hstep
    split at hstep
    · split at hstep
      · cases hstep
      · split at hstep
        · cases hstep
          exact hacc
        · exact hacc.trans (setUpEntryExitPairs_extends hstep)
    · cases hstep
      exact hacc

/-- The constructors succeed when there are not too many nodes and the colouring succeeds. -/
theorem new_eq_ok {mem : List (Word × MemValue)} {initPC : Word} :
    FlowAnalysis.new mem initPC = .ok fa ↔
      (FlowGraph.userInsts mem).length ≤ FlowGraph.maxNodeCount ∧
      ∃ fa₁, colorFlowGraph ⟨FlowGraph.build mem initPC, [], [], []⟩ = .ok fa₁ ∧
        fa = { fa₁ with fg := CoverageTracker.new fa₁.fg } := by
  constructor
  · intro h
    obtain ⟨fg, hfg, h⟩ := Except.bind_eq_ok_iff.1 h
    obtain ⟨fa₁, hcolor, h⟩ := Except.bind_eq_ok_iff.1 h
    cases h
    unfold FlowGraph.new at hfg
    split at hfg
    · cases hfg
    · cases hfg
      exact ⟨Nat.le_of_not_lt ‹_›, fa₁, hcolor, rfl⟩
  · rintro ⟨hcount, fa₁, hcolor, rfl⟩
    rw [new, FlowGraph.new, if_neg (Nat.not_lt.2 hcount)]
    exact Except.bind_eq_ok_iff.2 ⟨_, rfl, Except.bind_eq_ok_iff.2 ⟨fa₁, hcolor, rfl⟩⟩

theorem setupInitState_fg (s : State) : (fa.setupInitState s).1.fg = fa.fg := by
  unfold setupInitState insertColor
  dsimp only
  split
  · split <;> rfl
  · rfl

end FlowAnalysis

namespace SubroutineTracker

open FlowGraph (Extends)

variable {fa fa' : FlowAnalysis} {m m' : Mach} {s s' : State} {executed : InstValue}

theorem updateOnCall_extends (h : updateOnCall fa s executed = .ok (fa', s')) :
    fa.fg.Extends fa'.fg := by
  unfold updateOnCall at h
  dsimp only at h
  split at h
  · obtain ⟨fa₁, hcolor, h⟩ := Except.bind_eq_ok_iff.1 h
    obtain ⟨fa₂, hset, h⟩ := Except.bind_eq_ok_iff.1 h
    cases h
    have hfg : fa₁.fg = fa.fg := by
      refine (FlowAnalysis.color_fg hcolor).trans ?_
      unfold FlowAnalysis.enterSubroutine FlowAnalysis.setEntry FlowAnalysis.setSubroutine
      split <;> rfl
    rw [← hfg]
    exact FlowAnalysis.setUpEntryExitPairs_extends hset
  · cases h
    exact .refl _

theorem flagImproperRET_extends (fa : FlowAnalysis) (s : State) :
    fa.fg.Extends (flagImproperRET fa s).fg := by
  unfold flagImproperRET
  split
  · exact .refl _
  · exact FlowGraph.modify_extends _ fun _ => rfl

theorem updateOnReturn_extends (h : updateOnReturn fa m executed = .ok (fa', m')) :
    fa.fg.Extends fa'.fg := by
  unfold updateOnReturn at h
  split at h
  · cases h
    exact .refl _
  · split at h
    · cases h
    · split at h
      · dsimp only at h
        split at h
        · cases h
        · split at h
          · cases h
            exact .refl _
          · cases h
      · obtain ⟨m₁, -, h⟩ := Except.bind_eq_ok_iff.1 h
        cases h
        exact flagImproperRET_extends fa _

theorem updateOnInst_extends (h : updateOnInst fa m executed = .ok (fa', m')) :
    fa.fg.Extends fa'.fg := by
  unfold updateOnInst at h
  split at h
  · obtain ⟨⟨fa₁, s₁⟩, hcall, h⟩ := Except.bind_eq_ok_iff.1 h
    cases h
    exact updateOnCall_extends hcall
  · split at h
    · split at h
      · exact updateOnReturn_extends h
      · unfold updateOnReturnInMain at h
        split at h
        · cases h
        · dsimp only at h
          split at h
          · obtain ⟨label, -, h⟩ := Except.bind_eq_ok_iff.1 h
            obtain ⟨m₁, -, h⟩ := Except.bind_eq_ok_iff.1 h
            cases h
            exact .refl _
          · rw [pure_bind] at h
            obtain ⟨m₁, -, h⟩ := Except.bind_eq_ok_iff.1 h
            cases h
            exact .refl _
    · cases h
      exact .refl _

theorem updateColors_extends (h : updateColors fa m = .ok (fa', m')) : fa.fg.Extends fa'.fg := by
  unfold updateColors at h
  split at h
  · cases h
    exact .refl _
  · split at h
    · cases h
      exact .refl _
    · obtain ⟨⟨fa₁, m₁⟩, hinst, h⟩ := Except.bind_eq_ok_iff.1 h
      have hext := updateOnInst_extends hinst
      dsimp only at h
      split at h
      · cases h
        exact hext
      · split at h
        · cases h
        · obtain ⟨fa₂, hcolor, h⟩ := Except.bind_eq_ok_iff.1 h
          cases h
          rw [FlowAnalysis.color_fg hcolor]
          exact hext

end SubroutineTracker

/-! Instructions that the examples share. -/

theorem matchInst_halt : matchInst 0xF025 = some ⟨.TRAP, .V, 0xFF00, 0xF000⟩ := by decide

theorem matchInst_load : matchInst 0x2002 = some ⟨.LD, .RL, 0xF000, 0x2000⟩ := by decide

theorem matchInst_branch : matchInst 0x0400 = some ⟨.BR, .CL, 0xF000, 0x0000⟩ := by decide

theorem matchInst_call : matchInst 0x4801 = some ⟨.JSR, .L, 0xF800, 0x4800⟩ := by decide

theorem matchInst_callAhead : matchInst 0x4802 = some ⟨.JSR, .L, 0xF800, 0x4800⟩ := by decide

theorem matchInst_return : matchInst 0xC1C0 = some ⟨.JMP, .R, 0xFE3F, 0xC000⟩ := by decide

theorem matchInst_increment : matchInst 0x1021 = some ⟨.ADDi, .RRI, 0xF020, 0x1020⟩ := by decide

end Klc3
