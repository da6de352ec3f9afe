import Klc3.Verification.FlowGraph.CallStack
import Klc3.Verification.FlowGraph.Static

/-!
# Colours before the run

What the constructor of the tracker colours: the nodes that are reached inside a
subroutine, for every subroutine that is called from the main code.
-/

namespace Klc3

namespace FlowGraph

variable {fg : FlowGraph} {node next color : Word}

/-- One step inside a subroutine: over a call to the address after it, along the edges of
any other instruction, and not beyond a `RET`. -/
inductive Flows (fg : FlowGraph) : Word → Word → Prop
  | behind {node next : Word} {i : InstValue} (hnode : fg.getNodeByAddr node = some i)
      (hcall : i.isCall = true) (hnext : next ∈ fg.behind node) : Flows fg node next
  | along {node next : Word} {i : InstValue} (hnode : fg.getNodeByAddr node = some i)
      (hcall : i.isCall = false) (hret : i.isRET = false)
      (hedge : fg.HasEdge (some node) (some next)) : Flows fg node next

/-- The node calls the subroutine at `entry`. -/
def Calls (fg : FlowGraph) (node entry : Word) : Prop :=
  (∃ i, fg.getNodeByAddr node = some i ∧ i.isCall = true) ∧
    ∃ e ∈ fg.edges, (e.type = .jsr ∨ e.type = .jsrr) ∧ e.src = some node ∧ e.dst = some entry

/-- The main code and the subroutines that are called from it, directly or not. -/
inductive Entry (fg : FlowGraph) : Word → Prop
  | main (hnode : (fg.getNodeByAddr fg.initPC).isSome) : Entry fg fg.initPC
  | called {color node entry : Word} (h : Entry fg color)
      (hreach : Relation.ReflTransGen fg.Flows color node) (hcalls : fg.Calls node entry) :
      Entry fg entry

/-- The node is reached inside the subroutine that starts at `color`. -/
def Inside (fg : FlowGraph) (color node : Word) : Prop :=
  fg.Entry color ∧ Relation.ReflTransGen fg.Flows color node

theorem Inside.flows (h : fg.Inside color node) (hflows : fg.Flows node next) :
    fg.Inside color next :=
  ⟨h.1, h.2.tail hflows⟩

theorem Inside.calls (h : fg.Inside color node) (hcalls : fg.Calls node next) :
    fg.Inside next next :=
  ⟨.called h.1 h.2 hcalls, .refl⟩

/-- The graph fits into the arrays of the constructors: there are not too many nodes, and
no call at the last address is left for the address after it, be it that the call is
reached or that its subroutine is. -/
structure Fits (fg : FlowGraph) : Prop where
  count : fg.nodes.length ≤ maxNodeCount
  inside : ∀ color i, fg.Inside color 0xFFFF → fg.getNodeByAddr 0xFFFF = some i →
    i.isCall = false
  callee : ∀ entry, fg.Calls 0xFFFF entry → ¬ fg.Entry entry

theorem mem_callees : next ∈ fg.callees node ↔ ∃ e ∈ fg.edges,
    (e.type = .jsr ∨ e.type = .jsrr) ∧ e.src = some node ∧ e.dst = some next := by
  unfold callees
  rw [List.mem_filterMap]
  constructor
  · rintro ⟨⟨i, e⟩, hmem, hdst⟩
    obtain ⟨hget, -, hsrc⟩ := mem_runtimeOutEdges.1 hmem
    dsimp only at hdst
    split at hdst
    · exact ⟨e, List.mem_of_getElem? hget, ‹_›, hsrc, hdst⟩
    · cases hdst
  · rintro ⟨e, hmem, htype, hsrc, hdst⟩
    obtain ⟨i, hget⟩ := List.mem_iff_getElem?.1 hmem
    have hrun : e.type.isRuntime = true := by
      rcases htype with htype | htype <;> (rw [htype]; rfl)
    exact ⟨(i, e), mem_runtimeOutEdges.2 ⟨hget, hrun, hsrc⟩, by simpa [htype] using hdst⟩

theorem mem_follows : next ∈ fg.follows node ↔ fg.HasEdge (some node) (some next) := by
  unfold follows
  rw [List.mem_filterMap]
  constructor
  · rintro ⟨⟨i, e⟩, hmem, hdst⟩
    obtain ⟨hget, hrun, hsrc⟩ := mem_runtimeOutEdges.1 hmem
    exact ⟨e, List.mem_of_getElem? hget, hrun, hsrc, hdst⟩
  · rintro ⟨e, hmem, hrun, hsrc, hdst⟩
    obtain ⟨i, hget⟩ := List.mem_iff_getElem?.1 hmem
    exact ⟨(i, e), mem_runtimeOutEdges.2 ⟨hget, hrun, hsrc⟩, hdst⟩

/-- The search goes on inside the subroutine, and starts another one at a call. -/
theorem mem_colorNext {c : Word} : (next, c) ∈ fg.colorNext (node, color) ↔
    (fg.Calls node next ∧ c = next) ∨ (fg.Flows node next ∧ c = color) := by
  unfold colorNext
  dsimp only
  constructor
  · intro h
    split at h
    · cases h
    · rename_i i hnode
      split at h
      · rename_i hjsr
        have hcall : i.isCall = true := by simpa [InstValue.isCall] using hjsr
        rcases List.mem_append.1 h with h | h
        · obtain ⟨callee, hcallee, heq⟩ := List.mem_map.1 h
          cases heq
          exact .inl ⟨⟨⟨i, hnode, hcall⟩, mem_callees.1 hcallee⟩, rfl⟩
        · obtain ⟨n, hn, heq⟩ := List.mem_map.1 h
          cases heq
          exact .inr ⟨.behind hnode hcall hn, rfl⟩
      · rename_i hjsr
        split at h
        · cases h
        · rename_i hret
          obtain ⟨n, hn, heq⟩ := List.mem_map.1 h
          cases heq
          have hcall : i.isCall = false := by simpa [InstValue.isCall] using hjsr
          exact .inr ⟨.along hnode hcall (by simpa using hret) (mem_follows.1 hn), rfl⟩
  · rintro (⟨⟨⟨i, hnode, hcall⟩, hcallee⟩, rfl⟩ | ⟨hflows, rfl⟩)
    · have hjsr : i.instID = .JSR ∨ i.instID = .JSRR := by simpa [InstValue.isCall] using hcall
      rw [hnode]
      dsimp only
      rw [if_pos hjsr]
      exact List.mem_append_left _ (List.mem_map.2 ⟨c, mem_callees.2 hcallee, rfl⟩)
    · cases hflows with
      | @behind i hnode hcall hnext =>
          have hjsr : i.instID = .JSR ∨ i.instID = .JSRR := by simpa [InstValue.isCall] using hcall
          rw [hnode]
          dsimp only
          rw [if_pos hjsr]
          exact List.mem_append_right _ (List.mem_map.2 ⟨next, hnext, rfl⟩)
      | @along i hnode hcall hret hedge =>
          have hjsr : ¬ (i.instID = .JSR ∨ i.instID = .JSRR) := by simpa [InstValue.isCall] using hcall
          rw [hnode]
          dsimp only
          rw [if_neg hjsr, if_neg (by simp [hret])]
          exact List.mem_map.2 ⟨_, mem_follows.2 hedge, rfl⟩

/-- What the search from the main code reaches. -/
theorem reaches_iff_inside (hnode : (fg.getNodeByAddr fg.initPC).isSome) :
    Relation.ReflTransGen (fun p q => q ∈ fg.colorNext p) (fg.initPC, fg.initPC) (node, color) ↔
      fg.Inside color node := by
  constructor
  · intro h
    generalize hp : (node, color) = p at h
    induction h generalizing node color with
    | refl =>
        cases hp
        exact ⟨.main hnode, .refl⟩
    | @tail q _ _ hstep ih =>
        subst hp
        obtain ⟨n, c⟩ := q
        rcases mem_colorNext.1 hstep with ⟨hcalls, rfl⟩ | ⟨hflows, rfl⟩
        · exact (ih rfl).calls hcalls
        · exact (ih rfl).flows hflows
  · rintro ⟨hentry, hreach⟩
    -- The path inside the last subroutine comes after the one to its entry.
    have hinside : ∀ {c n : Word}, Relation.ReflTransGen (fun p q => q ∈ fg.colorNext p)
        (fg.initPC, fg.initPC) (c, c) → Relation.ReflTransGen fg.Flows c n →
        Relation.ReflTransGen (fun p q => q ∈ fg.colorNext p) (fg.initPC, fg.initPC) (n, c) := by
      intro c n hstart hreach
      induction hreach with
      | refl => exact hstart
      | tail _ hflows ih => exact ih.tail (mem_colorNext.2 (.inr ⟨hflows, rfl⟩))
    refine hinside ?_ hreach
    clear hreach
    induction hentry with
    | main => exact .refl
    | called _ hreach hcalls ih =>
        exact (hinside ih hreach).tail (mem_colorNext.2 (.inl ⟨hcalls, rfl⟩))

/-! ## Edges of calls -/

/-- There is an edge of the call at `i`. -/
def HasCallEdge (fg : FlowGraph) (i : InstValue) : Prop :=
  ∃ e ∈ fg.edges, e.type = .jsr ∧ e.src = some i.addr ∧ e.dst = some (i.addr + 1 + i.imm11)

theorem Builds.hasCallEdge {fg' : FlowGraph} {insts : List InstValue} {i : InstValue}
    (h : Builds insts fg fg') (he : fg.HasCallEdge i) : fg'.HasCallEdge i := by
  obtain ⟨new, hedges, -⟩ := h.edges
  obtain ⟨e, hmem, hedge⟩ := he
  exact ⟨e, hedges ▸ List.mem_append_left new hmem, hedge⟩

theorem setNodeOutEdges_hasCallEdge {i : InstValue} (hid : i.instID = .JSR)
    (hentry : (fg.getNodeByAddr (i.addr + 1 + i.imm11)).isSome) :
    (fg.setNodeOutEdgesWithInst i).HasCallEdge i := by
  rw [setNodeOutEdgesWithInst, hid]
  dsimp only
  have hfirst : (fg.newEdgeToAddrIfExists i.addr (i.addr + 1 + i.imm11) .jsr).HasCallEdge i := by
    rw [newEdgeToAddrIfExists, if_pos hentry]
    exact ⟨_, List.mem_append_right _ (List.mem_singleton.2 rfl), rfl, rfl, rfl⟩
  exact (newEdgeToAddrIfExists_builds (i := i) _ (i.addr + 1) (t := .subroutineVirtual)
    (by simp)).hasCallEdge hfirst

theorem foldl_hasCallEdge (nodes : List (Word × InstValue)) (fg : FlowGraph) :
    ∀ i ∈ nodes.map Prod.snd, i.instID = .JSR →
      (fg.getNodeByAddr (i.addr + 1 + i.imm11)).isSome →
      (nodes.foldl (fun (fg : FlowGraph) node => fg.setNodeOutEdgesWithInst node.2)
        fg).HasCallEdge i := by
  induction nodes generalizing fg with
  | nil => simp
  | cons node nodes ih =>
      intro i hi hid hentry
      rcases List.mem_cons.1 hi with rfl | hi
      · exact (foldl_setNodeOutEdges nodes _).1.hasCallEdge (setNodeOutEdges_hasCallEdge hid hentry)
      · refine ih _ i hi hid ?_
        rw [(setNodeOutEdgesWithInst_spec fg node.2).1.getNodeByAddr]
        exact hentry

/-- In the graph of a loaded program a `JSR` calls its target. -/
theorem build_calls {mem : List (Word × MemValue)} {initPC : Word} {i : InstValue}
    (hmem : Loaded mem) (hnode : (FlowGraph.build mem initPC).getNodeByAddr node = some i)
    (hid : i.instID = .JSR)
    (hentry : ((FlowGraph.build mem initPC).getNodeByAddr (i.addr + 1 + i.imm11)).isSome) :
    (FlowGraph.build mem initPC).Calls node (i.addr + 1 + i.imm11) := by
  obtain ⟨hsound, hnodes, -⟩ := build_sound hmem initPC
  have haddr := hsound.placed node i hnode
  refine ⟨⟨i, hnode, by simp [InstValue.isCall, hid]⟩, ?_⟩
  rw [FlowGraph.getNodeByAddr, hnodes] at hnode hentry
  have hi : i ∈ (userInsts mem).map Prod.snd :=
    List.mem_map_of_mem ((lookup_eq_some_iff_mem (userInsts_keys hmem.keys)).1 hnode)
  obtain ⟨e, he, htype, hsrc, hdst⟩ :=
    foldl_hasCallEdge (userInsts mem) ⟨userInsts mem, [], initPC, none, none⟩ i hi hid hentry
  refine ⟨e, ?_, .inl htype, hsrc.trans (congrArg some haddr), hdst⟩
  unfold FlowGraph.build
  dsimp only
  split
  · exact List.mem_append_left _ he
  · exact he

end FlowGraph

namespace FlowAnalysis

variable {fa fa' : FlowAnalysis} {node color : Word}

/-- Every colour in use is a subroutine that is set up. -/
def KnowsColors (fa : FlowAnalysis) : Prop :=
  ∀ p ∈ fa.marks, fa.Knows p.2

theorem KnowsColors.of_marks (h : fa.KnowsColors) (hmarks : fa'.marks = fa.marks)
    (hknows : ∀ c, fa.Knows c → fa'.Knows c) : fa'.KnowsColors := fun p hp =>
  hknows _ (h p (hmarks ▸ hp))

theorem colorPath_knowsColors {n : Nat} (hcolors : fa.KnowsColors) (hknows : fa.Knows color)
    (h : colorPath n fa node color = .ok fa') : fa'.KnowsColors := by
  induction n generalizing fa fa' node color with
  | zero =>
      cases h
      exact hcolors
  | succ n ih =>
      unfold colorPath at h
      split at h
      · cases h
        exact hcolors
      split at h
      · cases h
      dsimp only at h
      have hinsert : (fa.insertColor node color).KnowsColors := by
        intro p hp
        rw [marks_insertColor] at hp
        rw [knows_insertColor]
        rcases hp with rfl | hp
        · exact hknows
        · exact hcolors p hp
      have hknows' := (knows_insertColor fa node color).2 hknows
      split at h
      · obtain ⟨fa₁, hfold, h⟩ := Except.bind_eq_ok_iff.1 h
        have hfold' := Except.foldlM_ok_induction
          (motive := fun (_ : List Word) (f : FlowAnalysis) => f.KnowsColors ∧ f.Knows color)
          ⟨hinsert, hknows'⟩ (by
            rintro done callee f f' ⟨hf, hfcolor⟩ hstep
            have henter : ∀ c, f.Knows c → (f.enterSubroutine callee).Knows c := fun c hc =>
              (knows_enterSubroutine f callee).2 (.inr hc)
            exact ⟨ih (hf.of_marks (marks_enterSubroutine f callee) henter)
              ((knows_enterSubroutine f callee).2 (.inl rfl)) hstep,
              colorPath_knows hstep (henter color hfcolor)⟩) hfold
        obtain ⟨retTo, -, h⟩ := Except.bind_eq_ok_iff.1 h
        cases retTo with
        | some next => exact ih hfold'.1 hfold'.2 h
        | none =>
            cases h
            exact hfold'.1
      · split at h
        · split at h
          · split at h
            · cases h
            · cases h
              exact hinsert.of_marks rfl fun c hc => (knows_setSubroutine _ _ _).2 (.inr hc)
          · cases h
            exact hinsert
        · refine (Except.foldlM_ok_induction
            (motive := fun (_ : List (Nat × Edge)) (f : FlowAnalysis) =>
              f.KnowsColors ∧ f.Knows color) ⟨hinsert, hknows'⟩ ?_ h).1
          rintro done e f f' ⟨hf, hfcolor⟩ hstep
          split at hstep
          · exact ⟨ih hf hfcolor hstep, colorPath_knows hstep hfcolor⟩
          · cases hstep
            exact ⟨hf, hfcolor⟩

/-- No call at the last address is marked: the address after it would be looked up. -/
def CallsWithin (fg : FlowGraph) (fa : FlowAnalysis) : Prop :=
  ∀ color i, (0xFFFF, color) ∈ fa.marks → fg.getNodeByAddr 0xFFFF = some i → i.isCall = false

theorem CallsWithin.insertColor {fg : FlowGraph} {i : InstValue} (h : CallsWithin fg fa)
    (hnode : fg.getNodeByAddr node = some i) (hcall : node = 0xFFFF → i.isCall = false) :
    CallsWithin fg (fa.insertColor node color) := by
  intro c j hmark hj
  rw [marks_insertColor] at hmark
  rcases hmark with heq | hmark
  · cases heq
    rw [hnode] at hj
    cases hj
    exact hcall rfl
  · exact h c j hmark hj

theorem colorPath_callsWithin {fg : FlowGraph} {n : Nat} (hfg : fa.fg = fg)
    (hwithin : CallsWithin fg fa) (h : colorPath n fa node color = .ok fa') :
    CallsWithin fg fa' := by
  induction n generalizing fa fa' node color with
  | zero =>
      cases h
      exact hwithin
  | succ n ih =>
      unfold colorPath at h
      split at h
      · cases h
        exact hwithin
      split at h
      · cases h
      rename_i inst hnode
      rw [hfg] at hnode
      dsimp only at h
      have hfg₁ : (fa.insertColor node color).fg = fg := (insertColor_fg _ _ _).trans hfg
      split at h
      · obtain ⟨fa₁, hfold, h⟩ := Except.bind_eq_ok_iff.1 h
        obtain ⟨retTo, hretTo, h⟩ := Except.bind_eq_ok_iff.1 h
        have hlast := (FlowGraph.getRetToNode_eq_ok.1 hretTo).1
        obtain ⟨hwithin₁, hfg₁⟩ := Except.foldlM_ok_induction
          (motive := fun (_ : List Word) (f : FlowAnalysis) => CallsWithin fg f ∧ f.fg = fg)
          ⟨hwithin.insertColor hnode (absurd · hlast), hfg₁⟩ (by
            rintro done callee f f' ⟨hf, hffg⟩ hstep
            have hffg' := (enterSubroutine_fg f callee).trans hffg
            have hf' : CallsWithin fg (f.enterSubroutine callee) := by
              unfold CallsWithin
              rw [marks_enterSubroutine]
              exact hf
            exact ⟨ih hffg' hf' hstep, (colorPath_fg hstep).trans hffg'⟩) hfold
        cases retTo with
        | some next => exact ih hfg₁ hwithin₁ h
        | none =>
            cases h
            exact hwithin₁
      · rename_i hjsr
        have hinsert : CallsWithin fg (fa.insertColor node color) :=
          hwithin.insertColor hnode fun _ => by simpa [InstValue.isCall] using hjsr
        split at h
        · split at h
          · split at h
            · cases h
            · cases h
              exact hinsert
          · cases h
            exact hinsert
        · refine (Except.foldlM_ok_induction
            (motive := fun (_ : List (Nat × Edge)) (f : FlowAnalysis) =>
              CallsWithin fg f ∧ f.fg = fg) ⟨hinsert, hfg₁⟩ ?_ h).1
          rintro done e f f' ⟨hf, hffg⟩ hstep
          split at hstep
          · exact ⟨ih hffg hf hstep, (colorPath_fg hstep).trans hffg⟩
          · cases hstep
            exact ⟨hf, hffg⟩

/-- The constructor of the tracker marks what is reached from the main code. -/
theorem colorFlowGraph_spec {fg : FlowGraph}
    (h : colorFlowGraph ⟨fg, [], [], []⟩ = .ok fa) :
    (∀ node color, (node, color) ∈ fa.marks ↔ fg.Inside color node) ∧ fa.KnowsColors ∧
      CallsWithin fg fa := by
  unfold colorFlowGraph at h
  dsimp only at h
  split at h
  · rename_i hnone
    cases h
    refine ⟨fun node color => ⟨fun hmark => (by cases hmark), fun hinside => ?_⟩,
      fun p hp => (by cases hp), fun c i hmark => (by cases hmark)⟩
    have hentry := hinside.1
    clear hinside
    induction hentry with
    | main hnode => simp_all
    | called _ _ _ ih => exact absurd (ih : _ ∈ (FlowAnalysis.mk fg [] [] []).marks) (by rintro ⟨⟩)
  · rename_i hsome
    obtain ⟨fa₁, hcolor, h⟩ := Except.bind_eq_ok_iff.1 h
    have hnode : (fg.getNodeByAddr fg.initPC).isSome := by
      simpa [Option.isSome_iff_ne_none] using hsome
    have hempty : (setSubroutine ⟨fg, [], [], []⟩ fg.initPC
        ⟨fg.initPC, fg.initPC, [], []⟩).marks = ∅ :=
      Set.eq_empty_of_forall_notMem fun p hp => (by cases hp)
    have hspread := color_spreads hcolor
    rw [hempty] at hspread
    have hmarks : ∀ node color, (node, color) ∈ fa₁.marks ↔ fg.Inside color node := by
      intro node color
      rw [hspread.mem_iff, ← FlowGraph.reaches_iff_inside hnode]
      simp
      rfl
    have hknows : fa₁.KnowsColors := by
      refine colorPath_knowsColors (fun p hp => ?_) ((knows_setSubroutine _ _ _).2 (.inl rfl)) hcolor
      rw [hempty] at hp
      cases hp
    have hwithin : CallsWithin fg fa₁ := by
      refine colorPath_callsWithin rfl (fun c i hmark => ?_) hcolor
      rw [hempty] at hmark
      cases hmark
    -- The exit edges that are constructed afterwards are no matter of colours.
    refine Except.foldlM_ok_induction (motive := fun _ (f : FlowAnalysis) =>
      (∀ node color, (node, color) ∈ f.marks ↔ fg.Inside color node) ∧ f.KnowsColors ∧
        CallsWithin fg f) ⟨hmarks, hknows, hwithin⟩ ?_ h
    rintro done ⟨e, i⟩ f f' hf hstep
    dsimp only at hstep
    split at hstep
    · split at hstep
      · cases hstep
      · split at hstep
        · cases hstep
          exact hf
        · obtain ⟨hsame, hpaints⟩ := setUpEntryExitPairs_spec hstep
          refine ⟨by rw [hsame]; exact hf.1, hf.2.1.of_marks hsame hpaints.knows, ?_⟩
          unfold CallsWithin
          rw [hsame]
          exact hf.2.2
    · cases hstep
      exact hf

/-- The colours that a program starts with. -/
theorem new_marks {mem : List (Word × MemValue)} {initPC : Word}
    (h : FlowAnalysis.new mem initPC = .ok fa) :
    (∀ node color, fa.hasColor node color = true ↔
      (FlowGraph.build mem initPC).Inside color node) ∧ fa.KnowsColors := by
  obtain ⟨-, fa₁, hcolor, rfl⟩ := new_eq_ok.1 h
  obtain ⟨hmarks, hknows, -⟩ := colorFlowGraph_spec hcolor
  exact ⟨hmarks, hknows.of_marks rfl fun _ => id⟩

end FlowAnalysis

end Klc3
