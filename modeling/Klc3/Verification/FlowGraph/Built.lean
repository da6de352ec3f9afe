import Klc3.Verification.FlowGraph.Static

/-!
# The edges of a new graph

The list of the static edges, instruction by instruction.
-/

namespace Klc3

namespace FlowGraph

variable {fg : FlowGraph} {i : InstValue} {node addr : Word} {type : EdgeType} {e : Edge}

/-- An edge as the constructor makes it. -/
def freshEdge (type : EdgeType) (src dst : Option Word) : Edge :=
  ⟨type, src, dst, false, false, none⟩

/-- The edge to an address, when there is a node. -/
def linkTo (fg : FlowGraph) (src addr : Word) (type : EdgeType) : List Edge :=
  if (fg.getNodeByAddr addr).isSome then [freshEdge type (some src) (some addr)] else []

/-- The out edges that an instruction gets. -/
def staticEdges (fg : FlowGraph) (i : InstValue) : List Edge :=
  let pc := i.addr + 1
  match i.instID with
  | .BR =>
    if i.cc = 7 then fg.linkTo i.addr (pc + i.imm9) .normal
    else if i.cc = 0 ∨ pc + i.imm9 = pc then fg.linkTo i.addr pc .normal
    else fg.linkTo i.addr pc .normal ++ fg.linkTo i.addr (pc + i.imm9) .normal
  | .JSR => fg.linkTo i.addr (pc + i.imm11) .jsr ++ fg.linkTo i.addr pc .subroutineVirtual
  | .JMP | .JSRR => []
  | .TRAP =>
    if i.vec8 ∈ returningVectors then fg.linkTo i.addr pc .trapVirtual
    else [freshEdge .trapVirtual (some i.addr) none]
  | _ => fg.linkTo i.addr pc .normal

theorem mem_linkTo {src : Word} (h : e ∈ fg.linkTo src addr type) :
    (fg.getNodeByAddr addr).isSome ∧ e = freshEdge type (some src) (some addr) := by
  unfold linkTo at h
  split at h
  · exact ⟨‹_›, List.mem_singleton.1 h⟩
  · cases h

/-- What a static edge looks like. -/
structure IsStatic (fg : FlowGraph) (i : InstValue) (e : Edge) : Prop where
  src : e.src = some i.addr
  dst : ∀ addr, e.dst = some addr → (fg.getNodeByAddr addr).isSome
  associatedEdge : e.associatedEdge = none

theorem isStatic_of_mem_linkTo (h : e ∈ fg.linkTo i.addr addr type) : fg.IsStatic i e := by
  obtain ⟨hnode, rfl⟩ := mem_linkTo h
  exact ⟨rfl, fun a ha => Option.some.inj ha ▸ hnode, rfl⟩

theorem isStatic_of_mem_staticEdges (h : e ∈ fg.staticEdges i) : fg.IsStatic i e := by
  unfold staticEdges at h
  dsimp only at h
  split at h
  · split at h
    · exact isStatic_of_mem_linkTo h
    · split at h
      · exact isStatic_of_mem_linkTo h
      · exact (List.mem_append.1 h).elim isStatic_of_mem_linkTo isStatic_of_mem_linkTo
  · exact (List.mem_append.1 h).elim isStatic_of_mem_linkTo isStatic_of_mem_linkTo
  · cases h
  · cases h
  · split at h
    · exact isStatic_of_mem_linkTo h
    · rw [List.mem_singleton.1 h]
      exact ⟨rfl, fun _ ha => (by cases ha), rfl⟩
  · exact isStatic_of_mem_linkTo h

theorem linkTo_congr {fg' : FlowGraph} (h : fg'.nodes = fg.nodes) (src addr : Word)
    (type : EdgeType) : fg'.linkTo src addr type = fg.linkTo src addr type := by
  unfold linkTo getNodeByAddr
  rw [h]

theorem staticEdges_congr {fg' : FlowGraph} (h : fg'.nodes = fg.nodes) (i : InstValue) :
    fg'.staticEdges i = fg.staticEdges i := by
  unfold staticEdges
  simp only [linkTo_congr h]

theorem newEdgeToAddrIfExists_edges (fg : FlowGraph) (src addr : Word) (type : EdgeType) :
    (fg.newEdgeToAddrIfExists src addr type).edges = fg.edges ++ fg.linkTo src addr type := by
  unfold newEdgeToAddrIfExists linkTo
  split
  · rfl
  · rw [List.append_nil]

theorem newEdgeToAddrIfExists_nodes (fg : FlowGraph) (src addr : Word) (type : EdgeType) :
    (fg.newEdgeToAddrIfExists src addr type).nodes = fg.nodes := by
  unfold newEdgeToAddrIfExists
  split <;> rfl

theorem newEdgeToAddrIfExists_twice_edges (fg : FlowGraph) (src addr addr' : Word)
    (type type' : EdgeType) :
    ((fg.newEdgeToAddrIfExists src addr type).newEdgeToAddrIfExists src addr' type').edges =
      fg.edges ++ (fg.linkTo src addr type ++ fg.linkTo src addr' type') := by
  rw [newEdgeToAddrIfExists_edges, newEdgeToAddrIfExists_edges,
    linkTo_congr (newEdgeToAddrIfExists_nodes fg src addr type), List.append_assoc]

theorem setNodeOutEdgesWithInst_edges (fg : FlowGraph) (i : InstValue) :
    (fg.setNodeOutEdgesWithInst i).edges = fg.edges ++ fg.staticEdges i := by
  unfold setNodeOutEdgesWithInst
  dsimp only
  split
  · rename_i hid
    simp only [staticEdges, hid]
    split
    · exact newEdgeToAddrIfExists_edges fg _ _ _
    · split
      · exact newEdgeToAddrIfExists_edges fg _ _ _
      · exact newEdgeToAddrIfExists_twice_edges fg _ _ _ _ _
  · rename_i hid
    simp only [staticEdges, hid]
    exact newEdgeToAddrIfExists_twice_edges fg _ _ _ _ _
  · rename_i hid
    simp only [staticEdges, hid, List.append_nil]
  · rename_i hid
    simp only [staticEdges, hid, List.append_nil]
  · rename_i hid
    simp only [staticEdges, hid]
    split
    · exact newEdgeToAddrIfExists_edges fg _ _ _
    · rfl
  · rename_i hbr hjsr hjmp hjsrr htrap
    unfold staticEdges
    dsimp only
    split
    · exact absurd ‹_› hbr
    · exact absurd ‹_› hjsr
    · exact absurd ‹_› hjmp
    · exact absurd ‹_› hjsrr
    · exact absurd ‹_› htrap
    · exact newEdgeToAddrIfExists_edges fg _ _ _

theorem foldl_setNodeOutEdges_edges (nodes : List (Word × InstValue)) (fg : FlowGraph) :
    (nodes.foldl (fun (fg : FlowGraph) node => fg.setNodeOutEdgesWithInst node.2) fg).edges =
      fg.edges ++ nodes.flatMap fun node => fg.staticEdges node.2 := by
  induction nodes generalizing fg with
  | nil => simp
  | cons node nodes ih =>
      have hnodes := (setNodeOutEdgesWithInst_spec fg node.2).1.nodes
      rw [List.foldl_cons, ih, setNodeOutEdgesWithInst_edges, List.flatMap_cons, List.append_assoc]
      simp only [staticEdges_congr hnodes]

/-- The edge into the initial PC. -/
def initEdges (fg : FlowGraph) : List Edge :=
  if (fg.getNodeByAddr fg.initPC).isSome then [freshEdge .initPCEntry none (some fg.initPC)] else []

/-- All edges of a new graph. -/
theorem build_edges (mem : List (Word × MemValue)) (initPC : Word) :
    (FlowGraph.build mem initPC).edges =
      ((FlowGraph.build mem initPC).nodes.flatMap fun node =>
        (FlowGraph.build mem initPC).staticEdges node.2) ++ (FlowGraph.build mem initPC).initEdges := by
  obtain ⟨hbuilds, -⟩ := foldl_setNodeOutEdges (userInsts mem)
    ⟨userInsts mem, [], initPC, none, none⟩
  have hedges := foldl_setNodeOutEdges_edges (userInsts mem) ⟨userInsts mem, [], initPC, none, none⟩
  unfold FlowGraph.build
  dsimp only
  generalize (userInsts mem).foldl (fun (fg : FlowGraph) node => fg.setNodeOutEdgesWithInst node.2)
    ⟨userInsts mem, [], initPC, none, none⟩ = fg at hbuilds hedges
  have hnodes : fg.nodes = userInsts mem := hbuilds.nodes
  have hinit : fg.initPC = initPC := hbuilds.initPC
  have hstatic : ∀ i, fg.staticEdges i =
      (⟨userInsts mem, [], initPC, none, none⟩ : FlowGraph).staticEdges i :=
    fun i => staticEdges_congr hnodes i
  rw [List.nil_append] at hedges
  split
  · rename_i hnode
    change fg.edges ++ [freshEdge .initPCEntry none (some initPC)] = _
    have hsame : ∀ i, ({ (fg.newEdge none (some initPC) .initPCEntry none).1 with
        initPCEdge := some (fg.newEdge none (some initPC) .initPCEntry none).2 } :
          FlowGraph).staticEdges i = fg.staticEdges i := fun i => staticEdges_congr rfl i
    rw [hedges, initEdges]
    simp only [hsame, hstatic]
    congr 1
    · rw [← hnodes]
      rfl
    · subst hinit
      exact (if_pos hnode).symm
  · rename_i hnone
    rw [hedges, initEdges, hinit, if_neg hnone, List.append_nil, hnodes]
    simp only [hstatic]

/-- An edge of a new graph is the one into the initial PC or belongs to an instruction. -/
theorem mem_build_edges {mem : List (Word × MemValue)} {initPC : Word}
    (h : e ∈ (FlowGraph.build mem initPC).edges) :
    (e = freshEdge .initPCEntry none (some (FlowGraph.build mem initPC).initPC) ∧
      ((FlowGraph.build mem initPC).getNodeByAddr (FlowGraph.build mem initPC).initPC).isSome) ∨
    ∃ p ∈ (FlowGraph.build mem initPC).nodes, e ∈ (FlowGraph.build mem initPC).staticEdges p.2 := by
  rw [build_edges] at h
  rcases List.mem_append.1 h with h | h
  · exact .inr (List.mem_flatMap.1 h)
  · unfold initEdges at h
    split at h
    · exact .inl ⟨List.mem_singleton.1 h, ‹_›⟩
    · cases h

theorem build_dst {mem : List (Word × MemValue)} {initPC : Word}
    (h : e ∈ (FlowGraph.build mem initPC).edges) (hdst : e.dst = some addr) :
    ((FlowGraph.build mem initPC).getNodeByAddr addr).isSome := by
  rcases mem_build_edges h with ⟨rfl, hinit⟩ | ⟨p, -, he⟩
  · exact Option.some.inj hdst ▸ hinit
  · exact (isStatic_of_mem_staticEdges he).dst addr hdst

/-- Only a `JSR` has an edge of a call. -/
theorem instID_of_mem_staticEdges (h : e ∈ fg.staticEdges i)
    (htype : e.type = .jsr ∨ e.type = .jsrr) : i.instID = .JSR := by
  have hplain : ∀ {type : EdgeType} {addr : Word}, ¬ (type = .jsr ∨ type = .jsrr) →
      e ∉ fg.linkTo i.addr addr type := by
    intro type addr hne he
    obtain ⟨-, rfl⟩ := mem_linkTo he
    exact hne htype
  unfold staticEdges at h
  dsimp only at h
  split at h
  · split at h
    · exact absurd h (hplain (by simp))
    · split at h
      · exact absurd h (hplain (by simp))
      · exact (List.mem_append.1 h).elim (fun h => absurd h (hplain (by simp)))
          fun h => absurd h (hplain (by simp))
  · assumption
  · cases h
  · cases h
  · split at h
    · exact absurd h (hplain (by simp))
    · rw [List.mem_singleton.1 h] at htype
      simp [freshEdge] at htype
  · exact absurd h (hplain (by simp))

theorem build_call {mem : List (Word × MemValue)} {initPC : Word} (hmem : Loaded mem)
    (h : e ∈ (FlowGraph.build mem initPC).edges) (htype : e.type = .jsr ∨ e.type = .jsrr)
    (hsrc : e.src = some node) :
    ∃ i, (FlowGraph.build mem initPC).getNodeByAddr node = some i ∧ i.instID = .JSR := by
  obtain ⟨-, hnodes, -⟩ := build_sound hmem initPC
  rcases mem_build_edges h with ⟨rfl, -⟩ | ⟨p, hp, he⟩
  · simp [freshEdge] at htype
  · refine ⟨p.2, ?_, instID_of_mem_staticEdges he htype⟩
    have haddr : p.2.addr = p.1 := by
      rw [hnodes] at hp
      exact hmem.addr p.1 p.2 (mem_userInsts.1 hp).1
    have hnode : p.1 = node := by
      rw [← haddr]
      exact Option.some.inj ((isStatic_of_mem_staticEdges he).src.symm.trans hsrc)
    rw [getNodeByAddr, hnodes]
    rw [hnodes] at hp
    exact (lookup_eq_some_iff_mem (userInsts_keys hmem.keys)).2 (hnode ▸ hp)

theorem build_callEnds {mem : List (Word × MemValue)} {initPC : Word} (hmem : Loaded mem)
    (e : Edge) (h : e ∈ (FlowGraph.build mem initPC).edges) (htype : e.type = .jsr ∨ e.type = .jsrr) :
    e.src.isSome ∧ e.dst.isSome := by
  constructor
  · rcases mem_build_edges h with ⟨rfl, -⟩ | ⟨p, -, he⟩
    · simp [freshEdge] at htype
    · rw [(isStatic_of_mem_staticEdges he).src]
      rfl
  · cases hdst : e.dst with
    | some addr => rfl
    | none =>
        have hrun : e.type.isRuntime = true := by
          rcases htype with htype | htype <;> (rw [htype]; rfl)
        have htrap := (build_sound hmem initPC).1.halts e h hrun hdst
        rcases htype with htype | htype <;> (rw [htrap] at htype; cases htype)

end FlowGraph

end Klc3
