import Klc3.Verification.FlowGraph.Edges

/-!
# Static edges

The constructor of the flow graph gives every user instruction an edge to each of its
static successors that is a user instruction, and every `TRAP` that does not come back
an edge that stands for halting in it.
-/

namespace Klc3

/-- A memory as `Loader` fills it: a map in which an instruction knows its address. -/
structure Loaded (mem : List (Word × MemValue)) : Prop where
  keys : (mem.map Prod.fst).Nodup
  addr : ∀ addr i, (addr, MemValue.inst i) ∈ mem → i.addr = addr

/-- A map with different keys. -/
theorem lookup_eq_some_iff_mem {α β : Type} [BEq α] [LawfulBEq α] {l : List (α × β)} {a : α} {b : β}
    (h : (l.map Prod.fst).Nodup) : l.lookup a = some b ↔ (a, b) ∈ l := by
  induction l with
  | nil => simp
  | cons p l ih =>
      obtain ⟨k, v⟩ := p
      obtain ⟨hnot, hrest⟩ := List.nodup_cons.1 h
      by_cases hk : a = k
      · subst hk
        have hnone : (a, b) ∉ l := fun hin => hnot (List.mem_map.2 ⟨_, hin, rfl⟩)
        simp [List.lookup_cons_self, hnone, eq_comm]
      · rw [List.lookup_cons, beq_false_of_ne hk, ih hrest]
        simp [hk]

/-- Where an instruction can lead without a dynamic jump; nowhere, in a trap that does
not come back. -/
def InstValue.successors (i : InstValue) : List (Option Word) :=
  let pc := i.addr + 1
  match i.instID with
  | .BR => (if i.cc = 7 then [] else [some pc]) ++ (if i.cc = 0 then [] else [some (pc + i.imm9)])
  | .JSR => [some (pc + i.imm11)]
  | .JMP | .JSRR => []
  | .TRAP => if i.vec8 ∈ FlowGraph.returningVectors then [some pc] else [none]
  | _ => [some pc]

namespace FlowGraph

variable {fg fg' : FlowGraph} {i : InstValue} {insts : List InstValue} {src dst : Option Word}

/-- All static successors of an instruction that exist are reached by an edge. -/
def Static (fg : FlowGraph) (i : InstValue) : Prop :=
  ∀ dst ∈ i.successors, (∀ addr, dst = some addr → (fg.getNodeByAddr addr).isSome) →
    fg.HasEdge (some i.addr) dst

/-- What constructing static edges out of some instructions does to the graph. -/
structure Builds (insts : List InstValue) (fg fg' : FlowGraph) : Prop where
  nodes : fg'.nodes = fg.nodes
  initPC : fg'.initPC = fg.initPC
  initPCEdge : fg'.initPCEdge = fg.initPCEdge
  tracker : fg.tracker = none → fg'.tracker = none
  edges : ∃ new : List Edge, fg'.edges = fg.edges ++ new ∧
    ∀ e ∈ new, e.covered = false ∧ (e.dst = none → e.type = .trapVirtual) ∧
      ∃ i ∈ insts, e.src = some i.addr ∧ (e.type = .trapVirtual → i.instID = .TRAP)

theorem Builds.refl (insts : List InstValue) (fg : FlowGraph) : Builds insts fg fg :=
  ⟨rfl, rfl, rfl, id, [], by simp, by simp⟩

theorem Builds.trans {fg'' : FlowGraph} {insts' : List InstValue} (h : Builds insts fg fg')
    (h' : Builds insts' fg' fg'') : Builds (insts ++ insts') fg fg'' where
  nodes := h'.nodes.trans h.nodes
  initPC := h'.initPC.trans h.initPC
  initPCEdge := h'.initPCEdge.trans h.initPCEdge
  tracker hnone := h'.tracker (h.tracker hnone)
  edges := by
    obtain ⟨new, hedges, hnew⟩ := h.edges
    obtain ⟨new', hedges', hnew'⟩ := h'.edges
    refine ⟨new ++ new', by rw [hedges', hedges, List.append_assoc], ?_⟩
    intro e he
    rcases List.mem_append.1 he with he | he
    · obtain ⟨hcovered, hdst, i, hi, hedge⟩ := hnew e he
      exact ⟨hcovered, hdst, i, List.mem_append_left _ hi, hedge⟩
    · obtain ⟨hcovered, hdst, i, hi, hedge⟩ := hnew' e he
      exact ⟨hcovered, hdst, i, List.mem_append_right _ hi, hedge⟩

theorem Builds.getNodeByAddr (h : Builds insts fg fg') (addr : Word) :
    fg'.getNodeByAddr addr = fg.getNodeByAddr addr := by
  rw [FlowGraph.getNodeByAddr, h.nodes]
  rfl

theorem Builds.hasEdge (h : Builds insts fg fg') (he : fg.HasEdge src dst) : fg'.HasEdge src dst := by
  obtain ⟨new, hedges, -⟩ := h.edges
  obtain ⟨e, hmem, hedge⟩ := he
  exact ⟨e, hedges ▸ List.mem_append_left new hmem, hedge⟩

/-- Twice the same instruction. -/
theorem Builds.twice (h : Builds ([i] ++ [i]) fg fg') : Builds [i] fg fg' := by
  obtain ⟨new, hedges, hnew⟩ := h.edges
  refine ⟨h.nodes, h.initPC, h.initPCEdge, h.tracker, new, hedges, fun e he => ?_⟩
  obtain ⟨hcovered, hdst, j, hj, hedge⟩ := hnew e he
  exact ⟨hcovered, hdst, j, by simpa using hj, hedge⟩

theorem newEdge_builds {type : EdgeType} (htype : type = .trapVirtual → i.instID = .TRAP)
    (hdst : dst = none → type = .trapVirtual) :
    Builds [i] fg (fg.newEdge (some i.addr) dst type none).1 where
  nodes := rfl
  initPC := rfl
  initPCEdge := rfl
  tracker hnone := by simp [newEdge, hnone]
  edges := ⟨[⟨type, some i.addr, dst, false, false, none⟩], rfl, by simpa using ⟨hdst, htype⟩⟩

theorem newEdgeToAddrIfExists_builds {t : EdgeType} (fg : FlowGraph) (addr : Word)
    (htype : t = .trapVirtual → i.instID = .TRAP) :
    Builds [i] fg (fg.newEdgeToAddrIfExists i.addr addr t) := by
  unfold newEdgeToAddrIfExists
  split
  · exact newEdge_builds htype (by simp)
  · exact .refl _ fg

theorem hasEdge_newEdgeToAddrIfExists {type : EdgeType} {addr : Word}
    (htype : type.isRuntime = true) (haddr : (fg.getNodeByAddr addr).isSome) :
    (fg.newEdgeToAddrIfExists i.addr addr type).HasEdge (some i.addr) (some addr) := by
  rw [newEdgeToAddrIfExists, if_pos haddr]
  exact hasEdge_newEdge none htype

/-- One successor is reached after the edge to it is constructed. -/
theorem static_single {type : EdgeType} {addr : Word} (htype : type.isRuntime = true)
    (h : i.successors = [some addr]) : (fg.newEdgeToAddrIfExists i.addr addr type).Static i := by
  intro dst hdst hnode
  rw [h, List.mem_singleton] at hdst
  subst hdst
  refine hasEdge_newEdgeToAddrIfExists htype ?_
  have hsome := hnode addr rfl
  rw [getNodeByAddr, newEdgeToAddrIfExists] at hsome
  split at hsome <;> exact hsome

theorem setNodeOutEdgesWithInst_spec (fg : FlowGraph) (i : InstValue) :
    Builds [i] fg (fg.setNodeOutEdgesWithInst i) ∧ (fg.setNodeOutEdgesWithInst i).Static i := by
  have hplain : ∀ {type : EdgeType} {addr : Word}, type.isRuntime = true →
      (type = .trapVirtual → i.instID = .TRAP) → i.successors = [some addr] →
      Builds [i] fg (fg.newEdgeToAddrIfExists i.addr addr type) ∧
        (fg.newEdgeToAddrIfExists i.addr addr type).Static i := fun hrun htype hsucc =>
    ⟨newEdgeToAddrIfExists_builds fg _ htype, static_single hrun hsucc⟩
  unfold setNodeOutEdgesWithInst
  dsimp only
  split
  · rename_i hid
    split
    · rename_i hcc
      exact hplain rfl (by simp) (by simp [InstValue.successors, hid, hcc])
    · rename_i hcc
      split
      · rename_i hnone
        refine ⟨newEdgeToAddrIfExists_builds fg _ (by simp), ?_⟩
        intro dst hdst hnode
        have hdst : dst = some (i.addr + 1) := by
          simp only [InstValue.successors, hid, hcc, if_false] at hdst
          rcases hnone with hzero | hsame
          · simpa [hzero] using hdst
          · rw [hsame] at hdst
            split at hdst <;> simpa using hdst
        subst hdst
        refine hasEdge_newEdgeToAddrIfExists rfl ?_
        have hsome := hnode _ rfl
        rwa [(newEdgeToAddrIfExists_builds (i := i) fg _ (by simp)).getNodeByAddr] at hsome
      · rename_i hboth
        have hfirst := newEdgeToAddrIfExists_builds (i := i) fg (i.addr + 1) (t := .normal)
          (by simp)
        have hsecond := newEdgeToAddrIfExists_builds (i := i)
          (fg.newEdgeToAddrIfExists i.addr (i.addr + 1) .normal) (i.addr + 1 + i.imm9)
          (t := .normal) (by simp)
        refine ⟨(hfirst.trans hsecond).twice, ?_⟩
        intro dst hdst hnode
        have hnode' : ∀ addr, dst = some addr → (fg.getNodeByAddr addr).isSome := by
          intro addr haddr
          rw [← (hfirst.trans hsecond).getNodeByAddr]
          exact hnode addr haddr
        simp only [InstValue.successors, hid, hcc, if_false, List.mem_append,
          List.mem_singleton] at hdst
        rcases hdst with rfl | hdst
        · exact hsecond.hasEdge (hasEdge_newEdgeToAddrIfExists rfl (hnode' _ rfl))
        · split at hdst
          · cases hdst
          · rw [List.mem_singleton] at hdst
            subst hdst
            refine hasEdge_newEdgeToAddrIfExists rfl ?_
            rw [hfirst.getNodeByAddr]
            exact hnode' _ rfl
  · rename_i hid
    have hfirst := newEdgeToAddrIfExists_builds (i := i) fg (i.addr + 1 + i.imm11) (t := .jsr)
      (by simp)
    have hsecond := newEdgeToAddrIfExists_builds (i := i)
      (fg.newEdgeToAddrIfExists i.addr (i.addr + 1 + i.imm11) .jsr) (i.addr + 1)
      (t := .subroutineVirtual) (by simp)
    refine ⟨(hfirst.trans hsecond).twice, ?_⟩
    intro dst hdst hnode
    simp only [InstValue.successors, hid, List.mem_singleton] at hdst
    subst hdst
    refine hsecond.hasEdge (hasEdge_newEdgeToAddrIfExists rfl ?_)
    rw [← (hfirst.trans hsecond).getNodeByAddr]
    exact hnode _ rfl
  · rename_i hid
    exact ⟨.refl _ fg, by simp [Static, InstValue.successors, hid]⟩
  · rename_i hid
    exact ⟨.refl _ fg, by simp [Static, InstValue.successors, hid]⟩
  · rename_i hid
    split
    · rename_i hret
      exact hplain rfl (fun _ => hid) (by simp [InstValue.successors, hid, hret])
    · rename_i hret
      refine ⟨newEdge_builds (fun _ => hid) fun _ => rfl, ?_⟩
      intro dst hdst _
      simp only [InstValue.successors, hid, hret, if_false, List.mem_singleton] at hdst
      subst hdst
      exact hasEdge_newEdge none rfl
  · rename_i hBR hJSR hJMP hJSRR hTRAP
    refine hplain rfl (by simp) ?_
    unfold InstValue.successors
    dsimp only
    split <;> first | rfl | exact absurd ‹_› (by assumption)

theorem Builds.static (h : Builds insts fg fg') (hs : fg.Static i) : fg'.Static i := by
  intro dst hdst hnode
  refine h.hasEdge (hs dst hdst fun addr haddr => ?_)
  rw [← h.getNodeByAddr]
  exact hnode addr haddr

/-- The second pass of `constructFromInitMem`. -/
theorem foldl_setNodeOutEdges (nodes : List (Word × InstValue)) (fg : FlowGraph) :
    Builds (nodes.map Prod.snd) fg
      (nodes.foldl (fun (fg : FlowGraph) node => fg.setNodeOutEdgesWithInst node.2) fg) ∧
    ∀ i ∈ nodes.map Prod.snd,
      (nodes.foldl (fun (fg : FlowGraph) node => fg.setNodeOutEdgesWithInst node.2) fg).Static i := by
  induction nodes generalizing fg with
  | nil => exact ⟨.refl _ fg, by simp⟩
  | cons node nodes ih =>
      obtain ⟨hbuilds, hstatic⟩ := setNodeOutEdgesWithInst_spec fg node.2
      obtain ⟨hrest, hstatics⟩ := ih (fg.setNodeOutEdgesWithInst node.2)
      refine ⟨hbuilds.trans hrest, fun i hi => ?_⟩
      rcases List.mem_cons.1 hi with rfl | hi
      · exact hrest.static hstatic
      · exact hstatics i hi

/-! ## The graph of a loaded program -/

/-- The graph agrees with the instructions it was built from. -/
structure Sound (fg : FlowGraph) : Prop where
  placed : ∀ addr i, fg.getNodeByAddr addr = some i → i.addr = addr
  static : ∀ addr i, fg.getNodeByAddr addr = some i → fg.Static i
  traps : ∀ e ∈ fg.edges, e.type = .trapVirtual → ∃ i, e.src = some i.addr ∧
    fg.getNodeByAddr i.addr = some i ∧ i.instID = .TRAP
  halts : ∀ e ∈ fg.edges, e.type.isRuntime = true → e.dst = none → e.type = .trapVirtual
  init : (fg.getNodeByAddr fg.initPC).isSome → ∃ k e, fg.initPCEdge = some k ∧
    fg.edges[k]? = some e ∧ e.type = .initPCEntry ∧ e.src = none ∧ e.dst = some fg.initPC
  entry : ∀ (k : Nat) e, fg.edges[k]? = some e → e.src = none → fg.initPCEdge = some k

theorem Extends.static (h : fg.Extends fg') (hs : fg.Static i) : fg'.Static i := by
  intro dst hdst hnode
  refine h.hasEdge (hs dst hdst fun addr haddr => ?_)
  rw [← h.getNodeByAddr]
  exact hnode addr haddr

theorem Sound.extends (hs : fg.Sound) (h : fg.Extends fg') : fg'.Sound where
  placed addr i hi := hs.placed addr i (by rwa [h.getNodeByAddr] at hi)
  static addr i hi := h.static (hs.static addr i (by rwa [h.getNodeByAddr] at hi))
  traps e he htype := by
    rcases h.mem he with ⟨e₀, he₀, hsig⟩ | ⟨-, hdyn⟩
    · simp only [Edge.sig, Prod.mk.injEq] at hsig
      obtain ⟨i, hsrc, hnode, hid⟩ := hs.traps e₀ he₀ (hsig.1 ▸ htype)
      exact ⟨i, hsig.2.1.trans hsrc, by rwa [h.getNodeByAddr], hid⟩
    · rw [htype] at hdyn
      cases hdyn.1
  halts e he hrun hdst := by
    rcases h.mem he with ⟨e₀, he₀, hsig⟩ | ⟨-, -, -, hsome⟩
    · simp only [Edge.sig, Prod.mk.injEq] at hsig
      exact hsig.1.trans (hs.halts e₀ he₀ (hsig.1 ▸ hrun) (hsig.2.2.1 ▸ hdst))
    · rw [hdst] at hsome
      cases hsome
  init hnode := by
    rw [h.getNodeByAddr, h.initPC] at hnode
    obtain ⟨k, e, hk, hget, htype, hsrc, hdst⟩ := hs.init hnode
    obtain ⟨e', hget', hsig⟩ := h.getElem? hget
    simp only [Edge.sig, Prod.mk.injEq] at hsig
    exact ⟨k, e', h.initPCEdge.trans hk, hget', hsig.1.trans htype, hsig.2.1.trans hsrc,
      by rw [hsig.2.2.1, h.initPC, hdst]⟩
  entry k e hget hsrc := by
    rw [h.initPCEdge]
    rcases h.getElem?_cases hget with ⟨e₀, hget₀, hsig⟩ | ⟨-, -, -, hsome, -⟩
    · simp only [Edge.sig, Prod.mk.injEq] at hsig
      exact hs.entry k e₀ hget₀ (hsig.2.1 ▸ hsrc)
    · rw [hsrc] at hsome
      cases hsome

theorem mem_userInsts {mem : List (Word × MemValue)} {addr : Word} {i : InstValue} :
    (addr, i) ∈ userInsts mem ↔ (addr, MemValue.inst i) ∈ mem ∧ i.belongsToOS = false := by
  unfold userInsts
  simp only [List.mem_filterMap, Prod.exists]
  constructor
  · rintro ⟨a, v, hmem, hv⟩
    split at hv
    · split at hv
      · cases hv
      · rename_i hos
        cases hv
        exact ⟨hmem, by simpa using hos⟩
    · cases hv
  · rintro ⟨hmem, hos⟩
    exact ⟨addr, .inst i, hmem, by simp [hos]⟩

theorem userInsts_keys {mem : List (Word × MemValue)} (h : (mem.map Prod.fst).Nodup) :
    ((userInsts mem).map Prod.fst).Nodup := by
  induction mem with
  | nil => simp [userInsts]
  | cons item mem ih =>
      obtain ⟨hnot, hrest⟩ := List.nodup_cons.1 h
      have hrest := ih hrest
      have hsub : ∀ addr, addr ∈ (userInsts mem).map Prod.fst → addr ∈ mem.map Prod.fst := by
        intro addr haddr
        obtain ⟨⟨a, i⟩, hmem, rfl⟩ := List.mem_map.1 haddr
        exact List.mem_map.2 ⟨(a, .inst i), (mem_userInsts.1 hmem).1, rfl⟩
      unfold userInsts at hrest hsub ⊢
      rw [List.filterMap_cons]
      split
      · exact hrest
      · rename_i node hnode
        have hkey : node.1 = item.1 := by
          split at hnode
          · split at hnode
            · cases hnode
            · cases hnode
              rfl
          · cases hnode
        rw [List.map_cons, List.nodup_cons, hkey]
        exact ⟨fun hin => hnot (hsub _ hin), hrest⟩

/-- A node is a user instruction of the loaded memory. -/
theorem lookup_userInsts_iff {mem : List (Word × MemValue)} (h : (mem.map Prod.fst).Nodup)
    {addr : Word} {i : InstValue} :
    (userInsts mem).lookup addr = some i ↔
      mem.lookup addr = some (.inst i) ∧ i.belongsToOS = false := by
  rw [lookup_eq_some_iff_mem (userInsts_keys h), lookup_eq_some_iff_mem h, mem_userInsts]

/-- The constructor builds a sound graph in which nothing is covered. -/
theorem build_sound {mem : List (Word × MemValue)} (h : Loaded mem) (initPC : Word) :
    (FlowGraph.build mem initPC).Sound ∧ (FlowGraph.build mem initPC).nodes = userInsts mem ∧
    (FlowGraph.build mem initPC).initPC = initPC ∧ (FlowGraph.build mem initPC).tracker = none ∧
    ∀ e ∈ (FlowGraph.build mem initPC).edges, e.covered = false := by
  obtain ⟨hbuilds, hstatic⟩ := foldl_setNodeOutEdges (userInsts mem)
    ⟨userInsts mem, [], initPC, none, none⟩
  unfold FlowGraph.build
  dsimp only
  generalize (userInsts mem).foldl (fun (fg : FlowGraph) node => fg.setNodeOutEdgesWithInst node.2)
    ⟨userInsts mem, [], initPC, none, none⟩ = fg at hbuilds hstatic
  have hnodes : fg.nodes = userInsts mem := hbuilds.nodes
  have hmem : ∀ {addr i}, fg.getNodeByAddr addr = some i → (addr, i) ∈ userInsts mem := by
    intro addr i hi
    rw [getNodeByAddr, hnodes] at hi
    exact (lookup_eq_some_iff_mem (userInsts_keys h.keys)).1 hi
  have hplaced : ∀ addr i, fg.getNodeByAddr addr = some i → i.addr = addr := fun addr i hi =>
    h.addr addr i (mem_userInsts.1 (hmem hi)).1
  have hstatic' : ∀ addr i, fg.getNodeByAddr addr = some i → fg.Static i := fun addr i hi =>
    hstatic i (List.mem_map.2 ⟨_, hmem hi, rfl⟩)
  obtain ⟨new, hedges, hnew⟩ := hbuilds.edges
  rw [List.nil_append] at hedges
  have htraps : ∀ e ∈ fg.edges, e.type = .trapVirtual → ∃ i, e.src = some i.addr ∧
      fg.getNodeByAddr i.addr = some i ∧ i.instID = .TRAP := by
    intro e he htype
    obtain ⟨-, -, i, hi, hsrc, htrap⟩ := hnew e (hedges ▸ he)
    obtain ⟨⟨addr, i'⟩, hin, rfl⟩ := List.mem_map.1 hi
    have haddr : i'.addr = addr := h.addr addr i' (mem_userInsts.1 hin).1
    refine ⟨i', hsrc, ?_, htrap htype⟩
    rw [getNodeByAddr, hnodes, haddr]
    exact (lookup_eq_some_iff_mem (userInsts_keys h.keys)).2 hin
  have hcovered : ∀ e ∈ fg.edges, e.covered = false := fun e he => (hnew e (hedges ▸ he)).1
  have hhalts : ∀ e ∈ fg.edges, e.type.isRuntime = true → e.dst = none →
      e.type = .trapVirtual := fun e he _ => (hnew e (hedges ▸ he)).2.1
  have hsrc : ∀ e ∈ fg.edges, e.src ≠ none := by
    intro e he hnone
    obtain ⟨-, -, i, -, hsrc, -⟩ := hnew e (hedges ▸ he)
    rw [hnone] at hsrc
    cases hsrc
  split
  · refine ⟨⟨hplaced, fun addr i hi => ?_, ?_, ?_, ?_, ?_⟩, hnodes, hbuilds.initPC, ?_, ?_⟩
    · intro dst hdst hnode
      obtain ⟨e, he, hedge⟩ := hstatic' addr i hi dst hdst hnode
      exact ⟨e, List.mem_append_left _ he, hedge⟩
    · intro e he htype
      rcases List.mem_append.1 he with he | he
      · exact htraps e he htype
      · rw [List.mem_singleton.1 he] at htype
        cases htype
    · intro e he hrun hdst
      rcases List.mem_append.1 he with he | he
      · exact hhalts e he hrun hdst
      · rw [List.mem_singleton.1 he] at hdst
        cases hdst
    · intro _
      refine ⟨fg.edges.length, _, rfl, List.getElem?_concat_length, rfl, rfl, ?_⟩
      exact congrArg some hbuilds.initPC.symm
    · intro k e hget hnone
      rcases Nat.lt_or_ge k fg.edges.length with hk | hk
      · change (fg.edges ++ _)[k]? = some e at hget
        rw [List.getElem?_append_left hk] at hget
        exact absurd hnone (hsrc e (List.mem_of_getElem? hget))
      · obtain ⟨hlt, -⟩ := List.getElem?_eq_some_iff.1 hget
        have hlen : k < fg.edges.length + 1 := by simpa [newEdge] using hlt
        exact congrArg some (by omega : fg.edges.length = k)
    · simp [newEdge, hbuilds.tracker rfl]
    · intro e he
      rcases List.mem_append.1 he with he | he
      · exact hcovered e he
      · rw [List.mem_singleton.1 he]
  · rename_i hinit
    refine ⟨⟨hplaced, hstatic', htraps, hhalts, fun hsome => ?_, ?_⟩, hnodes, hbuilds.initPC, ?_,
      hcovered⟩
    · rw [hbuilds.initPC] at hsome
      exact absurd hsome hinit
    · intro k e hget hnone
      exact absurd hnone (hsrc e (List.mem_of_getElem? hget))
    · exact hbuilds.tracker rfl

end FlowGraph

end Klc3
