import Klc3.Lib.Dfs
import Klc3.Verification.FlowGraph.Built
import Klc3.Verification.FlowGraph.Subroutines

/-!
# Exits of subroutines

The exits that `colorPath` records are the `RET`s that it meets after the last call of the
subroutine, since every call sets the subroutine up again.
-/

namespace Klc3

namespace FlowGraph

variable {fg : FlowGraph} {node next color c r : Word} {t : List (Word × Word)} {e : Edge}
  {i : InstValue}

/-! ## Calls of a new graph -/

/-- Where an edge calls to from a node. -/
def callFrom (node : Word) (e : Edge) : Option Word :=
  if (e.type = .jsr ∨ e.type = .jsrr) ∧ e.src = some node then e.dst else none

theorem callees_eq (fg : FlowGraph) (node : Word) :
    fg.callees node = fg.edges.filterMap (callFrom node) := by
  have hsplit : ∀ x : Edge × Nat, ((if x.1.type.isRuntime ∧ x.1.src = some node then some (x.2, x.1)
      else none : Option (Nat × Edge)).bind fun e =>
        if e.2.type = .jsr ∨ e.2.type = .jsrr then e.2.dst else none) = callFrom node x.1 := by
    intro x
    unfold callFrom
    by_cases htype : x.1.type = .jsr ∨ x.1.type = .jsrr
    · have hrun : x.1.type.isRuntime = true := by
        rcases htype with htype | htype <;> (rw [htype]; rfl)
      by_cases hsrc : x.1.src = some node
      · simp [htype, hrun, hsrc]
      · simp [hsrc]
    · by_cases hrun : x.1.type.isRuntime = true ∧ x.1.src = some node
      · simp [htype, hrun]
      · simp [htype, hrun]
  unfold callees runtimeOutEdges
  rw [List.filterMap_filterMap, ← List.zipIdx_map_fst 0 fg.edges, List.filterMap_map]
  simp only [List.zipIdx_map_fst]
  exact List.filterMap_congr fun x _ => hsplit x

theorem linkTo_callFrom {type : EdgeType} (htype : ¬ (type = .jsr ∨ type = .jsrr))
    (fg : FlowGraph) (src addr node : Word) :
    (fg.linkTo src addr type).filterMap (callFrom node) = [] := by
  unfold linkTo
  split
  · simp [callFrom, freshEdge, htype]
  · rfl

/-- Only a `JSR` calls, and it calls one address. -/
theorem staticEdges_callFrom (fg : FlowGraph) (i : InstValue) (node : Word) :
    ((fg.staticEdges i).filterMap (callFrom node)).length ≤ 1 ∧
      (i.addr ≠ node → (fg.staticEdges i).filterMap (callFrom node) = []) := by
  have hplain : ∀ {type : EdgeType} (src addr : Word), ¬ (type = .jsr ∨ type = .jsrr) →
      ((fg.linkTo src addr type).filterMap (callFrom node)).length ≤ 1 ∧
        (i.addr ≠ node → (fg.linkTo src addr type).filterMap (callFrom node) = []) := by
    intro type src addr htype
    rw [linkTo_callFrom htype]
    exact ⟨Nat.zero_le 1, fun _ => rfl⟩
  unfold staticEdges
  dsimp only
  split
  · split
    · exact hplain _ _ (by simp)
    · split
      · exact hplain _ _ (by simp)
      · rw [List.filterMap_append, linkTo_callFrom (by simp), List.nil_append]
        exact hplain _ _ (by simp)
  · have hvirtual : ¬ (EdgeType.subroutineVirtual = .jsr ∨ EdgeType.subroutineVirtual = .jsrr) := by
      simp
    rw [List.filterMap_append, linkTo_callFrom hvirtual, List.append_nil]
    unfold linkTo
    split
    · by_cases hnode : i.addr = node
      · simp [callFrom, freshEdge, hnode]
      · simp [callFrom, freshEdge, hnode]
    · exact ⟨Nat.zero_le 1, fun _ => rfl⟩
  · exact ⟨Nat.zero_le 1, fun _ => rfl⟩
  · exact ⟨Nat.zero_le 1, fun _ => rfl⟩
  · split
    · exact hplain _ _ (by simp)
    · simp [callFrom, freshEdge]
  · exact hplain _ _ (by simp)

/-- A node of a new graph calls at most one address. -/
theorem build_callees_length {mem : List (Word × MemValue)} (hmem : Loaded mem) (initPC node : Word) :
    ((FlowGraph.build mem initPC).callees node).length ≤ 1 := by
  obtain ⟨-, hnodes, -⟩ := build_sound hmem initPC
  have hinit : (FlowGraph.build mem initPC).initEdges.filterMap (callFrom node) = [] := by
    unfold initEdges
    split
    · simp [callFrom, freshEdge]
    · rfl
  rw [callees_eq, build_edges, List.filterMap_append, hinit, List.append_nil, List.filterMap_flatMap,
    hnodes]
  have hkeys := userInsts_keys hmem.keys
  have haddr : ∀ p ∈ userInsts mem, p.2.addr = p.1 := fun p hp =>
    hmem.addr p.1 p.2 (mem_userInsts.1 hp).1
  generalize FlowGraph.build mem initPC = fg
  generalize userInsts mem = l at hkeys haddr
  induction l with
  | nil => exact Nat.zero_le 1
  | cons p l ih =>
      obtain ⟨hnot, hkeys⟩ := List.nodup_cons.1 hkeys
      rw [List.flatMap_cons, List.length_append]
      by_cases hp : p.2.addr = node
      · have hrest : (l.flatMap fun q => (fg.staticEdges q.2).filterMap (callFrom node)) = [] := by
          rw [List.flatMap_eq_nil_iff]
          intro q hq
          refine (staticEdges_callFrom fg q.2 node).2 fun heq => hnot ?_
          rw [← haddr p List.mem_cons_self, hp, ← heq, haddr q (List.mem_cons_of_mem p hq)]
          exact List.mem_map_of_mem hq
        rw [hrest]
        exact (staticEdges_callFrom fg p.2 node).1
      · rw [(staticEdges_callFrom fg p.2 node).2 hp, List.length_nil, Nat.zero_add]
        exact ih hkeys fun q hq => haddr q (List.mem_cons_of_mem p hq)

/-! ## What is recorded -/

/-- The node is a `RET`. -/
def isExit (fg : FlowGraph) (node : Word) : Bool :=
  (fg.getNodeByAddr node).any fun i => i.isRET

/-- The addresses that a node calls. -/
def calledFrom (fg : FlowGraph) (node : Word) : List Word :=
  if (fg.getNodeByAddr node).any fun i => i.isCall then fg.callees node else []

theorem mem_calledFrom : c ∈ fg.calledFrom node ↔ fg.Calls node c := by
  unfold calledFrom Calls
  rw [← mem_callees]
  cases hnode : fg.getNodeByAddr node with
  | none => simp
  | some i => cases hcall : i.isCall <;> simp [hcall]

/-- The exits of a subroutine after the search has met `t`, the last vertex first. -/
def recorded (fg : FlowGraph) : List (Word × Word) → Word → Option (List Word)
  | [], _ => none
  | p :: t, c =>
    if c ∈ fg.calledFrom p.1 then some []
    else if fg.isExit p.1 ∧ p.2 = c then (recorded fg t c).map fun exits => exits ++ [p.1]
    else recorded fg t c

/-- Something is recorded for the subroutines that are called. -/
theorem recorded_isSome_iff : (fg.recorded t c).isSome ↔ ∃ p ∈ t, fg.Calls p.1 c := by
  induction t with
  | nil => simp [recorded]
  | cons q t ih =>
      unfold recorded
      rw [List.exists_mem_cons_iff, ← ih, ← mem_calledFrom]
      split
      · rename_i hcalled
        simp [hcalled]
      · rename_i hnot
        split <;> simp [hnot]

end FlowGraph

namespace FlowAnalysis

variable {fa fa' : FlowAnalysis} {fg : FlowGraph} {node color c : Word} {t : List (Word × Word)}

/-! ## What the search records -/

/-- The marks and the exits after the search has met `t`. -/
structure Records (fg : FlowGraph) (t : List (Word × Word)) (fa : FlowAnalysis) : Prop where
  graph : fa.fg = fg
  marks : ∀ p, p ∈ fa.marks ↔ p ∈ t
  exits : ∀ c ≠ fg.initPC,
    (fa.subroutines.lookup c).map SubroutineInfo.exits = fg.recorded t c
  noPairs : ∀ c info, fa.subroutines.lookup c = some info → info.eePairs = []

theorem lookup_setSubroutine (fa : FlowAnalysis) (entry color : Word) (info : SubroutineInfo) :
    (fa.setSubroutine entry info).subroutines.lookup color =
      if color = entry then some info else fa.subroutines.lookup color := by
  unfold setSubroutine
  by_cases heq : color = entry
  · simp [heq]
  · rw [if_neg heq, List.lookup_cons, beq_eq_false_iff_ne.2 heq]
    induction fa.subroutines with
    | nil => rfl
    | cons p l ih =>
        by_cases hp : p.1 = entry
        · have hne : (color == p.1) = false := beq_eq_false_iff_ne.2 (hp ▸ heq)
          rw [List.filter_cons, if_neg (by simp [hp]), List.lookup_cons, hne]
          exact ih
        · have hkeep : (p.1 != entry) = true := by simpa using hp
          rw [List.filter_cons, if_pos hkeep, List.lookup_cons, List.lookup_cons]
          cases color == p.1 with
          | true => rfl
          | false => exact ih

theorem lookup_enterSubroutine (fa : FlowAnalysis) (entry color : Word) :
    (fa.enterSubroutine entry).subroutines.lookup color =
      if color = entry then some ⟨entry, entry, [], []⟩ else fa.subroutines.lookup color := by
  rw [← lookup_setSubroutine]
  unfold enterSubroutine setEntry
  split <;> rfl

theorem lookup_insertColor (fa : FlowAnalysis) (node color c : Word) :
    (fa.insertColor node color).subroutines.lookup c = fa.subroutines.lookup c := by
  unfold insertColor
  split <;> rfl

/-- A node that neither calls nor returns is met. -/
theorem Records.insert (h : Records fg t fa) (hcalls : fg.calledFrom node = [])
    (hexit : fg.isExit node = true → color = fg.initPC) :
    Records fg ((node, color) :: t) (fa.insertColor node color) where
  graph := (insertColor_fg fa node color).trans h.graph
  marks p := by
    rw [marks_insertColor, Set.mem_insert_iff, h.marks, List.mem_cons]
  exits c hc := by
    have hnot : ¬ (fg.isExit node = true ∧ color = c) := fun hboth =>
      hc (hboth.2 ▸ hexit hboth.1)
    rw [lookup_insertColor, FlowGraph.recorded, hcalls, if_neg List.not_mem_nil, if_neg hnot]
    exact h.exits c hc
  noPairs c info hinfo := by
    rw [lookup_insertColor] at hinfo
    exact h.noPairs c info hinfo

/-- A call is met. -/
theorem Records.call {callee : Word} (h : Records fg t fa) (hcalls : fg.calledFrom node = [callee])
    (hexit : fg.isExit node = false) :
    Records fg ((node, color) :: t) ((fa.insertColor node color).enterSubroutine callee) where
  graph := ((enterSubroutine_fg _ _).trans (insertColor_fg fa node color)).trans h.graph
  marks p := by
    rw [marks_enterSubroutine, marks_insertColor, Set.mem_insert_iff, h.marks, List.mem_cons]
  exits c hc := by
    rw [lookup_enterSubroutine, FlowGraph.recorded, hcalls]
    by_cases heq : c = callee
    · rw [if_pos heq, if_pos (List.mem_singleton.2 heq)]
      rfl
    · rw [if_neg heq, if_neg (fun hmem => heq (List.mem_singleton.1 hmem)), lookup_insertColor,
        if_neg (fun hboth => by rw [hexit] at hboth; cases hboth.1)]
      exact h.exits c hc
  noPairs c info hinfo := by
    rw [lookup_enterSubroutine] at hinfo
    split at hinfo
    · cases hinfo
      rfl
    · rw [lookup_insertColor] at hinfo
      exact h.noPairs c info hinfo

/-- A `RET` of a subroutine is met. -/
theorem Records.return {info : SubroutineInfo} (h : Records fg t fa)
    (hcalls : fg.calledFrom node = []) (hexit : fg.isExit node = true)
    (hinfo : fa.subroutines.lookup color = some info) :
    Records fg ((node, color) :: t) ((fa.insertColor node color).setSubroutine color
      { info with exits := info.exits ++ [node] }) where
  graph := (insertColor_fg fa node color).trans h.graph
  marks p := by
    change p ∈ (fa.insertColor node color).marks ↔ _
    rw [marks_insertColor, Set.mem_insert_iff, h.marks, List.mem_cons]
  exits c hc := by
    rw [lookup_setSubroutine, FlowGraph.recorded, hcalls, if_neg List.not_mem_nil]
    by_cases heq : c = color
    · subst heq
      rw [if_pos rfl, if_pos ⟨hexit, rfl⟩, ← h.exits c hc, hinfo]
      rfl
    · rw [if_neg heq, lookup_insertColor, if_neg (fun hboth => heq hboth.2.symm)]
      exact h.exits c hc
  noPairs c i hi := by
    rw [lookup_setSubroutine] at hi
    split at hi
    · cases hi
      exact h.noPairs color info hinfo
    · rw [lookup_insertColor] at hi
      exact h.noPairs c i hi

/-- One call of `colorPath`, with as many nested calls as there are pairs without a mark. -/
theorem colorPath_records {K C : Finset Word} {n : Nat}
    (hone : ∀ node, (fg.callees node).length ≤ 1)
    (hnodes : ∀ addr, (fg.getNodeByAddr addr).isSome → addr ∈ K) (hsub : K ⊆ C)
    (hrecords : Records fg t fa) (hcolor : color ∈ C ∨ color = node)
    (hfuel : (fa.unmarked (K ×ˢ C)).card < n) (h : colorPath n fa node color = .ok fa') :
    ∃ t', Dfs fg.colorNext t [(node, color)] t' ∧ Records fg t' fa' := by
  induction n generalizing fa fa' node color t with
  | zero => exact absurd hfuel (Nat.not_lt_zero _)
  | succ n ih =>
      unfold colorPath at h
      split at h
      · rename_i hseen
        cases h
        exact ⟨t, .seen ((hrecords.marks (node, color)).1 hseen) .nil, hrecords⟩
      rename_i hfree
      have hnew : (node, color) ∉ t := fun hmem => hfree ((hrecords.marks (node, color)).2 hmem)
      split at h
      · cases h
      rename_i inst hnode
      rw [hrecords.graph] at hnode
      have hmem : node ∈ K := hnodes node (by rw [hnode]; rfl)
      have hcolor' : color ∈ C := hcolor.elim id fun heq => heq ▸ hsub hmem
      have hless := unmarked_card_lt (Finset.mem_product.2 ⟨hmem, hcolor'⟩) hfree
      have hinsert : ∀ p, p ∈ (fa.insertColor node color).marks ↔ p ∈ (node, color) :: t := by
        intro p
        rw [marks_insertColor, Set.mem_insert_iff, hrecords.marks, List.mem_cons]
      dsimp only at h
      -- What a nested call does, from any marks that came later.
      have hcall : ∀ {f f' : FlowAnalysis} {s : List (Word × Word)} {v c : Word},
          Records fg s f → (node, color) :: t <:+ s → c ∈ C ∨ c = v → colorPath n f v c = .ok f' →
          ∃ s', Dfs fg.colorNext s [(v, c)] s' ∧ Records fg s' f' := by
        intro f f' s v c hf hlater hc hrun
        have hmarks : (fa.insertColor node color).marks ⊆ f.marks := fun p hp =>
          (hf.marks p).2 (hlater.subset ((hinsert p).1 hp))
        have hle := Finset.card_le_card (unmarked_subset (U := K ×ˢ C) hmarks)
        exact ih hf hc (by omega) hrun
      suffices hrest : ∃ t', Dfs fg.colorNext ((node, color) :: t) (fg.colorNext (node, color)) t' ∧
          Records fg t' fa' from
        let ⟨t', hdfs, hrecords'⟩ := hrest
        ⟨t', .visit hnew hdfs .nil, hrecords'⟩
      rw [FlowGraph.colorNext, hnode]
      dsimp only
      split at h
      · rename_i hjsr
        rw [if_pos hjsr]
        have hcalled : fg.calledFrom node = fg.callees node := by
          rw [FlowGraph.calledFrom, hnode, if_pos]
          simpa [InstValue.isCall] using hjsr
        have hexit : fg.isExit node = false := by
          rw [FlowGraph.isExit, hnode, Option.any_some, InstValue.isRET]
          rcases hjsr with hid | hid <;> simp [hid]
        obtain ⟨fa₂, hfold, h⟩ := Except.bind_eq_ok_iff.1 h
        have hcallees : (fa.insertColor node color).calleesOf node = fg.callees node := by
          rw [← hrecords.graph, ← insertColor_fg fa node color]
          rfl
        rw [hcallees] at hfold
        obtain ⟨s, hdfs, hs⟩ : ∃ s, Dfs fg.colorNext ((node, color) :: t)
            ((fg.callees node).map fun callee => (callee, callee)) s ∧ Records fg s fa₂ := by
          rcases Nat.le_one_iff_eq_zero_or_eq_one.1 (hone node) with hzero | hsingle
          · have hnil := List.eq_nil_of_length_eq_zero hzero
            rw [hnil] at hfold hcalled ⊢
            cases hfold
            exact ⟨_, .nil, hrecords.insert hcalled fun hret => by rw [hexit] at hret; cases hret⟩
          · obtain ⟨callee, hsingle⟩ := List.length_eq_one_iff.1 hsingle
            rw [hsingle] at hfold hcalled ⊢
            obtain ⟨fa₁, hstep, hrest⟩ := Except.bind_eq_ok_iff.1 hfold
            cases hrest
            exact hcall (hrecords.call hcalled hexit) (List.suffix_refl _) (.inr rfl) hstep
        obtain ⟨retTo, hretTo, h⟩ := Except.bind_eq_ok_iff.1 h
        rw [hs.graph] at hretTo
        rw [(FlowGraph.getRetToNode_eq_ok.1 hretTo).2]
        cases retTo with
        | some next =>
            obtain ⟨s', hdfs', hs'⟩ := hcall hs hdfs.suffix (.inl hcolor') h
            exact ⟨s', hdfs.append hdfs', hs'⟩
        | none =>
            cases h
            exact ⟨s, by simpa using hdfs, hs⟩
      · rename_i hjsr
        rw [if_neg hjsr]
        have hcalled : fg.calledFrom node = [] := by
          rw [FlowGraph.calledFrom, hnode, if_neg]
          simpa [InstValue.isCall] using hjsr
        split at h
        · rename_i hret
          rw [if_pos hret]
          have hexit : fg.isExit node = true := by
            rw [FlowGraph.isExit, hnode]
            exact hret
          split at h
          · split at h
            · cases h
            · rename_i info hinfo
              rw [lookup_insertColor] at hinfo
              cases h
              exact ⟨_, .nil, hrecords.return hcalled hexit hinfo⟩
          · rename_i hmain
            cases h
            rw [not_not, insertColor_fg, hrecords.graph] at hmain
            exact ⟨_, .nil, hrecords.insert hcalled fun _ => hmain⟩
        · rename_i hret
          rw [if_neg hret]
          have hexit : fg.isExit node = true → color = fg.initPC := fun hexit => by
            rw [FlowGraph.isExit, hnode] at hexit
            exact absurd hexit hret
          rw [insertColor_fg, hrecords.graph] at h
          rw [FlowGraph.follows, List.map_filterMap]
          refine Except.foldlM_ok_induction
            (motive := fun done (f : FlowAnalysis) => ∃ s, Dfs fg.colorNext ((node, color) :: t)
              (done.filterMap fun e => e.2.dst.map fun next => (next, color)) s ∧ Records fg s f)
            ⟨_, .nil, hrecords.insert hcalled hexit⟩ ?_ h
          rintro done e f f' ⟨s, hdfs, hs⟩ hstep
          rw [List.filterMap_append]
          split at hstep
          · rename_i next hdst
            obtain ⟨s', hdfs', hs'⟩ := hcall hs hdfs.suffix (.inl hcolor') hstep
            exact ⟨s', hdfs.append (by simpa [hdst] using hdfs'), hs'⟩
          · rename_i hdst
            cases hstep
            exact ⟨s, by simpa [hdst] using hdfs, hs⟩

end FlowAnalysis

end Klc3
