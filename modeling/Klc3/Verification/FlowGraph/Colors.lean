import Klc3.Lib.Spread
import Klc3.Verification.FlowGraph.Edges
import Mathlib.Data.Finset.Prod

/-!
# Colours of nodes

`colorPath` is a search over pairs of a node and a colour: it marks a pair, and then the
pairs behind it. A call is left for the subroutine, under its own colour, and for the
address after it.
-/

namespace Klc3

/-! ## The pairs behind a pair -/

namespace FlowGraph

/-- The entries of the subroutines that a node calls. -/
def callees (fg : FlowGraph) (node : Word) : List Word :=
  (fg.runtimeOutEdges node).filterMap fun e =>
    if e.2.type = .jsr ∨ e.2.type = .jsrr then e.2.dst else none

/-- The nodes behind a node that does not call. -/
def follows (fg : FlowGraph) (node : Word) : List Word :=
  (fg.runtimeOutEdges node).filterMap fun e => e.2.dst

/-- Where `colorPath` goes on from a pair of a node and a colour. -/
def colorNext (fg : FlowGraph) (p : Word × Word) : List (Word × Word) :=
  match fg.getNodeByAddr p.1 with
  | none => []
  | some inst =>
    if inst.instID = .JSR ∨ inst.instID = .JSRR then
      (fg.callees p.1).map (fun callee => (callee, callee)) ++
        (fg.behind p.1).map fun next => (next, p.2)
    else if inst.isRET then []
    else (fg.follows p.1).map fun next => (next, p.2)

end FlowGraph

namespace FlowAnalysis

variable {fa fa' fa'' : FlowAnalysis} {node color : Word}

/-- The pairs of a node and a colour that it carries. -/
def marks (fa : FlowAnalysis) : Set (Word × Word) :=
  {p | fa.hasColor p.1 p.2 = true}

theorem mem_marks : (node, color) ∈ fa.marks ↔ fa.hasColor node color = true := Iff.rfl

theorem marks_insertColor (fa : FlowAnalysis) (node color : Word) :
    (fa.insertColor node color).marks = insert (node, color) fa.marks := by
  ext ⟨n, c⟩
  unfold insertColor
  split
  · rename_i hcolor
    refine ⟨Set.mem_insert_of_mem _, fun h => ?_⟩
    rcases h with heq | h
    · cases heq
      exact hcolor
    · exact h
  · rw [Set.mem_insert_iff, mem_marks, mem_marks]
    simp [hasColor]

theorem marks_enterSubroutine (fa : FlowAnalysis) (entry : Word) :
    (fa.enterSubroutine entry).marks = fa.marks := by
  unfold enterSubroutine setEntry
  split <;> rfl

theorem enterSubroutine_fg (fa : FlowAnalysis) (entry : Word) :
    (fa.enterSubroutine entry).fg = fa.fg := by
  unfold enterSubroutine setEntry
  split <;> rfl

theorem insertColor_fg (fa : FlowAnalysis) (node color : Word) :
    (fa.insertColor node color).fg = fa.fg := by
  unfold insertColor
  split <;> rfl

/-! ## Known subroutines -/

/-- The subroutines that are set up. -/
def Knows (fa : FlowAnalysis) (color : Word) : Prop :=
  (fa.subroutines.lookup color).isSome

theorem knows_setSubroutine (fa : FlowAnalysis) (entry : Word) (info : SubroutineInfo) :
    (fa.setSubroutine entry info).Knows color ↔ color = entry ∨ fa.Knows color := by
  unfold Knows setSubroutine
  simp only [List.lookup_isSome_iff, List.mem_cons, List.mem_filter, exists_eq_or_imp, beq_iff_eq]
  constructor
  · rintro (heq | ⟨p, ⟨hp, -⟩, heq⟩)
    · exact .inl heq
    · exact .inr ⟨p, hp, heq⟩
  · rintro (heq | ⟨p, hp, heq⟩)
    · exact .inl heq
    · by_cases hentry : color = entry
      · exact .inl hentry
      · exact .inr ⟨p, ⟨hp, by simpa [← heq] using hentry⟩, heq⟩

theorem knows_enterSubroutine (fa : FlowAnalysis) (entry : Word) :
    (fa.enterSubroutine entry).Knows color ↔ color = entry ∨ fa.Knows color := by
  rw [← knows_setSubroutine fa entry ⟨entry, entry, [], []⟩]
  unfold enterSubroutine setEntry Knows
  split <;> rfl

theorem knows_insertColor (fa : FlowAnalysis) (node c : Word) :
    (fa.insertColor node c).Knows color ↔ fa.Knows color := by
  unfold insertColor Knows
  split <;> rfl

/-- Colouring forgets no subroutine. -/
theorem colorPath_knows {n : Nat} {c : Word} (h : colorPath n fa node c = .ok fa')
    (hknows : fa.Knows color) : fa'.Knows color := by
  induction n generalizing fa fa' node c with
  | zero =>
      cases h
      exact hknows
  | succ n ih =>
      unfold colorPath at h
      split at h
      · cases h
        exact hknows
      split at h
      · cases h
      dsimp only at h
      have hinsert := (knows_insertColor fa node c).2 hknows
      split at h
      · obtain ⟨fa₁, hfold, h⟩ := Except.bind_eq_ok_iff.1 h
        have hfold' := Except.foldlM_ok_induction
          (motive := fun (_ : List Word) (f : FlowAnalysis) => f.Knows color) hinsert
          (fun _ callee f _ hf hstep => ih hstep ((knows_enterSubroutine f callee).2 (.inr hf))) hfold
        obtain ⟨retTo, -, h⟩ := Except.bind_eq_ok_iff.1 h
        cases retTo with
        | some next => exact ih h hfold'
        | none =>
            cases h
            exact hfold'
      · split at h
        · split at h
          · split at h
            · cases h
            · cases h
              exact (knows_setSubroutine _ _ _).2 (.inr hinsert)
          · cases h
            exact hinsert
        · refine Except.foldlM_ok_induction
            (motive := fun (_ : List (Nat × Edge)) (f : FlowAnalysis) => f.Knows color) hinsert ?_ h
          intro done e f f' hf hstep
          split at hstep
          · exact ih hstep hf
          · cases hstep
            exact hf

/-! ## The search is a search -/

/-- The pairs that are still without a mark. -/
def unmarked (fa : FlowAnalysis) (U : Finset (Word × Word)) : Finset (Word × Word) :=
  U.filter fun p => fa.hasColor p.1 p.2 = false

variable {U : Finset (Word × Word)}

theorem mem_unmarked {p : Word × Word} : p ∈ fa.unmarked U ↔ p ∈ U ∧ p ∉ fa.marks := by
  rw [unmarked, Finset.mem_filter, marks, Set.mem_ofPred_eq, Bool.not_eq_true]

theorem unmarked_subset (h : fa.marks ⊆ fa'.marks) : fa'.unmarked U ⊆ fa.unmarked U := by
  intro p hp
  rw [mem_unmarked] at hp ⊢
  exact ⟨hp.1, fun hmark => hp.2 (h hmark)⟩

theorem unmarked_card_lt (hU : (node, color) ∈ U) (hfree : (node, color) ∉ fa.marks) :
    ((fa.insertColor node color).unmarked U).card < (fa.unmarked U).card := by
  have hsub : fa.marks ⊆ (fa.insertColor node color).marks := by
    rw [marks_insertColor]
    exact Set.subset_insert _ _
  apply Finset.card_lt_card
  apply (Finset.ssubset_iff_of_subset (unmarked_subset hsub)).2
  refine ⟨(node, color), mem_unmarked.2 ⟨hU, hfree⟩, fun hmem => (mem_unmarked.1 hmem).2 ?_⟩
  rw [marks_insertColor]
  exact Set.mem_insert _ _

/-- One call of `colorPath`, with as many nested calls as there are pairs without a mark. -/
theorem colorPath_spreads {fg : FlowGraph} {K C : Finset Word} {n : Nat} (hfg : fa.fg = fg)
    (hnodes : ∀ addr, (fg.getNodeByAddr addr).isSome → addr ∈ K) (hsub : K ⊆ C)
    (hcolor : color ∈ C ∨ color = node) (hfuel : (fa.unmarked (K ×ˢ C)).card < n)
    (h : colorPath n fa node color = .ok fa') :
    Spreads fg.colorNext fa.marks [(node, color)] fa'.marks ∧ fa'.fg = fg := by
  induction n generalizing fa fa' node color with
  | zero => exact absurd hfuel (Nat.not_lt_zero _)
  | succ n ih =>
      unfold colorPath at h
      split at h
      · rename_i hseen
        cases h
        exact ⟨.seen hseen, hfg⟩
      rename_i hfree
      split at h
      · cases h
      rename_i inst hnode
      rw [hfg] at hnode
      have hmem : node ∈ K := hnodes node (by rw [hnode]; rfl)
      have hcolor' : color ∈ C := hcolor.elim id fun heq => heq ▸ hsub hmem
      have hless := unmarked_card_lt (Finset.mem_product.2 ⟨hmem, hcolor'⟩) hfree
      dsimp only at h
      have hmarks := marks_insertColor fa node color
      have hfg₁ : (fa.insertColor node color).fg = fg := (insertColor_fg _ _ _).trans hfg
      generalize fa.insertColor node color = fa₁ at h hless hmarks hfg₁
      -- What a nested call does, from any marks that came later.
      have hcall : ∀ {f f' : FlowAnalysis} {v c : Word}, f.fg = fg → fa₁.marks ⊆ f.marks →
          c ∈ C ∨ c = v → colorPath n f v c = .ok f' →
          Spreads fg.colorNext f.marks [(v, c)] f'.marks ∧ f'.fg = fg := by
        intro f f' v c hf hlater hc hrun
        have hle := Finset.card_le_card (unmarked_subset (U := K ×ˢ C) hlater)
        exact ih hf hc (by omega) hrun
      suffices hrest : Spreads fg.colorNext fa₁.marks (fg.colorNext (node, color)) fa'.marks ∧
          fa'.fg = fg from ⟨.visit (hmarks ▸ hrest.1), hrest.2⟩
      rw [FlowGraph.colorNext, hnode]
      dsimp only
      split at h
      · rename_i hjsr
        rw [if_pos hjsr]
        obtain ⟨fa₂, hfold, h⟩ := Except.bind_eq_ok_iff.1 h
        have hcallees : fa₁.calleesOf node = fg.callees node := by rw [← hfg₁]; rfl
        rw [hcallees] at hfold
        obtain ⟨hspread, hfg₂⟩ := Except.foldlM_ok_induction
          (motive := fun done (f : FlowAnalysis) => Spreads fg.colorNext fa₁.marks
            (done.map fun callee => (callee, callee)) f.marks ∧ f.fg = fg)
          ⟨.nil _, hfg₁⟩ (by
            rintro done callee f f' ⟨hf, hffg⟩ hstep
            have hmarks := marks_enterSubroutine f callee
            obtain ⟨hf', hffg'⟩ := hcall ((enterSubroutine_fg f callee).trans hffg)
              (hmarks ▸ hf.mono) (.inr rfl) hstep
            rw [List.map_append]
            exact ⟨hf.append (hmarks ▸ hf'), hffg'⟩) hfold
        obtain ⟨retTo, hretTo, h⟩ := Except.bind_eq_ok_iff.1 h
        rw [hfg₂] at hretTo
        rw [(FlowGraph.getRetToNode_eq_ok.1 hretTo).2]
        cases retTo with
        | some next =>
            obtain ⟨hlast, hfg'⟩ := hcall hfg₂ hspread.mono (.inl hcolor') h
            exact ⟨hspread.append hlast, hfg'⟩
        | none =>
            cases h
            exact ⟨by simpa using hspread, hfg₂⟩
      · rename_i hjsr
        rw [if_neg hjsr]
        split at h
        · rename_i hret
          rw [if_pos hret]
          split at h
          · split at h
            · cases h
            · cases h
              exact ⟨.nil _, hfg₁⟩
          · cases h
            exact ⟨.nil _, hfg₁⟩
        · rename_i hret
          rw [if_neg hret]
          rw [hfg₁] at h
          rw [FlowGraph.follows, List.map_filterMap]
          refine Except.foldlM_ok_induction
            (motive := fun done (f : FlowAnalysis) => Spreads fg.colorNext fa₁.marks
              (done.filterMap fun e => e.2.dst.map fun next => (next, color)) f.marks ∧ f.fg = fg)
            ⟨.nil _, hfg₁⟩ ?_ h
          rintro done e f f' ⟨hf, hffg⟩ hstep
          rw [List.filterMap_append]
          split at hstep
          · rename_i next hdst
            obtain ⟨hf', hffg'⟩ := hcall hffg hf.mono (.inl hcolor') hstep
            exact ⟨hf.append (by simpa [hdst] using hf'), hffg'⟩
          · rename_i hdst
            cases hstep
            exact ⟨by simpa [hdst] using hf, hffg⟩

theorem unmarked_card_lt_colorFuel (fa : FlowAnalysis) (color : Word) :
    (fa.unmarked (fa.fg.addrs ×ˢ insert color fa.fg.addrs)).card < fa.colorFuel := by
  have hcard := fa.fg.card_addrs_le
  have hunmarked : (fa.unmarked (fa.fg.addrs ×ˢ insert color fa.fg.addrs)).card ≤
      fa.fg.addrs.card * (insert color fa.fg.addrs).card := by
    rw [← Finset.card_product]
    exact Finset.card_le_card fun p hp => (mem_unmarked.1 hp).1
  have hinsert := Finset.card_insert_le color fa.fg.addrs
  have hprod := Nat.mul_le_mul hcard (hinsert.trans (Nat.succ_le_succ hcard))
  exact Nat.lt_succ_of_le (hunmarked.trans hprod)

/-- `colorPath` as the tracker calls it goes wherever it can. -/
theorem color_spreads (h : fa.color node color = .ok fa') :
    Spreads fa.fg.colorNext fa.marks [(node, color)] fa'.marks :=
  (colorPath_spreads rfl (fun _ => FlowGraph.mem_addrs_of_getNodeByAddr)
    (Finset.subset_insert _ _) (.inl (Finset.mem_insert_self _ _))
    (fa.unmarked_card_lt_colorFuel color) h).1

end FlowAnalysis

end Klc3
