import Klc3.Model.DuplicateColors
import Klc3.Verification.FlowGraph.Edges
import Klc3.Verification.Issues.Raise
import Mathlib.Data.Finset.Card
import Mathlib.Logic.Relation

/-!
# Shared code is reported

The search reports a node with several colours, or comes to it from a node with the same
colours, which is reported or was come to in the same way.
-/

namespace Klc3

namespace IssuePackage

variable {pkg pkg' : IssuePackage} {type : IssueType} {location : InstValue} {note : String}

/-- The package has an issue of this type at the instruction. -/
def HasIssue (pkg : IssuePackage) (type : IssueType) (inst : InstValue) : Prop :=
  (pkg.find ⟨type, some inst.location⟩).isSome

/-- What `newGlobalIssue` does when it succeeds. -/
theorem newGlobalIssue_eq_ok (h : pkg.newGlobalIssue type location note = .ok pkg') :
    pkg'.issueLevel = pkg.issueLevel ∧
      (∀ issue, (pkg.find issue).isSome → (pkg'.find issue).isSome) ∧
      (∀ issue, (pkg'.find issue).isSome →
        (pkg.find issue).isSome ∨ issue = ⟨type, some location.location⟩) ∧
      (pkg.issueLevel type ≠ some .none → pkg'.HasIssue type location) := by
  obtain ⟨⟨pkg₁, accepted⟩, hraise, h⟩ := Except.bind_eq_ok_iff.1 h
  cases h
  unfold raiseIssue at hraise
  obtain ⟨level, hlevel, hraise⟩ := Except.bind_eq_ok_iff.1 hraise
  have hlevel : pkg.issueLevel type = some level := by
    unfold getIssueLevel at hlevel
    split at hlevel
    · cases hlevel
      assumption
    · cases hlevel
  split at hraise
  · rename_i hnone
    cases hraise
    exact ⟨rfl, fun _ h => h, fun _ h => .inl h, fun hne => absurd (hnone ▸ hlevel) hne⟩
  · dsimp only at hraise
    split at hraise
    · rename_i hnew
      cases hraise
      have hfind : ∀ issue, (insertIssue ⟨type, some location.location⟩ ⟨none, -1, note, none⟩
          pkg.issues).lookup issue =
          if issue = ⟨type, some location.location⟩ then some ⟨none, -1, note, none⟩
          else pkg.find issue := fun issue => lookup_insertIssue _ issue _ _ hnew
      refine ⟨rfl, fun issue hissue => ?_, fun issue hissue => ?_, fun _ => ?_⟩
      · rw [find, hfind]
        split
        · rfl
        · exact hissue
      · rw [find, hfind] at hissue
        split at hissue
        · rename_i heq
          exact .inr heq
        · exact .inl hissue
      · rw [HasIssue, find, hfind, if_pos rfl]
        rfl
    · rename_i info hold
      cases hraise
      exact ⟨rfl, fun _ h => h, fun _ h => .inl h, fun _ => by rw [HasIssue, hold]; rfl⟩

theorem newGlobalIssue_isOk {level : Level} (hlevel : pkg.issueLevel type = some level)
    (location : InstValue) (note : String) :
    ∃ pkg', pkg.newGlobalIssue type location note = .ok pkg' := by
  have hget : pkg.getIssueLevel type = .ok level := by
    rw [getIssueLevel, hlevel]
    rfl
  have hraise : ∃ r, pkg.raiseIssue type (some location.location) ⟨none, -1, note, none⟩ = .ok r := by
    unfold raiseIssue
    rw [hget, Except.ok_bind']
    split
    · exact ⟨_, rfl⟩
    · dsimp only
      split <;> exact ⟨_, rfl⟩
  obtain ⟨r, hr⟩ := hraise
  refine ⟨r.1, ?_⟩
  rw [newGlobalIssue, hr]
  rfl

end IssuePackage

namespace FlowAnalysis

variable {fa : FlowAnalysis} {pkg pkg' pkg₀ : IssuePackage} {c c' : DuplicateCheck}
  {node next u : Word} {inst : InstValue} {colors lastColors : List Word}

/-! ## Colours as sets -/

theorem mem_subroutineColors {color : Word} :
    color ∈ fa.subroutineColors node ↔ fa.hasColor node color = true := by
  rw [subroutineColors, (List.perm_insertionSort _ _).mem_iff, List.mem_dedup, List.mem_map]
  simp [hasColor]

theorem nodup_subroutineColors (fa : FlowAnalysis) (node : Word) :
    (fa.subroutineColors node).Nodup :=
  (List.perm_insertionSort _ _).nodup_iff.2 (List.nodup_dedup _)

/-- A node with at least two colours. -/
def Shared (fa : FlowAnalysis) (node : Word) : Prop :=
  ∃ c d, c ≠ d ∧ fa.hasColor node c = true ∧ fa.hasColor node d = true

def SameColors (fa : FlowAnalysis) (u v : Word) : Prop :=
  ∀ color, fa.hasColor u color = true ↔ fa.hasColor v color = true

theorem shared_iff : 1 < (fa.subroutineColors node).length ↔ fa.Shared node := by
  have hnodup := fa.nodup_subroutineColors node
  simp only [Shared, ← mem_subroutineColors]
  generalize fa.subroutineColors node = colors at hnodup
  constructor
  · intro hlength
    obtain ⟨c, d, rest, rfl⟩ : ∃ c d rest, colors = c :: d :: rest := by
      match colors, hlength with
      | c :: d :: rest, _ => exact ⟨c, d, rest, rfl⟩
    exact ⟨c, d, by rintro rfl; simp at hnodup, by simp, by simp⟩
  · rintro ⟨c, d, hne, hc, hd⟩
    by_contra hlength
    have hle : colors.length ≤ 1 := Nat.le_of_not_lt hlength
    have hpos := List.length_pos_of_mem hc
    obtain ⟨x, rfl⟩ := List.length_eq_one_iff.1 (Nat.le_antisymm hle hpos)
    exact hne ((List.mem_singleton.1 hc).trans (List.mem_singleton.1 hd).symm)

instance total_le_word : Std.Total fun a b : Word => a ≤ b := ⟨fun a b => BitVec.le_total a b⟩

instance trans_le_word : IsTrans Word fun a b => a ≤ b := ⟨fun _ _ _ => BitVec.le_trans⟩

theorem subroutineColors_eq_iff {u v : Word} :
    fa.subroutineColors u = fa.subroutineColors v ↔ fa.SameColors u v := by
  constructor
  · intro h color
    rw [← mem_subroutineColors, h, mem_subroutineColors]
  · intro h
    have hperm : (fa.subroutineColors u).Perm (fa.subroutineColors v) := by
      rw [List.perm_ext_iff_of_nodup (fa.nodup_subroutineColors u) (fa.nodup_subroutineColors v)]
      intro color
      rw [mem_subroutineColors, mem_subroutineColors]
      exact h color
    exact hperm.eq_of_pairwise (fun a b _ _ hab hba => BitVec.le_antisymm hab hba)
      (List.pairwise_insertionSort _ _) (List.pairwise_insertionSort _ _)

theorem SameColors.refl (fa : FlowAnalysis) (u : Word) : fa.SameColors u u := fun _ => Iff.rfl

theorem SameColors.trans {u v w : Word} (h : fa.SameColors u v) (h' : fa.SameColors v w) :
    fa.SameColors u w := fun color => (h color).trans (h' color)

/-! ## What a search reports -/

/-- A step along a runtime edge between nodes with the colours of `node`. -/
def StepsWithin (fa : FlowAnalysis) (node u v : Word) : Prop :=
  fa.fg.HasEdge (some u) (some v) ∧ fa.SameColors u node ∧ fa.SameColors v node

/-- The code that a node belongs to is reported where it is entered. -/
def Covered (fa : FlowAnalysis) (pkg : IssuePackage) (node : Word) : Prop :=
  ∃ r inst, fa.fg.getNodeByAddr r = some inst ∧
    pkg.HasIssue .warnReuseCodeAcrossSubroutines inst ∧ fa.SameColors r node ∧
    Relation.ReflTransGen (fa.StepsWithin node) r node

/-- Every instruction is on a source line of its own. -/
def OwnLines (fg : FlowGraph) : Prop :=
  ∀ a b i j, fg.getNodeByAddr a = some i → fg.getNodeByAddr b = some j →
    i.location = j.location → a = b

/-- What holds while the nodes are checked. -/
structure Checks (fa : FlowAnalysis) (pkg₀ : IssuePackage) (c : DuplicateCheck) : Prop where
  nodup : c.checkedNodes.Nodup
  nodes : ∀ v ∈ c.checkedNodes, (fa.fg.getNodeByAddr v).isSome
  issueLevel : c.pkg.issueLevel = pkg₀.issueLevel
  covered : ∀ v ∈ c.checkedNodes, fa.Shared v → fa.Covered c.pkg v
  shared : ∀ v inst, fa.fg.getNodeByAddr v = some inst →
    c.pkg.HasIssue .warnReuseCodeAcrossSubroutines inst →
    pkg₀.HasIssue .warnReuseCodeAcrossSubroutines inst ∨ fa.Shared v

/-- A later point of the search. -/
structure Later (c c' : DuplicateCheck) : Prop where
  checked : ∀ v ∈ c.checkedNodes, v ∈ c'.checkedNodes
  keeps : ∀ issue, (c.pkg.find issue).isSome → (c'.pkg.find issue).isSome

theorem Later.refl (c : DuplicateCheck) : Later c c := ⟨fun _ h => h, fun _ h => h⟩

theorem Later.trans {c'' : DuplicateCheck} (h : Later c c') (h' : Later c' c'') : Later c c'' :=
  ⟨fun v hv => h'.checked v (h.checked v hv), fun i hi => h'.keeps i (h.keeps i hi)⟩

theorem Covered.mono (h : fa.Covered pkg node)
    (hkeeps : ∀ issue, (pkg.find issue).isSome → (pkg'.find issue).isSome) :
    fa.Covered pkg' node := by
  obtain ⟨r, inst, hr, hissue, hreach⟩ := h
  exact ⟨r, inst, hr, hkeeps _ hissue, hreach⟩

/-- The node before, with its colours, or nothing before a root of the search. -/
def ComesFrom (fa : FlowAnalysis) (pkg : IssuePackage) (lastColors : List Word) (node : Word) :
    Prop :=
  lastColors = [] ∨ ∃ u, fa.fg.HasEdge (some u) (some node) ∧ fa.subroutineColors u = lastColors ∧
    (fa.Shared u → fa.Covered pkg u)

/-- A node with the colours of the node before it is in the same code. -/
theorem ComesFrom.covered (h : fa.ComesFrom pkg (fa.subroutineColors node) node)
    (hshared : fa.Shared node) : fa.Covered pkg node := by
  rcases h with h | ⟨u, hedge, hcolors, hcovered⟩
  · have hlength := shared_iff.2 hshared
    rw [h] at hlength
    cases hlength
  · have hsame := subroutineColors_eq_iff.1 hcolors
    have hu : fa.Shared u := by
      rw [← shared_iff, hcolors]
      exact shared_iff.2 hshared
    obtain ⟨r, inst, hr, hissue, hru, hreach⟩ := hcovered hu
    refine ⟨r, inst, hr, hissue, hru.trans hsame, ?_⟩
    have hreach' : Relation.ReflTransGen (fa.StepsWithin node) r u :=
      Relation.ReflTransGen.mono
        (fun a b hab => ⟨hab.1, hab.2.1.trans hsame, hab.2.2.trans hsame⟩) r u hreach
    exact hreach'.tail ⟨hedge, hsame, .refl fa node⟩

/-- A node that is checked is reported or in the code of the node before it. -/
theorem reportDuplicate_checks (hlines : OwnLines fa.fg)
    (hlevel : pkg₀.issueLevel .warnReuseCodeAcrossSubroutines ≠ some .none) (hc : fa.Checks pkg₀ c)
    (hfrom : fa.ComesFrom c.pkg lastColors node) (hnew : node ∉ c.checkedNodes)
    (hnode : fa.fg.getNodeByAddr node = some inst)
    (h : fa.reportDuplicate c.pkg inst (fa.subroutineColors node) lastColors = .ok pkg) :
    fa.Checks pkg₀ ⟨node :: c.checkedNodes, pkg⟩ ∧ Later c ⟨node :: c.checkedNodes, pkg⟩ := by
  have hnodes : ∀ v ∈ node :: c.checkedNodes, (fa.fg.getNodeByAddr v).isSome := by
    intro v hv
    rcases List.mem_cons.1 hv with rfl | hv
    · rw [hnode]
      rfl
    · exact hc.nodes v hv
  unfold reportDuplicate at h
  split at h
  · rename_i hshared
    dsimp only at h
    rw [Except.ite_bind_eq] at h
    obtain ⟨note, -, h⟩ := Except.bind_eq_ok_iff.1 h
    obtain ⟨hlevels, hkeeps, hisNew, hfound⟩ := IssuePackage.newGlobalIssue_eq_ok h
    refine ⟨⟨List.nodup_cons.2 ⟨hnew, hc.nodup⟩, hnodes, hlevels.trans hc.issueLevel, ?_, ?_⟩,
      fun v hv => List.mem_cons_of_mem node hv, hkeeps⟩
    · intro v hv hv'
      rcases List.mem_cons.1 hv with rfl | hv
      · exact ⟨v, inst, hnode, hfound (hc.issueLevel ▸ hlevel), .refl fa v, .refl⟩
      · exact (hc.covered v hv hv').mono hkeeps
    · intro v i hv hissue
      rcases hisNew _ hissue with hold | heq
      · exact hc.shared v i hv hold
      · have hsame : v = node := hlines v node i inst hv hnode (by simpa using heq)
        exact .inr (hsame ▸ shared_iff.1 hshared.2)
  · rename_i hshared
    cases h
    refine ⟨⟨List.nodup_cons.2 ⟨hnew, hc.nodup⟩, hnodes, hc.issueLevel, ?_, hc.shared⟩,
      fun v hv => List.mem_cons_of_mem node hv, fun _ h => h⟩
    intro v hv hv'
    rcases List.mem_cons.1 hv with rfl | hv
    · have hsame : fa.subroutineColors v = lastColors := by
        by_contra hne
        exact hshared ⟨hne, shared_iff.2 hv'⟩
      exact (hsame ▸ hfrom).covered hv'
    · exact hc.covered v hv hv'

/-- The nodes that are still to be checked. -/
def unchecked (U : Finset Word) (c : DuplicateCheck) : Finset Word :=
  U.filter fun v => v ∉ c.checkedNodes

theorem unchecked_subset {U : Finset Word} (h : Later c c') : unchecked U c' ⊆ unchecked U c := by
  intro v hv
  rw [unchecked, Finset.mem_filter] at hv ⊢
  exact ⟨hv.1, fun hmem => hv.2 (h.checked v hmem)⟩

theorem unchecked_card_lt {U : Finset Word} (pkg : IssuePackage) (hU : node ∈ U)
    (hnew : node ∉ c.checkedNodes) :
    (unchecked U ⟨node :: c.checkedNodes, pkg⟩).card < (unchecked U c).card := by
  apply Finset.card_lt_card
  apply (Finset.ssubset_iff_of_subset ?_).2
  · refine ⟨node, Finset.mem_filter.2 ⟨hU, hnew⟩, fun hmem => ?_⟩
    exact (Finset.mem_filter.1 hmem).2 List.mem_cons_self
  · intro v hv
    rw [unchecked, Finset.mem_filter] at hv ⊢
    exact ⟨hv.1, fun hmem => hv.2 (List.mem_cons_of_mem node hmem)⟩

/-- One call of `checkDuplicateColorsOnPath`, with as many nested calls as there are nodes to
be checked. -/
theorem checkDuplicateColorsOnPath_checks (hlines : OwnLines fa.fg)
    (hlevel : pkg₀.issueLevel .warnReuseCodeAcrossSubroutines ≠ some .none) {U : Finset Word}
    (hU : ∀ v, (fa.fg.getNodeByAddr v).isSome → v ∈ U) {n : Nat} (hc : fa.Checks pkg₀ c)
    (hfrom : fa.ComesFrom c.pkg lastColors node) (hfuel : (unchecked U c).card < n)
    (h : checkDuplicateColorsOnPath n fa c node lastColors = .ok c') :
    fa.Checks pkg₀ c' ∧ Later c c' ∧ node ∈ c'.checkedNodes := by
  induction n generalizing c c' node lastColors with
  | zero => exact absurd hfuel (Nat.not_lt_zero _)
  | succ n ih =>
      unfold checkDuplicateColorsOnPath at h
      split at h
      · rename_i hseen
        cases h
        exact ⟨hc, .refl c, by simpa using hseen⟩
      rename_i hnew
      have hnew : node ∉ c.checkedNodes := by simpa using hnew
      split at h
      · cases h
      rename_i inst hnode
      dsimp only at h
      obtain ⟨pkg, hreport, h⟩ := Except.bind_eq_ok_iff.1 h
      obtain ⟨hc₁, hlater₁⟩ := reportDuplicate_checks hlines hlevel hc hfrom hnew hnode hreport
      have hless := unchecked_card_lt pkg (hU node (by rw [hnode]; rfl)) hnew
      generalize hc₁eq : (⟨node :: c.checkedNodes, pkg⟩ : DuplicateCheck) = c₁ at h hc₁ hlater₁ hless
      have hmem : node ∈ c₁.checkedNodes := by
        rw [← hc₁eq]
        exact List.mem_cons_self
      suffices hrest : fa.Checks pkg₀ c' ∧ Later c₁ c' from
        ⟨hrest.1, hlater₁.trans hrest.2, hrest.2.checked node hmem⟩
      refine Except.foldlM_ok_invariant (P := fun d => fa.Checks pkg₀ d ∧ Later c₁ d)
        ⟨hc₁, .refl c₁⟩ ?_ h
      rintro e he d d' ⟨hd, hlater⟩ hstep
      split at hstep
      · rename_i next hdst
        obtain ⟨hget, hrt, hsrc⟩ := FlowGraph.mem_runtimeOutEdges.1 he
        have hedge : fa.fg.HasEdge (some node) (some next) :=
          ⟨e.2, List.mem_of_getElem? hget, hrt, hsrc, hdst⟩
        have hfrom' : fa.ComesFrom d.pkg (fa.subroutineColors node) next :=
          .inr ⟨node, hedge, rfl, hd.covered node (hlater.checked node hmem)⟩
        have hle := Finset.card_le_card (unchecked_subset (U := U) hlater)
        obtain ⟨hd', hlater', -⟩ := ih hd hfrom' (by omega) hstep
        exact ⟨hd', hlater.trans hlater'⟩
      · cases hstep
        exact ⟨hd, hlater⟩

/-! ## The search over all nodes -/

/-- After the search every node has been checked. -/
theorem checkDuplicateColors_checks (hlines : OwnLines fa.fg)
    (hlevel : pkg.issueLevel .warnReuseCodeAcrossSubroutines ≠ some .none)
    (h : fa.checkDuplicateColors pkg = .ok c) :
    fa.Checks pkg c ∧ ∀ p ∈ fa.fg.nodes, p.1 ∈ c.checkedNodes := by
  have hcard := Nat.lt_succ_of_le fa.fg.card_addrs_le
  refine Except.foldlM_ok_induction (motive := fun done (d : DuplicateCheck) =>
    fa.Checks pkg d ∧ ∀ p ∈ done, p.1 ∈ d.checkedNodes) ⟨⟨by simp, by simp, rfl, by simp,
      fun _ _ _ hissue => .inl hissue⟩, by simp⟩ ?_ h
  rintro done p d d' ⟨hd, hdone⟩ hstep
  have hsub := Finset.card_le_card
    (Finset.filter_subset (fun v => v ∉ d.checkedNodes) fa.fg.addrs)
  suffices hnext : fa.Checks pkg d' ∧ Later d d' ∧ p.1 ∈ d'.checkedNodes by
    refine ⟨hnext.1, fun q hq => ?_⟩
    rcases List.mem_append.1 hq with hq | hq
    · exact hnext.2.1.checked q.1 (hdone q hq)
    · exact List.mem_singleton.1 hq ▸ hnext.2.2
  split at hstep
  · rename_i hseen
    cases hstep
    exact ⟨hd, .refl d, by simpa using hseen⟩
  · exact checkDuplicateColorsOnPath_checks hlines hlevel
      (fun v hv => FlowGraph.mem_addrs_of_getNodeByAddr hv) hd (.inl rfl) (hsub.trans_lt hcard) hstep

/-! ## Nothing stops the search -/

/-- The edges lead to nodes, and the colours are the addresses of nodes. -/
structure NamesNodes (fa : FlowAnalysis) : Prop where
  edges : ∀ e ∈ fa.fg.edges, ∀ addr, e.dst = some addr → (fa.fg.getNodeByAddr addr).isSome
  colors : ∀ node color, fa.hasColor node color = true → (fa.fg.getNodeByAddr color).isSome

theorem getLabelByAddr_isOk {addr : Word} (h : (fa.fg.getNodeByAddr addr).isSome) :
    ∃ label, fa.getLabelByAddr addr = .ok label := by
  obtain ⟨inst, hinst⟩ := Option.isSome_iff_exists.1 h
  rw [getLabelByAddr, hinst]
  dsimp only
  split <;> exact ⟨_, rfl⟩

theorem sharedBy_isOk (h : ∀ color ∈ colors, (fa.fg.getNodeByAddr color).isSome) :
    ∃ note, fa.sharedBy colors = .ok note := by
  have hlabels : ∃ labels, colors.mapM fa.getLabelByAddr = .ok labels := by
    induction colors with
    | nil => exact ⟨[], rfl⟩
    | cons color colors ih =>
        obtain ⟨label, hlabel⟩ := getLabelByAddr_isOk (h color List.mem_cons_self)
        obtain ⟨labels, hlabels⟩ := ih fun c hc => h c (List.mem_cons_of_mem color hc)
        exact ⟨label :: labels, by rw [List.mapM_cons, hlabel, hlabels]; rfl⟩
  obtain ⟨labels, hlabels⟩ := hlabels
  rw [sharedBy, hlabels]
  exact ⟨_, rfl⟩

theorem reportDuplicate_isOk (hnames : fa.NamesNodes) {level : Level}
    (hlevel : pkg.issueLevel .warnReuseCodeAcrossSubroutines = some level) (inst : InstValue)
    (node : Word) (lastColors : List Word) :
    ∃ pkg', fa.reportDuplicate pkg inst (fa.subroutineColors node) lastColors = .ok pkg' ∧
      pkg'.issueLevel = pkg.issueLevel := by
  unfold reportDuplicate
  split
  · dsimp only
    rw [Except.ite_bind_eq]
    obtain ⟨note, hnote⟩ : ∃ note,
        (if pkg.acceptsGlobal .warnReuseCodeAcrossSubroutines inst then
          fa.sharedBy (fa.subroutineColors node) else pure "") = .ok note := by
      split
      · exact sharedBy_isOk fun color hcolor => hnames.colors node color (mem_subroutineColors.1 hcolor)
      · exact ⟨"", rfl⟩
    obtain ⟨pkg', hpkg'⟩ := IssuePackage.newGlobalIssue_isOk hlevel inst note
    rw [hnote, Except.ok_bind']
    exact ⟨pkg', hpkg', (IssuePackage.newGlobalIssue_eq_ok hpkg').1⟩
  · exact ⟨pkg, rfl, rfl⟩

theorem checkDuplicateColorsOnPath_isOk (hnames : fa.NamesNodes) {level : Level} {n : Nat}
    (hlevel : c.pkg.issueLevel .warnReuseCodeAcrossSubroutines = some level)
    (hnode : (fa.fg.getNodeByAddr node).isSome) :
    ∃ c', checkDuplicateColorsOnPath n fa c node lastColors = .ok c' ∧
      c'.pkg.issueLevel .warnReuseCodeAcrossSubroutines = some level := by
  induction n generalizing c node lastColors with
  | zero => exact ⟨c, rfl, hlevel⟩
  | succ n ih =>
      obtain ⟨inst, hinst⟩ := Option.isSome_iff_exists.1 hnode
      unfold checkDuplicateColorsOnPath
      split
      · exact ⟨c, rfl, hlevel⟩
      · rw [hinst]
        dsimp only
        obtain ⟨pkg, hreport, hkeeps⟩ := reportDuplicate_isOk hnames hlevel inst node lastColors
        rw [hreport, Except.ok_bind']
        refine Except.foldlM_isOk (P := fun c : DuplicateCheck =>
          c.pkg.issueLevel .warnReuseCodeAcrossSubroutines = some level) (hkeeps ▸ hlevel) ?_
        intro e he d hd
        split
        · rename_i next hdst
          exact ih hd (hnames.edges e.2
            (List.mem_of_getElem? (FlowGraph.mem_runtimeOutEdges.1 he).1) next hdst)
        · exact ⟨d, rfl, hd⟩

theorem checkDuplicateColors_isOk (hnames : fa.NamesNodes) {level : Level}
    (hlevel : pkg.issueLevel .warnReuseCodeAcrossSubroutines = some level) :
    ∃ c, fa.checkDuplicateColors pkg = .ok c := by
  have hnode : ∀ p ∈ fa.fg.nodes, (fa.fg.getNodeByAddr p.1).isSome := by
    intro p hp
    rw [FlowGraph.getNodeByAddr, List.lookup_isSome_iff]
    exact ⟨p, hp, beq_self_eq_true _⟩
  suffices hrun : ∃ c, fa.checkDuplicateColors pkg = .ok c ∧
      c.pkg.issueLevel .warnReuseCodeAcrossSubroutines = some level from hrun.imp fun _ h => h.1
  refine Except.foldlM_isOk (P := fun c : DuplicateCheck =>
    c.pkg.issueLevel .warnReuseCodeAcrossSubroutines = some level) hlevel ?_
  intro p hp d hd
  split
  · exact ⟨d, rfl, hd⟩
  · exact checkDuplicateColorsOnPath_isOk hnames hd (hnode p hp)

/-- Shared code is reported where it is entered, nothing else is, and every node is checked
once. -/
theorem checkDuplicateColors_reports {level : Level}
    (hlevel : pkg.issueLevel .warnReuseCodeAcrossSubroutines = some level) (hne : level ≠ .none)
    (hlines : OwnLines fa.fg) :
    (fa.NamesNodes → ∃ c, fa.checkDuplicateColors pkg = .ok c) ∧
    ∀ c, fa.checkDuplicateColors pkg = .ok c →
      (∀ node, (fa.fg.getNodeByAddr node).isSome → fa.Shared node → fa.Covered c.pkg node) ∧
      (∀ node inst, fa.fg.getNodeByAddr node = some inst →
        c.pkg.HasIssue .warnReuseCodeAcrossSubroutines inst →
        pkg.HasIssue .warnReuseCodeAcrossSubroutines inst ∨ fa.Shared node) ∧
      c.checkedNodes.Nodup ∧ ∀ node, node ∈ c.checkedNodes ↔ (fa.fg.getNodeByAddr node).isSome := by
  refine ⟨fun hnames => checkDuplicateColors_isOk hnames hlevel, fun c h => ?_⟩
  have hlevel' : pkg.issueLevel .warnReuseCodeAcrossSubroutines ≠ some .none := by
    rw [hlevel]
    exact fun heq => hne (Option.some.inj heq)
  obtain ⟨hc, hall⟩ := checkDuplicateColors_checks hlines hlevel' h
  have hmem : ∀ node, (fa.fg.getNodeByAddr node).isSome → node ∈ c.checkedNodes := by
    intro node hnode
    obtain ⟨inst, hinst⟩ := Option.isSome_iff_exists.1 hnode
    exact hall _ (FlowGraph.mem_nodes_of_getNodeByAddr hinst)
  exact ⟨fun node hnode => hc.covered node (hmem node hnode), hc.shared, hc.nodup,
    fun node => ⟨hc.nodes node, hmem node⟩⟩

/-- `FIRST` runs into `SECOND`, which is called as well. -/
def sharing : FlowAnalysis where
  fg := FlowGraph.build
    [(0x3000, .inst ⟨0x3000, 0x4802, ⟨.JSR, .L, 0xF800, 0x4800⟩, matchInst_callAhead, false, [],
        "sharing.asm", 1, "JSR FIRST"⟩),
     (0x3001, .inst ⟨0x3001, 0x4802, ⟨.JSR, .L, 0xF800, 0x4800⟩, matchInst_callAhead, false, [],
        "sharing.asm", 2, "JSR SECOND"⟩),
     (0x3002, .inst ⟨0x3002, 0xF025, ⟨.TRAP, .V, 0xFF00, 0xF000⟩, matchInst_halt, false, [],
        "sharing.asm", 3, "HALT"⟩),
     (0x3003, .inst ⟨0x3003, 0x1021, ⟨.ADDi, .RRI, 0xF020, 0x1020⟩, matchInst_increment, false,
        ["FIRST"], "sharing.asm", 4, "ADD R0, R0, #1"⟩),
     (0x3004, .inst ⟨0x3004, 0xC1C0, ⟨.JMP, .R, 0xFE3F, 0xC000⟩, matchInst_return, false,
        ["SECOND"], "sharing.asm", 5, "RET"⟩)] 0x3000
  colors :=
    [(0x3000, 0x3000), (0x3001, 0x3000), (0x3002, 0x3000), (0x3003, 0x3003), (0x3004, 0x3003),
     (0x3004, 0x3004)]
  entries := [0x3003, 0x3004]
  subroutines := []

theorem sharing_nodes {p : Word × InstValue} (h : p ∈ sharing.fg.nodes) :
    p.1.toNat = 0x3000 + p.2.sourceLine.toNat - 1 := by
  have hnodes : ∀ p ∈ sharing.fg.nodes, p.1.toNat = 0x3000 + p.2.sourceLine.toNat - 1 := by decide
  exact hnodes p h

theorem sharing_namesNodes : sharing.NamesNodes where
  edges e he addr hdst := by
    have hedges : sharing.fg.edges.all (fun e =>
        e.dst.all fun addr => (sharing.fg.getNodeByAddr addr).isSome) = true := rfl
    have hall := List.all_eq_true.1 hedges e he
    rw [hdst] at hall
    exact hall
  colors node color hcolor := by
    have hcolors : sharing.colors.all (fun p =>
        (sharing.fg.getNodeByAddr p.2).isSome) = true := rfl
    exact List.all_eq_true.1 hcolors (node, color) (by simpa [hasColor] using hcolor)

theorem sharing_reports : ∃ c, sharing.checkDuplicateColors .empty = .ok c ∧
    sharing.Shared 0x3004 ∧ sharing.Covered c.pkg 0x3004 ∧
    (∀ node inst, sharing.fg.getNodeByAddr node = some inst →
      c.pkg.HasIssue .warnReuseCodeAcrossSubroutines inst → sharing.Shared node) ∧
    c.checkedNodes.Nodup ∧ ∀ node, node ∈ c.checkedNodes ↔ (sharing.fg.getNodeByAddr node).isSome := by
  have hlevel : IssuePackage.empty.issueLevel .warnReuseCodeAcrossSubroutines = some .warning := rfl
  have hlines : OwnLines sharing.fg := by
    intro a b i j hi hj hlocation
    have ha := sharing_nodes (FlowGraph.mem_nodes_of_getNodeByAddr hi)
    have hb := sharing_nodes (FlowGraph.mem_nodes_of_getNodeByAddr hj)
    have hline : i.sourceLine = j.sourceLine := congrArg Location.sourceLine hlocation
    dsimp only at ha hb
    rw [hline] at ha
    exact BitVec.eq_of_toNat_eq (ha.trans hb.symm)
  obtain ⟨hok, hreports⟩ := checkDuplicateColors_reports hlevel (by decide) hlines
  obtain ⟨c, hc⟩ := hok sharing_namesNodes
  obtain ⟨hcovered, hshared, hnodup, hnodes⟩ := hreports c hc
  have hentered : sharing.Shared 0x3004 := ⟨0x3003, 0x3004, by decide, by decide, by decide⟩
  refine ⟨c, hc, hentered, hcovered 0x3004 rfl hentered, fun node inst hinst hissue => ?_, hnodup,
    hnodes⟩
  exact (hshared node inst hinst hissue).resolve_left fun h => by cases h

end FlowAnalysis

end Klc3
