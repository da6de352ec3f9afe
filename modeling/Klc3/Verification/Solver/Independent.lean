import Klc3.Lib.Independence
import Klc3.Model.IndependentSolver
import Mathlib.Data.Set.BooleanAlgebra
import Mathlib.Order.CompletePartialOrder

/-!
# Independent constraints suffice

The constraints that `getIndependentConstraints` leaves out share no array element with the
others, so that the wrapped solver answers as it would with all of them.
-/

namespace Klc3.Klee

variable {ω : Type}

/-! ## Subexpressions -/

mutual

/-- The subexpressions, repeated as often as they occur. -/
def Expr.subs : Expr ω → List (Expr ω)
  | .const value => [.const value]
  | .read root head index => .read root head index :: (index.subs ++ head.subs)
  | .node op kids => .node op kids :: kids.subs

def UpdateNodes.subs : UpdateNodes ω → List (Expr ω)
  | .nil => []
  | .cons index value next => index.subs ++ value.subs ++ next.subs

def Exprs.subs : Exprs ω → List (Expr ω)
  | .nil => []
  | .cons kid kids => kid.subs ++ kids.subs

end

mutual

theorem Expr.length_subs (e : Expr ω) : e.subs.length = e.size := by
  cases e with
  | const value => rfl
  | read root head index =>
    rw [Expr.subs, Expr.size, List.length_cons, List.length_append, index.length_subs,
      head.length_subs]
  | node op kids => rw [Expr.subs, Expr.size, List.length_cons, kids.length_subs]

theorem UpdateNodes.length_subs (head : UpdateNodes ω) : head.subs.length = head.size := by
  cases head with
  | nil => rfl
  | cons index value next =>
    rw [UpdateNodes.subs, UpdateNodes.size, List.length_append, List.length_append,
      index.length_subs, value.length_subs, next.length_subs]

theorem Exprs.length_subs (kids : Exprs ω) : kids.subs.length = kids.size := by
  cases kids with
  | nil => rfl
  | cons kid kids =>
    rw [Exprs.subs, Exprs.size, List.length_append, kid.length_subs, kids.length_subs]

end

theorem Expr.self_mem_subs (e : Expr ω) : e ∈ e.subs := by
  cases e <;> exact List.mem_cons_self

theorem UpdateNodes.toList_subset_subs (head : UpdateNodes ω) : head.toList ⊆ head.subs := by
  cases head with
  | nil => exact List.nil_subset _
  | cons index value next =>
    intro e he
    simp only [UpdateNodes.toList, List.mem_cons] at he
    simp only [UpdateNodes.subs, List.mem_append]
    rcases he with rfl | rfl | he
    · exact .inl (.inl e.self_mem_subs)
    · exact .inl (.inr e.self_mem_subs)
    · exact .inr (next.toList_subset_subs he)

theorem Exprs.toList_subset_subs (kids : Exprs ω) : kids.toList ⊆ kids.subs := by
  cases kids with
  | nil => exact List.nil_subset _
  | cons kid kids =>
    intro e he
    simp only [Exprs.toList, List.mem_cons] at he
    simp only [Exprs.subs, List.mem_append]
    rcases he with rfl | he
    · exact .inl e.self_mem_subs
    · exact .inr (kids.toList_subset_subs he)

mutual

theorem Expr.succs_subset_subs (e : Expr ω) {x : Expr ω} (hx : x ∈ e.subs) : x.succs ⊆ e.subs := by
  cases e with
  | const value =>
    rw [List.mem_singleton.1 hx]
    exact List.nil_subset _
  | read root head index =>
    rcases List.mem_cons.1 hx with rfl | hx
    · have hindex : index ∈ index.subs ++ head.subs := List.mem_append_left _ index.self_mem_subs
      exact List.cons_subset.2 ⟨List.mem_cons_of_mem _ hindex, fun y hy => List.mem_cons_of_mem _
        (List.mem_append_right _ (head.toList_subset_subs hy))⟩
    · refine List.Subset.trans ?_ (List.subset_cons_self _ _)
      rcases List.mem_append.1 hx with hx | hx
      · exact List.Subset.trans (index.succs_subset_subs hx) (List.subset_append_left _ _)
      · exact List.Subset.trans (head.succs_subset_subs hx) (List.subset_append_right _ _)
  | node op kids =>
    rcases List.mem_cons.1 hx with rfl | hx
    · exact List.Subset.trans kids.toList_subset_subs (List.subset_cons_self _ _)
    · exact List.Subset.trans (kids.succs_subset_subs hx) (List.subset_cons_self _ _)

theorem UpdateNodes.succs_subset_subs {x : Expr ω} (head : UpdateNodes ω) (hx : x ∈ head.subs) :
    x.succs ⊆ head.subs := by
  cases head with
  | nil => cases hx
  | cons index value next =>
    intro y hy
    simp only [UpdateNodes.subs, List.mem_append] at hx ⊢
    rcases hx with (hx | hx) | hx
    · exact .inl (.inl (index.succs_subset_subs hx hy))
    · exact .inl (.inr (value.succs_subset_subs hx hy))
    · exact .inr (next.succs_subset_subs hx hy)

theorem Exprs.succs_subset_subs {x : Expr ω} (kids : Exprs ω) (hx : x ∈ kids.subs) :
    x.succs ⊆ kids.subs := by
  cases kids with
  | nil => cases hx
  | cons kid kids =>
    intro y hy
    simp only [Exprs.subs, List.mem_append] at hx ⊢
    rcases hx with hx | hx
    · exact .inl (kid.succs_subset_subs hx hy)
    · exact .inr (kids.succs_subset_subs hx hy)

end

/-! ## Reads that an element set covers -/

/-- The elements that a read at any assignment may depend on are among those of the set. -/
def ReadExpr.Covered (re : ReadExpr ω) (s : Set (Array × Nat)) : Prop :=
  re.root.isConstantArray = true ∨ (∀ i, (re.root, i) ∈ s) ∨
    ∃ i, re.index = .const i ∧ (re.root, i) ∈ s

theorem ReadExpr.Covered.mono {re : ReadExpr ω} {s t : Set (Array × Nat)} (h : re.Covered s)
    (hst : s ⊆ t) : re.Covered t := by
  rcases h with hconst | hwhole | ⟨i, hindex, hi⟩
  · exact .inl hconst
  · exact .inr (.inl fun i => hst (hwhole i))
  · exact .inr (.inr ⟨i, hindex, hst hi⟩)

section Eval

variable {sem : ω → List Nat → Nat} {s : Set (Array × Nat)} {P : Expr ω → Prop}
  {a b : Assignment}

/-- A set of expressions with all their subexpressions but constants, whose reads are covered. -/
structure CoveredBelow (s : Set (Array × Nat)) (P : Expr ω → Prop) : Prop where
  succs : ∀ e, P e → ∀ x ∈ e.succs, x.isConst = false → P x
  reads : ∀ e re, P e → e.asRead = some re → re.Covered s

mutual

theorem Expr.eval_congr (hP : CoveredBelow s P) (hab : ∀ p ∈ s, a p = b p) (e : Expr ω)
    (he : e.isConst = false → P e) : e.eval sem a = e.eval sem b := by
  cases e with
  | const value => rfl
  | read root head index =>
    have hself := he rfl
    have hindex := index.eval_congr hP hab fun hx => hP.succs _ hself _ List.mem_cons_self hx
    have hbase : root.isConstantArray = false →
        a (root, index.eval sem b) = b (root, index.eval sem b) := by
      intro hconst
      rcases hP.reads _ _ hself rfl with h | h | ⟨i, hi, h⟩
      · rw [hconst] at h
        cases h
      · exact hab _ (h _)
      · obtain rfl : index = .const i := hi
        exact hab _ h
    simp only [Expr.eval]
    rw [hindex, head.lookup_congr hP hab fun x hx => hP.succs _ hself _ (List.mem_cons_of_mem _ hx)]
    cases hconst : root.isConstantArray with
    | true => rfl
    | false => rw [hbase hconst]
  | node op kids =>
    simp only [Expr.eval]
    rw [kids.eval_congr hP hab fun x hx => hP.succs _ (he rfl) _ hx]

theorem UpdateNodes.lookup_congr (hP : CoveredBelow s P) (hab : ∀ p ∈ s, a p = b p)
    {i below : Nat} (head : UpdateNodes ω) (hhead : ∀ x ∈ head.toList, x.isConst = false → P x) :
    head.lookup sem a i below = head.lookup sem b i below := by
  cases head with
  | nil => rfl
  | cons index value next =>
    simp only [UpdateNodes.toList, List.mem_cons, forall_eq_or_imp] at hhead
    obtain ⟨hindex, hvalue, hnext⟩ := hhead
    simp only [UpdateNodes.lookup]
    rw [index.eval_congr hP hab hindex, value.eval_congr hP hab hvalue,
      next.lookup_congr hP hab hnext]

theorem Exprs.eval_congr (hP : CoveredBelow s P) (hab : ∀ p ∈ s, a p = b p) (kids : Exprs ω)
    (hkids : ∀ x ∈ kids.toList, x.isConst = false → P x) : kids.eval sem a = kids.eval sem b := by
  cases kids with
  | nil => rfl
  | cons kid kids =>
    simp only [Exprs.toList, List.mem_cons, forall_eq_or_imp] at hkids
    simp only [Exprs.eval]
    rw [kid.eval_congr hP hab hkids.1, kids.eval_congr hP hab hkids.2]

end

end Eval

/-! ## Element sets -/

namespace IndependentElementSet

variable (s b : IndependentElementSet ω)

/-- The array elements that a set stands for. -/
def toSet : Set (Array × Nat) :=
  {p | p.1 ∈ s.wholeObjects ∨ p ∈ s.elements}

theorem hasElements_of_mem {s : IndependentElementSet ω} {p : Array × Nat} (h : p ∈ s.elements) :
    s.hasElements p.1 = true :=
  List.any_eq_true.2 ⟨p, h, by simp⟩

/-- An array that becomes a whole object loses no elements. -/
theorem subset_whole (array : Array) :
    s.toSet ⊆ toSet { s.eraseElements array with wholeObjects := array :: s.wholeObjects } := by
  rintro p (h | h)
  · exact .inl (List.mem_cons_of_mem _ h)
  · by_cases hp : p.1 = array
    · exact .inl (List.mem_cons.2 (.inl hp))
    · exact .inr (List.mem_filter.2 ⟨h, by simpa using hp⟩)

variable {s b}

theorem disjoint_of_not_intersects (h : s.intersects b = false) : Disjoint s.toSet b.toSet := by
  simp only [intersects, Bool.or_eq_false_iff, List.any_eq_false, Bool.or_eq_true,
    decide_eq_true_eq, not_or, Bool.not_eq_true] at h
  obtain ⟨hwhole, helements⟩ := h
  rw [Set.disjoint_left]
  rintro p (hs | hs) (hb | hb)
  · exact (hwhole _ hs).1 hb
  · have hhas := hasElements_of_mem hb
    rw [(hwhole _ hs).2] at hhas
    cases hhas
  · exact (helements p hs).1 hb
  · exact (helements p hs).2 hb

/-- A step of `add`. -/
structure Adds (r r' : Bool × IndependentElementSet ω) : Prop where
  subset : r.2.toSet ⊆ r'.2.toSet
  unmodified : r'.1 = false → r.1 = false ∧ r'.2.toSet = r.2.toSet

theorem Adds.refl (r : Bool × IndependentElementSet ω) : Adds r r :=
  ⟨subset_rfl, fun h => ⟨h, rfl⟩⟩

theorem Adds.trans {r₁ r₂ r₃ : Bool × IndependentElementSet ω} (h : Adds r₁ r₂)
    (h' : Adds r₂ r₃) : Adds r₁ r₃ := by
  refine ⟨h.subset.trans h'.subset, fun hmodified => ?_⟩
  obtain ⟨hmiddle, hsame⟩ := h'.unmodified hmodified
  obtain ⟨hfirst, hsame'⟩ := h.unmodified hmiddle
  exact ⟨hfirst, hsame.trans hsame'⟩

variable (r : Bool × IndependentElementSet ω)

theorem adds_addWhole (array : Array) : Adds r (addWhole r array) := by
  unfold addWhole
  split
  · exact ⟨r.2.subset_whole array, fun h => by cases h⟩
  · split
    · exact .refl r
    · refine ⟨?_, fun h => by cases h⟩
      rintro p (h | h)
      · exact .inl (List.mem_cons_of_mem _ h)
      · exact .inr h

theorem mem_addWhole (array : Array) : array ∈ (addWhole r array).2.wholeObjects := by
  unfold addWhole
  split
  · exact List.mem_cons_self
  · split
    · rename_i h
      exact h
    · exact List.mem_cons_self

theorem adds_addElement (p : Array × Nat) : Adds r (addElement r p) := by
  unfold addElement
  split
  · exact .refl r
  · refine ⟨?_, fun h => by cases h⟩
    rintro q (h | h)
    · exact .inl h
    · exact .inr (List.mem_cons_of_mem _ h)

theorem mem_addElement (p : Array × Nat) : p ∈ (addElement r p).2.toSet := by
  unfold addElement
  split
  · rename_i h
    exact h
  · exact .inr List.mem_cons_self

/-- What each step of a loop adds is there in the end. -/
theorem adds_foldl {ι : Type} {f : Bool × IndependentElementSet ω → ι → Bool × IndependentElementSet ω}
    {t : ι → Set (Array × Nat)} (hf : ∀ r i, Adds r (f r i)) (ht : ∀ r i, t i ⊆ (f r i).2.toSet)
    (is : List ι) : Adds r (is.foldl f r) ∧ ∀ i ∈ is, t i ⊆ (is.foldl f r).2.toSet := by
  induction is generalizing r with
  | nil => exact ⟨.refl r, fun _ h => by cases h⟩
  | cons i is ih =>
    obtain ⟨hadds, hmem⟩ := ih (f r i)
    refine ⟨(hf r i).trans hadds, ?_⟩
    intro j hj
    rcases List.mem_cons.1 hj with rfl | hj
    · exact (ht r j).trans hadds.subset
    · exact hmem j hj

/-- `add` makes a set of all elements, and says whether it is larger. -/
theorem adds_add (s b : IndependentElementSet ω) :
    Adds (false, s) (s.add b) ∧ b.toSet ⊆ (s.add b).2.toSet := by
  have hstart : Adds (false, s) (false, { s with exprs := s.exprs ++ b.exprs }) :=
    ⟨subset_rfl, fun _ => ⟨rfl, rfl⟩⟩
  obtain ⟨hwhole, hwhole'⟩ := adds_foldl (t := fun array => {p | p.1 = array})
    (false, { s with exprs := s.exprs ++ b.exprs }) adds_addWhole
    (fun r array p hp => .inl (hp ▸ mem_addWhole r array)) b.wholeObjects
  obtain ⟨helements, helements'⟩ := adds_foldl (t := fun p => {p})
    (b.wholeObjects.foldl addWhole (false, { s with exprs := s.exprs ++ b.exprs }))
    adds_addElement (fun r p => Set.singleton_subset_iff.2 (mem_addElement r p)) b.elements
  refine ⟨hstart.trans (hwhole.trans helements), ?_⟩
  rintro p (hp | hp)
  · exact helements.subset (hwhole' p.1 hp rfl)
  · exact helements' p hp rfl

end IndependentElementSet

/-! ## The set of an expression -/

section OfExpr

variable [DecidableEq ω]

/-- `findReads` finds the reads that the value of the expression depends on. -/
theorem eval_dependsOn_of_covered (sem : ω → List Nat → Nat) {e : Expr ω} {s : Set (Array × Nat)}
    (h : ∀ re ∈ findReads e, re.Covered s) : DependsOn (e.eval sem) s := by
  intro a b hab
  have hclosed : Visit.Closed (fun e => !e.isConst) Expr.succs e.subs :=
    fun x hx y hy _ => e.succs_subset_subs hx hy
  have hvisit := Visit.run_complete hclosed fun (_ : (!e.isConst) = true) => e.self_mem_subs
  rw [e.length_subs] at hvisit
  have hP : CoveredBelow s (· ∈ ((Visit.start (fun e => !e.isConst) e).run
      (fun e => !e.isConst) Expr.succs e.size).popped) := by
    constructor
    · intro x hx y hy hconst
      exact hvisit.2 x hx y hy (by simp [hconst])
    · intro x re hx hre
      exact h re (List.mem_filterMap.2 ⟨x, hx, hre⟩)
  exact e.eval_congr hP hab fun hconst => hvisit.1 (by simp [hconst])

namespace IndependentElementSet

variable (s : IndependentElementSet ω)

theorem subset_addRead (re : ReadExpr ω) : s.toSet ⊆ (s.addRead re).toSet := by
  unfold addRead
  split
  · exact subset_rfl
  · split
    · exact subset_rfl
    · split
      · rintro p (h | h)
        · exact .inl h
        · exact .inr (List.mem_cons_of_mem _ h)
      · exact s.subset_whole re.root

theorem covered_addRead (re : ReadExpr ω) : re.Covered (s.addRead re).toSet := by
  unfold addRead
  split
  · rename_i hconst
    exact .inl (Bool.and_eq_true_iff.1 hconst).1
  · split
    · rename_i hwhole
      exact .inr (.inl fun i => .inl hwhole)
    · split
      · rename_i value hindex
        exact .inr (.inr ⟨value, hindex, .inr List.mem_cons_self⟩)
      · exact .inr (.inl fun i => .inl List.mem_cons_self)

theorem subset_foldl_addRead (reads : List (ReadExpr ω)) :
    s.toSet ⊆ (reads.foldl addRead s).toSet := by
  induction reads generalizing s with
  | nil => exact subset_rfl
  | cons re reads ih => exact (s.subset_addRead re).trans (ih (s.addRead re))

theorem covered_foldl_addRead {reads : List (ReadExpr ω)} {re : ReadExpr ω} (h : re ∈ reads) :
    re.Covered (reads.foldl addRead s).toSet := by
  induction reads generalizing s with
  | nil => cases h
  | cons first reads ih =>
    rcases List.mem_cons.1 h with rfl | h
    · exact (s.covered_addRead re).mono (subset_foldl_addRead _ reads)
    · exact ih (s.addRead first) h

/-- The value of an expression depends only on the elements of its set. -/
theorem eval_dependsOn (sem : ω → List Nat → Nat) (e : Expr ω) :
    DependsOn (e.eval sem) (ofExpr e).toSet :=
  eval_dependsOn_of_covered sem fun _ hre => covered_foldl_addRead _ hre

end IndependentElementSet

end OfExpr

/-! ## The closure of the query -/

open IndependentElementSet

/-- What a round of the closure loop does: it goes through the worklist, takes a part of it and
keeps the rest. -/
structure Round (c : Closure ω) (worklist : List (Expr ω × IndependentElementSet ω))
    (c' : Closure ω) (taken kept : List (Expr ω × IndependentElementSet ω)) : Prop where
  result : c'.result = c.result ++ taken.map Prod.fst
  newWorklist : c'.newWorklist = c.newWorklist ++ kept
  perm : (taken ++ kept).Perm worklist
  subset : c.elts.toSet ⊆ c'.elts.toSet
  covered : ∀ item ∈ taken, item.2.toSet ⊆ c'.elts.toSet
  done : c'.done = true → c.done = true ∧ c'.elts.toSet = c.elts.toSet ∧
    ∀ item ∈ kept, Disjoint item.2.toSet c'.elts.toSet
  modified : c.done = true → c'.done = false → taken ≠ []

theorem Round.of_visit (c : Closure ω) (item : Expr ω × IndependentElementSet ω) :
    ∃ taken kept, Round c [item] (c.visit item) taken kept := by
  unfold Closure.visit
  split
  · obtain ⟨hadds, hitem⟩ := adds_add c.elts item.2
    refine ⟨[item], [], rfl, (List.append_nil _).symm, List.Perm.refl _, hadds.subset, ?_, ?_, ?_⟩
    · simpa using hitem
    · intro hdone
      obtain ⟨hbefore, hunmodified⟩ := Bool.and_eq_true_iff.1 hdone
      exact ⟨hbefore, (hadds.unmodified (by simpa using hunmodified)).2, by simp⟩
    · intro _ _
      exact List.cons_ne_nil _ _
  · rename_i hintersects
    refine ⟨[], [item], (List.append_nil _).symm, rfl, List.Perm.refl _, subset_rfl, by simp, ?_, ?_⟩
    · intro hdone
      refine ⟨hdone, rfl, ?_⟩
      simpa using disjoint_of_not_intersects (by simpa using hintersects)
    · intro hdone hnot
      rw [hdone] at hnot
      cases hnot

theorem Round.trans {c₁ c₂ c₃ : Closure ω}
    {worklist worklist' taken taken' kept kept' : List (Expr ω × IndependentElementSet ω)}
    (h : Round c₁ worklist c₂ taken kept) (h' : Round c₂ worklist' c₃ taken' kept') :
    Round c₁ (worklist ++ worklist') c₃ (taken ++ taken') (kept ++ kept') := by
  refine ⟨?_, ?_, ?_, h.subset.trans h'.subset, ?_, ?_, ?_⟩
  · rw [h'.result, h.result, List.map_append, List.append_assoc]
  · rw [h'.newWorklist, h.newWorklist, List.append_assoc]
  · calc taken ++ taken' ++ (kept ++ kept')
        = taken ++ (taken' ++ kept) ++ kept' := by simp only [List.append_assoc]
      _ |>.Perm (taken ++ (kept ++ taken') ++ kept') :=
        ((List.perm_append_comm).append_left taken).append_right kept'
      _ = (taken ++ kept) ++ (taken' ++ kept') := by simp only [List.append_assoc]
      _ |>.Perm (worklist ++ worklist') := h.perm.append h'.perm
  · intro item hitem
    rcases List.mem_append.1 hitem with hitem | hitem
    · exact (h.covered item hitem).trans h'.subset
    · exact h'.covered item hitem
  · intro hdone
    obtain ⟨hmiddle, hsame', hkept'⟩ := h'.done hdone
    obtain ⟨hfirst, hsame, hkept⟩ := h.done hmiddle
    refine ⟨hfirst, hsame'.trans hsame, ?_⟩
    intro item hitem
    rcases List.mem_append.1 hitem with hitem | hitem
    · rw [hsame']
      exact hkept item hitem
    · exact hkept' item hitem
  · intro hfirst hdone hnil
    obtain ⟨hnil, hnil'⟩ := List.append_eq_nil_iff.1 hnil
    cases hmiddle : c₂.done with
    | true => exact h'.modified hmiddle hdone hnil'
    | false => exact h.modified hfirst hmiddle hnil

theorem Round.of_foldl (c : Closure ω) (worklist : List (Expr ω × IndependentElementSet ω)) :
    ∃ taken kept, Round c worklist (worklist.foldl Closure.visit c) taken kept := by
  induction worklist generalizing c with
  | nil =>
    refine ⟨[], [], (List.append_nil _).symm, (List.append_nil _).symm, List.Perm.refl _,
      subset_rfl, by simp, ?_, ?_⟩
    · intro hdone
      exact ⟨hdone, rfl, by simp⟩
    · intro hdone hnot
      rw [List.foldl_nil, hdone] at hnot
      cases hnot
  | cons item worklist ih =>
    obtain ⟨taken, kept, hitem⟩ := Round.of_visit c item
    obtain ⟨taken', kept', hrest⟩ := ih (c.visit item)
    exact ⟨taken ++ taken', kept ++ kept', hitem.trans hrest⟩

/-- A worklist is separated into what is in a set of elements and what has none of them. -/
structure Separated (worklist taken kept : List (Expr ω × IndependentElementSet ω))
    (closure : Set (Array × Nat)) : Prop where
  perm : (taken ++ kept).Perm worklist
  taken_subset : ∀ item ∈ taken, item.2.toSet ⊆ closure
  kept_disjoint : ∀ item ∈ kept, Disjoint item.2.toSet closure

/-- The loop ends, since each round but the last takes something from the worklist, and the
last one found the closure unmodified. -/
theorem closureLoop_separates {fuel : Nat} {worklist : List (Expr ω × IndependentElementSet ω)}
    (hfuel : worklist.length < fuel) (elts : IndependentElementSet ω) (result : List (Expr ω)) :
    ∃ taken kept, (closureLoop fuel elts result worklist).2 = result ++ taken.map Prod.fst ∧
      elts.toSet ⊆ (closureLoop fuel elts result worklist).1.toSet ∧
      Separated worklist taken kept (closureLoop fuel elts result worklist).1.toSet := by
  induction fuel generalizing elts result worklist with
  | zero => exact absurd hfuel (Nat.not_lt_zero _)
  | succ fuel ih =>
    obtain ⟨taken, kept, hround⟩ := Round.of_foldl ⟨elts, true, result, []⟩ worklist
    rw [closureLoop]
    split
    · rename_i hdone
      obtain ⟨-, -, hkept⟩ := hround.done hdone
      exact ⟨taken, kept, hround.result, hround.subset, hround.perm, hround.covered, hkept⟩
    · rename_i hdone
      have htaken := hround.modified rfl (by simpa using hdone)
      have hlength := hround.perm.length_eq
      rw [List.length_append] at hlength
      have hpos := List.length_pos_iff.2 htaken
      have hnew := hround.newWorklist
      rw [List.nil_append] at hnew
      have hshorter : kept.length < fuel := by omega
      obtain ⟨taken', kept', hresult, hsubset, hsep⟩ := ih hshorter
        (worklist.foldl Closure.visit ⟨elts, true, result, []⟩).elts
        (worklist.foldl Closure.visit ⟨elts, true, result, []⟩).result
      rw [hnew]
      refine ⟨taken ++ taken', kept', ?_, hround.subset.trans hsubset, ?_, ?_, hsep.kept_disjoint⟩
      · rw [hresult, hround.result, List.map_append, List.append_assoc]
      · rw [List.append_assoc]
        exact (hsep.perm.append_left taken).trans hround.perm
      · intro item hitem
        rcases List.mem_append.1 hitem with hitem | hitem
        · exact (hround.covered item hitem).trans hsubset
        · exact hsep.taken_subset item hitem

/-! ## The cache -/

section Cache

variable [DecidableEq ω]

/-- The live expressions, by their addresses. -/
abbrev Heap (ω : Type) := Nat → Option (Expr ω)

/-- The constraint set of a query holds references, so its expressions are live. -/
def Query.Live (heap : Heap ω) (query : Query ω) : Prop :=
  ∀ c ∈ query.constraints, heap c.addr = some c.expr

/-- The runs of the program around the solver. An address is free for another expression once
the old one is freed, which it can be only when the cache holds no reference to it. -/
inductive Reachable : Heap ω → Cache ω → Prop where
  | start (heap) : Reachable heap []
  | alloc {heap cache} (addr : Nat) (e : Expr ω) : Reachable heap cache → heap addr = none →
      Reachable (Function.update heap addr (some e)) cache
  | free {heap cache} (addr : Nat) : Reachable heap cache → addr ∉ cache.map Prod.fst →
      Reachable (Function.update heap addr none) cache
  | query {heap cache} (query : Query ω) : Reachable heap cache → query.Live heap →
      Reachable heap (getIndependentConstraints cache query).1

/-- Each entry describes the expression that is at its address. -/
def Describes (heap : Heap ω) (cache : Cache ω) : Prop :=
  ∀ p ∈ cache, ∃ e, heap p.1 = some e ∧ p.2 = .ofExpr e

variable {heap : Heap ω} {cache : Cache ω}

theorem Describes.lookup (h : Describes heap cache) {c : Ref ω} (hc : heap c.addr = some c.expr) :
    Describes heap (Klee.lookup cache c).1 ∧ (Klee.lookup cache c).2 = .ofExpr c.expr := by
  unfold Klee.lookup
  split
  · rename_i s hfound
    obtain ⟨before, after, hcache, -⟩ := List.lookup_eq_some_iff.1 hfound
    obtain ⟨e, he, hs⟩ := h (c.addr, s) (by simp [hcache])
    rw [hc] at he
    cases he
    exact ⟨h, hs⟩
  · refine ⟨?_, rfl⟩
    intro p hp
    rcases List.mem_append.1 hp with hp | hp
    · exact h p hp
    · rw [List.mem_singleton.1 hp]
      exact ⟨c.expr, hc, rfl⟩

theorem Describes.makeWorklist (h : Describes heap cache) {cs : List (Ref ω)}
    (hcs : ∀ c ∈ cs, heap c.addr = some c.expr) :
    Describes heap (Klee.makeWorklist cache cs).1 ∧
      (Klee.makeWorklist cache cs).2 = cs.map fun c => (c.expr, .ofExpr c.expr) := by
  induction cs generalizing cache with
  | nil => exact ⟨h, rfl⟩
  | cons c cs ih =>
    obtain ⟨hc, hcs⟩ := List.forall_mem_cons.1 hcs
    obtain ⟨hfirst, hset⟩ := h.lookup hc
    obtain ⟨hrest, hworklist⟩ := ih hfirst hcs
    refine ⟨hrest, ?_⟩
    rw [Klee.makeWorklist, List.map_cons]
    exact congrArg₂ List.cons (congrArg (Prod.mk c.expr) hset) hworklist

theorem Describes.clear (h : Describes heap cache) :
    Describes heap (if cache.length > clearThreshold then [] else cache) := by
  split
  · exact fun p hp => by cases hp
  · exact h

theorem Describes.query (h : Describes heap cache) {query : Query ω} (hlive : query.Live heap) :
    Describes heap (getIndependentConstraints cache query).1 :=
  (h.clear.makeWorklist hlive).1

/-- The cache is right after any history of queries: it is cleared as a whole or keeps the
expressions that its keys point to. -/
theorem Reachable.describes (h : Reachable heap cache) : Describes heap cache := by
  induction h with
  | start heap => exact fun p hp => by cases hp
  | @alloc heap cache addr e _ hnone ih =>
    intro p hp
    obtain ⟨e', he', hset⟩ := ih p hp
    have hne : p.1 ≠ addr := by
      rintro heq
      rw [heq, hnone] at he'
      cases he'
    exact ⟨e', by rw [Function.update_of_ne hne, he'], hset⟩
  | @free heap cache addr _ hkey ih =>
    intro p hp
    obtain ⟨e', he', hset⟩ := ih p hp
    have hne : p.1 ≠ addr := by
      rintro rfl
      exact hkey (List.mem_map_of_mem hp)
    exact ⟨e', by rw [Function.update_of_ne hne, he'], hset⟩
  | query query _ hlive ih => exact ih.query hlive

end Cache

/-! ## The answers -/

section Answers

variable (sem : ω → List Nat → Nat)

def Sat (cs : List (Expr ω)) (a : Assignment) : Prop :=
  ∀ c ∈ cs, c.eval sem a ≠ 0

/-- The solver answers every query exactly. -/
structure Solver.Exact (solver : Solver ω) : Prop where
  computeTruth : ∀ cs e, solver.computeTruth cs e = true ↔ ∀ a, Sat sem cs a → e.eval sem a ≠ 0
  valid : ∀ cs e, solver.computeValidity cs e = .valid ↔ ∀ a, Sat sem cs a → e.eval sem a ≠ 0
  invalid : ∀ cs e, (∃ a, Sat sem cs a) →
    (solver.computeValidity cs e = .invalid ↔ ∀ a, Sat sem cs a → e.eval sem a = 0)

theorem Solver.Exact.validity_congr {solver : Solver ω} (exact : solver.Exact sem)
    {cs cs' : List (Expr ω)} {e : Expr ω} (hsat : ∃ a, Sat sem cs a) (hsat' : ∃ a, Sat sem cs' a)
    (h : ∀ p : Nat → Prop, (∀ a, Sat sem cs a → p (e.eval sem a)) ↔
      ∀ a, Sat sem cs' a → p (e.eval sem a)) :
    solver.computeValidity cs e = solver.computeValidity cs' e := by
  have hvalid : solver.computeValidity cs e = .valid ↔ solver.computeValidity cs' e = .valid := by
    rw [exact.valid, exact.valid]
    exact h (· ≠ 0)
  have hinvalid : solver.computeValidity cs e = .invalid ↔
      solver.computeValidity cs' e = .invalid := by
    rw [exact.invalid cs e hsat, exact.invalid cs' e hsat']
    exact h (· = 0)
  cases h₁ : solver.computeValidity cs e <;> cases h₂ : solver.computeValidity cs' e <;>
    simp_all

variable [DecidableEq ω] {heap : Heap ω} {cache : Cache ω} {query : Query ω}

/-- The required constraints read only elements of a set that also has those of the query, and
the other constraints none of them. -/
theorem required_separates (hcache : Describes heap cache) (hlive : query.Live heap) :
    ∃ (rest : List (Expr ω)) (closure : Set (Array × Nat)),
      (∀ e, e ∈ query.constraints.map Ref.expr ↔
        e ∈ (getIndependentConstraints cache query).2 ∨ e ∈ rest) ∧
      (∀ e ∈ (getIndependentConstraints cache query).2, DependsOn (e.eval sem) closure) ∧
      (∀ e ∈ rest, DependsOn (e.eval sem) closureᶜ) ∧
      DependsOn (query.expr.eval sem) closure := by
  have hworklist := (hcache.clear.makeWorklist hlive).2
  rw [getIndependentConstraints]
  dsimp only
  rw [hworklist]
  obtain ⟨taken, kept, hresult, hsubset, hsep⟩ := closureLoop_separates
    (Nat.lt_succ_self (query.constraints.map fun c => (c.expr, ofExpr c.expr)).length)
    (.ofExpr query.expr) []
  -- every item of the worklist has the set of its own expression
  have hset : ∀ item ∈ taken ++ kept, item.2 = .ofExpr item.1 := by
    intro item hitem
    obtain ⟨c, -, rfl⟩ := List.mem_map.1 (hsep.perm.subset hitem)
    rfl
  refine ⟨kept.map Prod.fst, _, ?_, ?_, ?_, (eval_dependsOn sem query.expr).mono hsubset⟩
  · intro e
    rw [hresult, List.nil_append, ← List.mem_append, ← List.map_append,
      (hsep.perm.map Prod.fst).mem_iff, List.map_map]
    rfl
  · intro e he
    rw [hresult, List.nil_append] at he
    obtain ⟨item, hitem, rfl⟩ := List.mem_map.1 he
    have hsubset := hsep.taken_subset item hitem
    rw [hset item (List.mem_append_left _ hitem)] at hsubset
    exact (eval_dependsOn sem item.1).mono hsubset
  · intro e he
    obtain ⟨item, hitem, rfl⟩ := List.mem_map.1 he
    have hdisjoint := hsep.kept_disjoint item hitem
    rw [hset item (List.mem_append_right _ hitem)] at hdisjoint
    exact (eval_dependsOn sem item.1).mono hdisjoint.subset_compl_right

/-- The required constraints imply of the query whatever all constraints do. -/
theorem required_iff (hcache : Describes heap cache) (hlive : query.Live heap)
    (hsat : ∃ a, Sat sem (query.constraints.map Ref.expr) a) (p : Nat → Prop) :
    (∀ a, Sat sem (getIndependentConstraints cache query).2 a → p (query.expr.eval sem a)) ↔
      ∀ a, Sat sem (query.constraints.map Ref.expr) a → p (query.expr.eval sem a) := by
  obtain ⟨rest, closure, hall, hover, hrest, hgoal⟩ := required_separates sem hcache hlive
  refine Independence.forall_solutions_iff (c := fun (e : Expr ω) a => e.eval sem a ≠ 0)
    (s := closure) hall ?_ ?_ ?_ hsat
  · intro e he a b hab
    exact congrArg (· ≠ 0) (hover e he hab)
  · intro e he a b hab
    exact congrArg (· ≠ 0) (hrest e he hab)
  · intro a b hab
    exact congrArg p (hgoal hab)

theorem required_sat (hcache : Describes heap cache) (hlive : query.Live heap)
    (hsat : ∃ a, Sat sem (query.constraints.map Ref.expr) a) :
    ∃ a, Sat sem (getIndependentConstraints cache query).2 a := by
  obtain ⟨a, ha⟩ := hsat
  obtain ⟨rest, -, hall, -⟩ := required_separates sem hcache hlive
  exact ⟨a, fun e he => ha e ((hall e).2 (.inl he))⟩

/-- After any history of queries the solver answers as the wrapped one does for all
constraints. -/
theorem reachable_answers {solver : Solver ω} (exact : solver.Exact sem)
    (hreach : Reachable heap cache) (hlive : query.Live heap)
    (hsat : ∃ a, Sat sem (query.constraints.map Ref.expr) a) :
    (computeTruth solver cache query).2 =
        solver.computeTruth (query.constraints.map Ref.expr) query.expr ∧
      (computeValidity solver cache query).2 =
        solver.computeValidity (query.constraints.map Ref.expr) query.expr := by
  have hcache := hreach.describes
  have hrequired := required_iff sem hcache hlive hsat
  constructor
  · rw [Bool.eq_iff_iff, exact.computeTruth]
    exact (exact.computeTruth _ _).trans (hrequired (· ≠ 0))
  · exact exact.validity_congr sem (required_sat sem hcache hlive hsat) hsat hrequired

/-- A solver that decides every query by truth. -/
noncomputable def Solver.ideal : Solver ω where
  computeTruth cs e := @decide (∀ a, Sat sem cs a → e.eval sem a ≠ 0) (Classical.propDecidable _)
  computeValidity cs e :=
    @ite _ (∀ a, Sat sem cs a → e.eval sem a ≠ 0) (Classical.propDecidable _) .valid
      (@ite _ (∀ a, Sat sem cs a → e.eval sem a = 0) (Classical.propDecidable _) .invalid .unknown)

omit [DecidableEq ω] in
theorem Solver.ideal_exact : (Solver.ideal sem).Exact sem where
  computeTruth cs e := by simp [ideal]
  valid cs e := by
    simp only [ideal]
    split
    · simpa
    · split <;> simp_all
  invalid cs e hsat := by
    obtain ⟨a₀, ha₀⟩ := hsat
    simp only [ideal]
    split
    · rename_i h
      simpa using ⟨a₀, ha₀, h a₀ ha₀⟩
    · split <;> simp_all

end Answers

/-! ## A history -/

section History

/-- Two arrays of bytes, the second one read at an index that the first one holds. -/
def first : Array := ⟨0, "first", 2, 8, []⟩

def second : Array := ⟨1, "second", 4, 8, []⟩

def readFirst (i : Nat) : Expr Unit := .read first .nil (.const i)

def readSecond : Expr Unit := .read second .nil (readFirst 1)

def sampleHeap : Heap Unit := fun addr =>
  if addr = 0 then some (readFirst 0) else if addr = 1 then some readSecond else none

def sampleQuery (i : Nat) : Query Unit :=
  ⟨[⟨0, readFirst 0⟩, ⟨1, readSecond⟩], readFirst i⟩

theorem sample_live (i : Nat) : (sampleQuery i).Live sampleHeap := by
  intro c hc
  simp only [sampleQuery, List.mem_cons, List.not_mem_nil, or_false] at hc
  rcases hc with rfl | rfl <;> rfl

/-- The second query finds both constraints in the cache, and needs only the constraint that
shares an element with it. -/
theorem sample_answers :
    (getIndependentConstraints (getIndependentConstraints [] (sampleQuery 0)).1
        (sampleQuery 1)).2 = [readSecond] ∧
      (computeTruth (.ideal fun _ _ => 0) (getIndependentConstraints [] (sampleQuery 0)).1
          (sampleQuery 1)).2 =
        (Solver.ideal fun _ _ => 0).computeTruth [readFirst 0, readSecond] (readFirst 1) ∧
      (computeValidity (.ideal fun _ _ => 0) (getIndependentConstraints [] (sampleQuery 0)).1
          (sampleQuery 1)).2 =
        (Solver.ideal fun _ _ => 0).computeValidity [readFirst 0, readSecond] (readFirst 1) := by
  refine ⟨by decide +kernel, reachable_answers (fun _ _ => 0) (Solver.ideal_exact _)
    (.query (sampleQuery 0) (.start sampleHeap) (sample_live 0)) (sample_live 1) ⟨fun _ => 1, ?_⟩⟩
  simp [Sat, sampleQuery, readFirst, readSecond, Expr.eval, UpdateNodes.lookup, first, second,
    Array.isConstantArray]

end History

end Klc3.Klee
