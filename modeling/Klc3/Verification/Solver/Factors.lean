import Klc3.Model.InitialValues
import Klc3.Verification.Solver.Independent

/-!
# Independent factors

The passes over the factors of a query keep its constraints and end with factors that share
no array elements.
-/

namespace Klc3.Klee

variable {ω : Type}

namespace IndependentElementSet

/-! ## The factors -/

/-- A factor of constraints that read at constant indices only. Its elements are among those
allowed, those that its expressions need are there, and they depend on nothing else. -/
structure Factor (sem : ω → List Nat → Nat) (allowed : Set (Array × Nat))
    (needed : Expr ω → Set (Array × Nat)) (f : IndependentElementSet ω) : Prop where
  wholeObjects : f.wholeObjects = []
  allowed : ∀ p ∈ f.elements, p ∈ allowed
  needed : ∀ e ∈ f.exprs, needed e ⊆ f.toSet
  dependsOn : ∀ e ∈ f.exprs, DependsOn (e.eval sem) f.toSet

variable {sem : ω → List Nat → Nat} {allowed : Set (Array × Nat)}
  {needed : Expr ω → Set (Array × Nat)} {f g : IndependentElementSet ω}

theorem Factor.mem_toSet_iff (h : Factor sem allowed needed f) (p : Array × Nat) :
    p ∈ f.toSet ↔ p ∈ f.elements := by
  unfold toSet
  simp [h.wholeObjects]

theorem addElement_exprs (r : Bool × IndependentElementSet ω) (p : Array × Nat) :
    (addElement r p).2.exprs = r.2.exprs ∧ (addElement r p).2.wholeObjects = r.2.wholeObjects ∧
      ∀ q ∈ (addElement r p).2.elements, q = p ∨ q ∈ r.2.elements := by
  unfold addElement
  split
  · exact ⟨rfl, rfl, fun q hq => .inr hq⟩
  · exact ⟨rfl, rfl, fun q hq => List.mem_cons.1 hq⟩

theorem addWhole_exprs (r : Bool × IndependentElementSet ω) (array : Array) :
    (addWhole r array).2.exprs = r.2.exprs := by
  unfold addWhole
  split
  · rfl
  · split
    · rfl
    · rfl

theorem foldl_addElement (r : Bool × IndependentElementSet ω) (ps : List (Array × Nat)) :
    (ps.foldl addElement r).2.exprs = r.2.exprs ∧
      (ps.foldl addElement r).2.wholeObjects = r.2.wholeObjects ∧
      ∀ q ∈ (ps.foldl addElement r).2.elements, q ∈ ps ∨ q ∈ r.2.elements := by
  induction ps generalizing r with
  | nil => exact ⟨rfl, rfl, fun q hq => .inr hq⟩
  | cons p ps ih =>
      obtain ⟨hexprs, hwhole, helements⟩ := ih (addElement r p)
      obtain ⟨hexprs', hwhole', helements'⟩ := addElement_exprs r p
      refine ⟨hexprs.trans hexprs', hwhole.trans hwhole', fun q hq => ?_⟩
      rcases helements q hq with hq | hq
      · exact .inl (List.mem_cons_of_mem p hq)
      · rcases helements' q hq with rfl | hq
        · exact .inl List.mem_cons_self
        · exact .inr hq

theorem add_exprs (s b : IndependentElementSet ω) : (s.add b).2.exprs = s.exprs ++ b.exprs := by
  unfold add
  rw [(foldl_addElement _ _).1]
  suffices hwhole : ∀ (r : Bool × IndependentElementSet ω) (arrays : List Array),
      (arrays.foldl addWhole r).2.exprs = r.2.exprs from hwhole _ _
  intro r arrays
  induction arrays generalizing r with
  | nil => rfl
  | cons array arrays ih => exact (ih _).trans (addWhole_exprs r array)

theorem Factor.add (hf : Factor sem allowed needed f) (hg : Factor sem allowed needed g) :
    Factor sem allowed needed (f.add g).2 := by
  obtain ⟨hadds, hsubset⟩ := adds_add f g
  have hadd : f.add g = g.elements.foldl addElement (false, { f with exprs := f.exprs ++ g.exprs }) := by
    rw [IndependentElementSet.add, hg.wholeObjects]
    rfl
  obtain ⟨-, hwhole, helements⟩ :=
    foldl_addElement (false, { f with exprs := f.exprs ++ g.exprs }) g.elements
  refine ⟨?_, fun p hp => ?_, fun e he => ?_, fun e he => ?_⟩
  · rw [hadd, hwhole]
    exact hf.wholeObjects
  · rw [hadd] at hp
    rcases helements p hp with hp | hp
    · exact hg.allowed p hp
    · exact hf.allowed p hp
  · rw [add_exprs, List.mem_append] at he
    rcases he with he | he
    · exact (hf.needed e he).trans hadds.subset
    · exact (hg.needed e he).trans hsubset
  · rw [add_exprs, List.mem_append] at he
    rcases he with he | he
    · exact (hf.dependsOn e he).mono hadds.subset
    · exact (hg.dependsOn e he).mono hsubset

/-! ## A pass -/

/-- What the inner loop does: it takes a part of the other factors and keeps the rest. -/
structure Absorbed (r : Absorbing ω) (others : List (IndependentElementSet ω))
    (r' : Absorbing ω) (taken kept : List (IndependentElementSet ω)) : Prop where
  keep : r'.keep = r.keep ++ kept
  perm : (taken ++ kept).Perm others
  exprs : r'.current.exprs = r.current.exprs ++ taken.flatMap exprs
  factor : ∀ {sem : ω → List Nat → Nat} {allowed : Set (Array × Nat)}
    {needed : Expr ω → Set (Array × Nat)},
    Factor sem allowed needed r.current → (∀ g ∈ taken, Factor sem allowed needed g) →
    Factor sem allowed needed r'.current
  done : r'.doneLoop = true → r.doneLoop = true ∧ r'.current.toSet = r.current.toSet ∧
    ∀ g ∈ kept, Disjoint r'.current.toSet g.toSet
  modified : r.doneLoop = true → r'.doneLoop = false → taken ≠ []

theorem Absorbed.cons {r r' : Absorbing ω} {others taken kept : List (IndependentElementSet ω)}
    (g : IndependentElementSet ω) (h : Absorbed (r.visit g) others r' taken kept) :
    ∃ taken' kept', Absorbed r (g :: others) r' taken' kept' := by
  cases hintersects : r.current.intersects g with
  | true =>
      have hvisit : r.visit g = { r with
          current := (r.current.add g).2, doneLoop := r.doneLoop && !(r.current.add g).1 } := by
        rw [Absorbing.visit, if_pos hintersects]
      rw [hvisit] at h
      obtain ⟨hadds, -⟩ := adds_add r.current g
      refine ⟨g :: taken, kept, h.keep, h.perm.cons g, ?_, ?_, ?_, fun _ _ => List.cons_ne_nil _ _⟩
      · rw [h.exprs, List.flatMap_cons, ← List.append_assoc]
        exact congrArg (· ++ _) (add_exprs r.current g)
      · intro sem allowed needed hcurrent htaken
        exact h.factor (hcurrent.add (htaken g List.mem_cons_self)) fun g' hg' =>
          htaken g' (List.mem_cons_of_mem g hg')
      · intro hdone
        obtain ⟨hbefore, hsame, hdisjoint⟩ := h.done hdone
        obtain ⟨hbefore, hunmodified⟩ := Bool.and_eq_true_iff.1 hbefore
        exact ⟨hbefore, hsame.trans (hadds.unmodified (by simpa using hunmodified)).2, hdisjoint⟩
  | false =>
      have hvisit : r.visit g = { r with keep := r.keep ++ [g] } := by
        rw [Absorbing.visit, if_neg (by simp [hintersects])]
      rw [hvisit] at h
      refine ⟨taken, g :: kept, ?_, ?_, h.exprs, h.factor, ?_, h.modified⟩
      · rw [h.keep, List.append_assoc, List.singleton_append]
      · exact List.perm_middle.trans (h.perm.cons g)
      · intro hdone
        obtain ⟨hbefore, hsame, hdisjoint⟩ := h.done hdone
        refine ⟨hbefore, hsame, List.forall_mem_cons.2 ⟨?_, hdisjoint⟩⟩
        rw [hsame]
        exact disjoint_of_not_intersects hintersects

theorem absorbed_foldl (r : Absorbing ω) (others : List (IndependentElementSet ω)) :
    ∃ taken kept, Absorbed r others (others.foldl Absorbing.visit r) taken kept := by
  induction others generalizing r with
  | nil =>
      refine ⟨[], [], (List.append_nil _).symm, .refl _, (List.append_nil _).symm,
        fun h _ => h, fun h => ⟨h, rfl, fun g hg => absurd hg List.not_mem_nil⟩, ?_⟩
      intro hdone hnot
      rw [List.foldl_nil, hdone] at hnot
      cases hnot
  | cons g others ih =>
      obtain ⟨taken, kept, h⟩ := ih (r.visit g)
      exact h.cons g

/-- What a pass makes of the factors. -/
structure Passed (doneLoop : Bool) (fs : List (IndependentElementSet ω)) (doneLoop' : Bool)
    (fs' : List (IndependentElementSet ω)) : Prop where
  exprs : ∀ e, (∃ f ∈ fs', e ∈ f.exprs) ↔ ∃ f ∈ fs, e ∈ f.exprs
  factor : ∀ {sem : ω → List Nat → Nat} {allowed : Set (Array × Nat)}
    {needed : Expr ω → Set (Array × Nat)},
    (∀ f ∈ fs, Factor sem allowed needed f) → ∀ f ∈ fs', Factor sem allowed needed f
  length : fs'.length ≤ fs.length
  less : doneLoop = true → doneLoop' = false → fs'.length < fs.length
  done : doneLoop' = true → doneLoop = true ∧
    fs'.Pairwise (fun f g => Disjoint f.toSet g.toSet) ∧ ∀ f ∈ fs', ∃ g ∈ fs, f.toSet = g.toSet

theorem Passed.nil (doneLoop : Bool) : Passed (ω := ω) doneLoop [] doneLoop [] := by
  refine ⟨fun e => .rfl, fun h => h, Nat.le_refl _, ?_, fun h => ⟨h, .nil, fun f hf => ?_⟩⟩
  · intro h h'
    rw [h] at h'
    cases h'
  · cases hf

/-- A pass continues with the factors that the first of them leaves. -/
theorem Passed.cons {doneLoop doneLoop' : Bool} {current : IndependentElementSet ω}
    {r : Absorbing ω} {fs fs' taken kept : List (IndependentElementSet ω)}
    (h : Absorbed ⟨current, doneLoop, []⟩ fs r taken kept)
    (hrest : Passed r.doneLoop kept doneLoop' fs') :
    Passed doneLoop (current :: fs) doneLoop' (r.current :: fs') := by
  have hlength : taken.length + kept.length = fs.length := by
    rw [← List.length_append]
    exact h.perm.length_eq
  have hmem : ∀ g, g ∈ fs ↔ g ∈ taken ∨ g ∈ kept := fun g =>
    h.perm.mem_iff.symm.trans List.mem_append
  refine ⟨fun e => ?_, fun hall f hf => ?_, ?_, fun hdone hdone' => ?_, fun hdone => ?_⟩
  · simp only [List.exists_mem_cons_iff, hrest.exprs, h.exprs, List.mem_append, List.mem_flatMap]
    constructor
    · rintro ((he | ⟨g, hg, he⟩) | ⟨g, hg, he⟩)
      · exact .inl he
      · exact .inr ⟨g, (hmem g).2 (.inl hg), he⟩
      · exact .inr ⟨g, (hmem g).2 (.inr hg), he⟩
    · rintro (he | ⟨g, hg, he⟩)
      · exact .inl (.inl he)
      · rcases (hmem g).1 hg with hg | hg
        · exact .inl (.inr ⟨g, hg, he⟩)
        · exact .inr ⟨g, hg, he⟩
  · have hall' : ∀ g ∈ fs, Factor _ _ _ g := fun g hg => hall g (List.mem_cons_of_mem _ hg)
    rcases List.mem_cons.1 hf with rfl | hf
    · exact h.factor (hall _ List.mem_cons_self) fun g hg => hall' g ((hmem g).2 (.inl hg))
    · exact hrest.factor (fun g hg => hall' g ((hmem g).2 (.inr hg))) f hf
  · have hle := hrest.length
    rw [List.length_cons, List.length_cons]
    omega
  · have hle := hrest.length
    rw [List.length_cons, List.length_cons]
    cases hmiddle : r.doneLoop with
    | true =>
        have hless := hrest.less hmiddle hdone'
        omega
    | false =>
        have hpos := List.length_pos_iff.2 (h.modified hdone hmiddle)
        omega
  · obtain ⟨hmiddle, hpairwise, hsets⟩ := hrest.done hdone
    obtain ⟨hbefore, hsame, hdisjoint⟩ := h.done hmiddle
    refine ⟨hbefore, List.pairwise_cons.2 ⟨fun f hf => ?_, hpairwise⟩, fun f hf => ?_⟩
    · obtain ⟨g, hg, hfg⟩ := hsets f hf
      rw [hfg]
      exact hdisjoint g hg
    · rcases List.mem_cons.1 hf with rfl | hf
      · exact ⟨current, List.mem_cons_self, hsame⟩
      · obtain ⟨g, hg, hfg⟩ := hsets f hf
        exact ⟨g, List.mem_cons_of_mem _ ((hmem g).2 (.inr hg)), hfg⟩

theorem pass_passed {fuel : Nat} {fs : List (IndependentElementSet ω)} (hfuel : fs.length ≤ fuel)
    (doneLoop : Bool) : Passed doneLoop fs (pass fuel doneLoop fs).1 (pass fuel doneLoop fs).2 := by
  induction fuel generalizing fs doneLoop with
  | zero =>
      cases List.eq_nil_of_length_eq_zero (Nat.le_zero.1 hfuel)
      exact .nil doneLoop
  | succ fuel ih =>
      cases fs with
      | nil => exact .nil doneLoop
      | cons current fs =>
          obtain ⟨taken, kept, h⟩ := absorbed_foldl ⟨current, doneLoop, []⟩ fs
          have hkeep : (fs.foldl Absorbing.visit ⟨current, doneLoop, []⟩).keep = kept := h.keep
          have hlength := h.perm.length_eq
          rw [List.length_append] at hlength
          rw [List.length_cons] at hfuel
          have hfuel' : kept.length ≤ fuel := by omega
          have hrest := ih hfuel'
            (fs.foldl Absorbing.visit ⟨current, doneLoop, []⟩).doneLoop
          rw [← hkeep] at hrest
          exact (Passed.cons (hkeep ▸ h) hrest)

/-- The loop ends with factors of the same constraints that share no elements. -/
theorem factorLoop_spec {fuel : Nat} {fs : List (IndependentElementSet ω)}
    (hfuel : fs.length < fuel) :
    (∀ e, (∃ f ∈ factorLoop fuel fs, e ∈ f.exprs) ↔ ∃ f ∈ fs, e ∈ f.exprs) ∧
      (∀ {sem : ω → List Nat → Nat} {allowed : Set (Array × Nat)}
    {needed : Expr ω → Set (Array × Nat)},
        (∀ f ∈ fs, Factor sem allowed needed f) → ∀ f ∈ factorLoop fuel fs, Factor sem allowed needed f) ∧
      (factorLoop fuel fs).Pairwise fun f g => Disjoint f.toSet g.toSet := by
  induction fuel generalizing fs with
  | zero => exact absurd hfuel (Nat.not_lt_zero _)
  | succ fuel ih =>
      have hpass := pass_passed (Nat.le_refl fs.length) true
      unfold factorLoop
      dsimp only
      split
      · rename_i hdone
        exact ⟨hpass.exprs, hpass.factor, (hpass.done hdone).2.1⟩
      · rename_i hdone
        have hless := hpass.less rfl (Bool.eq_false_of_not_eq_true hdone)
        have hfuel' : (pass fs.length true fs).2.length < fuel := by omega
        obtain ⟨hexprs, hfactor, hpairwise⟩ := ih hfuel'
        exact ⟨fun e => (hexprs e).trans (hpass.exprs e),
          fun hall => hfactor (hpass.factor hall), hpairwise⟩

end IndependentElementSet

end Klc3.Klee
