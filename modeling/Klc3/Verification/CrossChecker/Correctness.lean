import Klc3.Model.CrossChecker
import Klc3.Verification.Issues.Raise
import Klc3.Verification.Solver.Exact

/-!
# Exactness of the comparison

With an exact solver, `compare` flags a check list exactly when some of its items can
differ under the constraints accumulated so far, and narrows the constraints to
inputs on which every flagged list does differ.
-/

namespace Klc3

/-! ## Narrowing -/

/-- A check for a difference `D` that starts from `cs`, answers `differs` and leaves
the constraints `cs'`. -/
structure Narrows (D : Assignment → Prop) (cs : ConstraintSet) (differs : Bool)
    (cs' : ConstraintSet) : Prop where
  satisfiable : cs'.Satisfiable
  implies : ∀ a, cs'.Sat a → cs.Sat a
  differs_iff : differs = true ↔ ∃ a, cs.Sat a ∧ D a
  everywhere : differs = true → ∀ a, cs'.Sat a → D a
  same : differs = false → cs' = cs

namespace Narrows

variable {D D' : Assignment → Prop} {cs cs' cs'' : ConstraintSet} {differs differs' : Bool}

theorem none (hcs : cs.Satisfiable) (hD : ∀ a, ¬ D a) : Narrows D cs false cs :=
  ⟨hcs, fun _ h => h, by simp [hD], by simp, fun _ => rfl⟩

theorem all (hcs : cs.Satisfiable) (hD : ∀ a, D a) : Narrows D cs true cs :=
  ⟨hcs, fun _ h => h, by simpa [hD, ConstraintSet.Satisfiable] using hcs, fun _ a _ => hD a,
    fun _ => rfl⟩

theorem congr (h : Narrows D cs differs cs') (hD : ∀ a, D' a ↔ D a) : Narrows D' cs differs cs' := by
  rw [show D' = D from funext fun a => propext (hD a)]
  exact h

/-- Two checks, one after the other, both made. -/
theorem or (h : Narrows D cs differs cs') (h' : Narrows D' cs' differs' cs'') :
    Narrows (fun a => D a ∨ D' a) cs (differs || differs') cs'' where
  satisfiable := h'.satisfiable
  implies a ha := h.implies a (h'.implies a ha)
  differs_iff := by
    constructor
    · intro heq
      rcases Bool.or_eq_true_iff.1 heq with heq | heq
      · obtain ⟨a, ha, hD⟩ := h.differs_iff.1 heq
        exact ⟨a, ha, .inl hD⟩
      · obtain ⟨a, ha, hD⟩ := h'.differs_iff.1 heq
        exact ⟨a, h.implies a ha, .inr hD⟩
    · rintro ⟨a, ha, hD⟩
      cases hfirst : differs with
      | true => rfl
      | false =>
          have heq := h.same hfirst
          rcases hD with hD | hD
          · rw [h.differs_iff.2 ⟨a, ha, hD⟩] at hfirst
            cases hfirst
          · rw [h'.differs_iff.2 ⟨a, heq ▸ ha, hD⟩, Bool.or_true]
  everywhere heq a ha := by
    rcases Bool.or_eq_true_iff.1 heq with heq | heq
    · exact .inl (h.everywhere heq a (h'.implies a ha))
    · exact .inr (h'.everywhere heq a ha)
  same heq := by
    obtain ⟨h1, h2⟩ := Bool.or_eq_false_iff.1 heq
    rw [h'.same h2, h.same h1]

end Narrows

/-! ## Items -/

/-- The value of an expression that may be null. -/
def evalOption (a : Assignment) (e : Option WordExpr) : Option Word :=
  e.map fun e => e.eval a

/-- The value of a cell of a state, if it is specified. -/
def State.cellValue (s : State) (a : Assignment) (addr : Nat) : Option (Option Word) :=
  (s.mem.read (BitVec.ofNat 16 addr)).map fun v => evalOption a v.e

/-- An item differs between two states under an assignment. -/
def ThingToCompare.Differs (gold test : State) (a : Assignment) : ThingToCompare → Prop
  | .output _ => gold.lc3Out.map (·.eval a) ≠ test.lc3Out.map (·.eval a)
  | .reg first last _ => ∃ r ∈ CrossChecker.rangeOf first last, ∃ h : r < 8,
      evalOption a (gold.reg ⟨r, h⟩) ≠ evalOption a (test.reg ⟨r, h⟩)
  | .lastInst _ =>
      gold.latestNonOSInst.1.map InstValue.addr ≠ test.latestNonOSInst.1.map InstValue.addr
  | .mem first last _ => ∃ addr ∈ CrossChecker.rangeOf first last,
      gold.cellValue a addr ≠ test.cellValue a addr

/-- An item that can be compared: registers are within `R0`-`R7`, and the cells are
specified in both states. -/
def ThingToCompare.Comparable (gold test : State) : ThingToCompare → Prop
  | .output _ => True
  | .reg _ last _ => last.toNat < 8
  | .lastInst _ => True
  | .mem first last _ => ∀ addr ∈ CrossChecker.rangeOf first last,
      (gold.mem.read (BitVec.ofNat 16 addr)).isSome ∧ (test.mem.read (BitVec.ofNat 16 addr)).isSome

namespace CrossChecker

variable {solver : Solver} (exact : solver.Exact) {cs cs' : ConstraintSet} {gold test : State}

include exact

theorem exprMustEq_narrows {x y : Option WordExpr} {eq : Bool} (hcs : cs.Satisfiable)
    (h : exprMustEq solver x y cs = .ok (eq, cs')) :
    Narrows (fun a => evalOption a x ≠ evalOption a y) cs (!eq) cs' := by
  unfold exprMustEq at h
  split at h
  · cases h
    exact .none hcs (by simp)
  · rename_i e e'
    have hdiff : ∀ a, evalOption a (some e) ≠ evalOption a (some e') ↔
        (ExprBuilder.eq e e').eval a = false := by
      simp [evalOption]
    refine .congr ?_ hdiff
    dsimp only at h
    split at h
    · rename_i hmay
      rw [Solver.mayBeFalse_iff exact] at hmay
      split at h
      · rename_i hmust
        rw [Solver.mustBeFalse_iff exact] at hmust
        cases h
        exact ⟨hcs, fun _ ha => ha, by simpa using hmay, fun _ => hmust, fun _ => rfl⟩
      · obtain ⟨cs₁, hadd, h⟩ := Except.bind_eq_ok_iff.1 h
        cases h
        have hsat := fun a => ConstraintSet.addConstraint_sat_iff (a := a) hadd
        simp only [BoolExpr.eval_createIsZero, Bool.not_eq_true'] at hsat
        refine ⟨?_, fun a ha => ((hsat a).1 ha).1, by simpa using hmay,
          fun _ a ha => ((hsat a).1 ha).2, by simp⟩
        obtain ⟨a, ha⟩ := hmay
        exact ⟨a, (hsat a).2 ha⟩
    · rename_i hmay
      rw [Solver.mayBeFalse_iff exact] at hmay
      cases h
      exact ⟨hcs, fun _ ha => ha, by simpa using hmay, by simp, fun _ => rfl⟩
  · rename_i hnone hsome
    cases h
    refine .all hcs fun a => ?_
    cases x with
    | none =>
        cases y with
        | none => exact absurd rfl (hnone rfl)
        | some e' => simp [evalOption]
    | some e =>
        cases y with
        | none => simp [evalOption]
        | some e' => exact absurd rfl (hsome e e' rfl)

theorem exprMustEq_isOk (x y : Option WordExpr) (cs : ConstraintSet) :
    ∃ r, exprMustEq solver x y cs = .ok r := by
  unfold exprMustEq
  split
  · exact ⟨_, rfl⟩
  · rename_i e e'
    dsimp only
    split
    · rename_i hmay
      rw [Solver.mayBeFalse_iff exact] at hmay
      split
      · exact ⟨_, rfl⟩
      · obtain ⟨a, ha, heval⟩ := hmay
        have hzero : (ExprBuilder.eq e e').createIsZero.eval a = true := by
          rw [BoolExpr.eval_createIsZero, heval, Bool.not_false]
        obtain ⟨cs', hadd⟩ := ConstraintSet.addConstraint_isOk ha hzero
        exact ⟨(false, cs'), by simp [hadd]⟩
    · exact ⟨_, rfl⟩
  · exact ⟨_, rfl⟩

theorem anyDiffers_narrows {pairs : List (Option WordExpr × Option WordExpr)} {differs : Bool}
    (hcs : cs.Satisfiable) (h : anyDiffers solver pairs cs = .ok (differs, cs')) :
    Narrows (fun a => ∃ p ∈ pairs, evalOption a p.1 ≠ evalOption a p.2) cs differs cs' := by
  induction pairs generalizing cs differs with
  | nil =>
      cases h
      exact .none hcs (by simp)
  | cons p rest ih =>
      obtain ⟨x, y⟩ := p
      obtain ⟨⟨eq, cs₁⟩, hfirst, h⟩ := Except.bind_eq_ok_iff.1 h
      obtain ⟨⟨others, cs₂⟩, hrest, h⟩ := Except.bind_eq_ok_iff.1 h
      cases h
      have hnarrow := exprMustEq_narrows exact hcs hfirst
      exact (hnarrow.or (ih hnarrow.satisfiable hrest)).congr (by simp)

theorem anyDiffers_isOk (pairs : List (Option WordExpr × Option WordExpr)) (cs : ConstraintSet) :
    ∃ r, anyDiffers solver pairs cs = .ok r := by
  induction pairs generalizing cs with
  | nil => exact ⟨_, rfl⟩
  | cons p rest ih =>
      obtain ⟨⟨eq, cs₁⟩, hfirst⟩ := exprMustEq_isOk exact p.1 p.2 cs
      obtain ⟨⟨others, cs₂⟩, hrest⟩ := ih cs₁
      exact ⟨(!eq || others, cs₂), by simp [anyDiffers, hfirst, hrest]⟩

omit exact in
private theorem map_eval_ne_iff {l l' : List WordExpr} (hlen : l.length = l'.length)
    (a : Assignment) :
    l.map (·.eval a) ≠ l'.map (·.eval a) ↔
      ∃ p ∈ (l.zip l').map fun p => (some p.1, some p.2),
        evalOption a p.1 ≠ evalOption a p.2 := by
  induction l generalizing l' with
  | nil => cases l' with
    | nil => simp
    | cons => simp at hlen
  | cons e l ih =>
      cases l' with
      | nil => simp at hlen
      | cons e' l' =>
          have ih := @ih l' (by simpa using hlen)
          simp only [List.map_cons, List.zip_cons_cons, List.mem_cons, ne_eq, List.cons.injEq,
            not_and_or, exists_eq_or_imp] at ih ⊢
          rw [ih]
          simp [evalOption]

theorem outputDiverge_narrows {differs : Bool} (hcs : cs.Satisfiable)
    (h : outputDiverge solver gold test cs = .ok (differs, cs')) :
    Narrows (fun a => gold.lc3Out.map (·.eval a) ≠ test.lc3Out.map (·.eval a)) cs differs cs' := by
  unfold outputDiverge at h
  split at h
  · rename_i hlen
    cases h
    refine .all hcs fun a heq => hlen ?_
    simpa using congrArg List.length heq
  · rename_i hlen
    exact (anyDiffers_narrows exact hcs h).congr fun a => map_eval_ne_iff (by simpa using hlen) a

theorem differentRegs_narrows {rs regs : List Nat} (hcs : cs.Satisfiable)
    (h : differentRegs solver gold test rs cs = .ok (regs, cs')) :
    Narrows (fun a => ∃ r ∈ rs, ∃ h : r < 8,
      evalOption a (gold.reg ⟨r, h⟩) ≠ evalOption a (test.reg ⟨r, h⟩)) cs (!regs.isEmpty) cs' := by
  induction rs generalizing cs regs with
  | nil =>
      cases h
      exact .none hcs (by simp)
  | cons r rest ih =>
      unfold differentRegs at h
      split at h
      · rename_i hr
        obtain ⟨⟨eq, cs₁⟩, hfirst, h⟩ := Except.bind_eq_ok_iff.1 h
        obtain ⟨⟨others, cs₂⟩, hrest, h⟩ := Except.bind_eq_ok_iff.1 h
        cases h
        have hnarrow := exprMustEq_narrows exact hcs hfirst
        have hflag : (!(if eq = true then others else r :: others).isEmpty) =
            (!eq || !others.isEmpty) := by
          cases eq <;> simp
        rw [hflag]
        refine (hnarrow.or (ih hnarrow.satisfiable hrest)).congr fun a => ?_
        simp only [List.mem_cons, exists_eq_or_imp, hr, exists_true_left]
        rw [ne_comm]
      · cases h

theorem differentRegs_isOk (gold test : State) {rs : List Nat} (hrs : ∀ r ∈ rs, r < 8) (cs : ConstraintSet) :
    ∃ r, differentRegs solver gold test rs cs = .ok r := by
  induction rs generalizing cs with
  | nil => exact ⟨_, rfl⟩
  | cons r rest ih =>
      have hr := hrs r (by simp)
      obtain ⟨⟨eq, cs₁⟩, hfirst⟩ := exprMustEq_isOk exact (test.reg ⟨r, hr⟩) (gold.reg ⟨r, hr⟩) cs
      obtain ⟨⟨others, cs₂⟩, hrest⟩ := ih (fun r hr => hrs r (List.mem_cons_of_mem _ hr)) cs₁
      exact ⟨(if eq then others else r :: others, cs₂), by simp [differentRegs, hr, hfirst, hrest]⟩

theorem compareMem_narrows {addrs : List Nat} {differs : Bool} (hcs : cs.Satisfiable)
    (h : compareMem solver gold test addrs cs = .ok (differs, cs')) :
    Narrows (fun a => ∃ addr ∈ addrs, gold.cellValue a addr ≠ test.cellValue a addr)
      cs differs cs' := by
  induction addrs generalizing cs differs with
  | nil =>
      cases h
      exact .none hcs (by simp)
  | cons addr rest ih =>
      unfold compareMem at h
      split at h
      · rename_i g t hg ht
        obtain ⟨⟨eq, cs₁⟩, hfirst, h⟩ := Except.bind_eq_ok_iff.1 h
        obtain ⟨⟨others, cs₂⟩, hrest, h⟩ := Except.bind_eq_ok_iff.1 h
        cases h
        have hnarrow := exprMustEq_narrows exact hcs hfirst
        refine (hnarrow.or (ih hnarrow.satisfiable hrest)).congr fun a => ?_
        simp [State.cellValue, hg, ht]
      · cases h

theorem compareMem_isOk {addrs : List Nat}
    (haddrs : ∀ addr ∈ addrs, (gold.mem.read (BitVec.ofNat 16 addr)).isSome ∧
      (test.mem.read (BitVec.ofNat 16 addr)).isSome) (cs : ConstraintSet) :
    ∃ r, compareMem solver gold test addrs cs = .ok r := by
  induction addrs generalizing cs with
  | nil => exact ⟨_, rfl⟩
  | cons addr rest ih =>
      obtain ⟨hg, ht⟩ := haddrs addr (by simp)
      obtain ⟨g, hg⟩ := Option.isSome_iff_exists.1 hg
      obtain ⟨t, ht⟩ := Option.isSome_iff_exists.1 ht
      obtain ⟨⟨eq, cs₁⟩, hfirst⟩ := exprMustEq_isOk exact g.e t.e cs
      obtain ⟨⟨others, cs₂⟩, hrest⟩ := ih (fun x hx => haddrs x (List.mem_cons_of_mem _ hx)) cs₁
      exact ⟨(!eq || others, cs₂), by simp [compareMem, hg, ht, hfirst, hrest]⟩

/-- An item of a check list fails exactly when it can differ. -/
theorem compareThing_narrows {thing : ThingToCompare} {fails : Bool} {note : String}
    (hcs : cs.Satisfiable) (h : compareThing solver gold test thing cs = .ok (fails, note, cs')) :
    Narrows (fun a => thing.Differs gold test a) cs fails cs' := by
  cases thing with
  | output =>
      obtain ⟨⟨differs, cs₁⟩, hdiverge, h⟩ := Except.bind_eq_ok_iff.1 h
      cases h
      exact outputDiverge_narrows exact hcs hdiverge
  | reg first last =>
      obtain ⟨⟨regs, cs₁⟩, hregs, h⟩ := Except.bind_eq_ok_iff.1 h
      have hnarrow := differentRegs_narrows exact hcs hregs
      dsimp only at h
      split at h
      · rename_i hempty
        cases h
        rw [hempty] at hnarrow
        exact hnarrow
      · rename_i hne
        cases h
        rw [Bool.not_eq_true] at hne
        rw [hne] at hnarrow
        exact hnarrow
  | lastInst dumpGold =>
      simp only [compareThing, compareLastInst] at h
      split at h
      · rename_i hne
        cases h
        exact .all hcs fun _ => hne
      · rename_i heq
        cases h
        exact .none hcs fun _ => heq
  | mem first last =>
      obtain ⟨⟨differs, cs₁⟩, hmem, h⟩ := Except.bind_eq_ok_iff.1 h
      cases h
      exact compareMem_narrows exact hcs hmem

theorem compareThing_isOk {thing : ThingToCompare} (hthing : thing.Comparable gold test)
    (cs : ConstraintSet) : ∃ r, compareThing solver gold test thing cs = .ok r := by
  cases thing with
  | output =>
      have hok : ∃ r, outputDiverge solver gold test cs = .ok r := by
        unfold outputDiverge
        split
        · exact ⟨_, rfl⟩
        · exact anyDiffers_isOk exact _ cs
      obtain ⟨⟨differs, cs'⟩, hdiverge⟩ := hok
      exact ⟨(differs, "", cs'), by simp [compareThing, hdiverge]⟩
  | reg first last =>
      have hlast : last.toNat < 8 := hthing
      have hrange : ∀ r ∈ rangeOf first last, r < 8 := by
        intro r hr
        rw [rangeOf, List.mem_range'_1] at hr
        omega
      obtain ⟨⟨regs, cs'⟩, hregs⟩ := differentRegs_isOk exact gold test hrange cs
      exact ⟨_, by simp [compareThing, compareRegisters, hregs]; rfl⟩
  | lastInst dumpGold => exact ⟨_, rfl⟩
  | mem first last =>
      obtain ⟨⟨differs, cs'⟩, hmem⟩ := compareMem_isOk exact hthing cs
      exact ⟨(differs, "", cs'), by simp [compareThing, hmem]⟩

/-! ## Check lists -/

/-- The items that fail are items of the list, and all of them differ from then on. -/
theorem failedThings_narrows {list failed : CheckList} {note : String} (hcs : cs.Satisfiable)
    (h : failedThings solver gold test list cs = .ok (failed, note, cs')) :
    Narrows (fun a => ∃ thing ∈ list, thing.Differs gold test a) cs (!failed.isEmpty) cs' ∧
    ∀ thing ∈ failed, thing ∈ list ∧ ∀ a, cs'.Sat a → thing.Differs gold test a := by
  induction list generalizing cs failed note with
  | nil =>
      cases h
      exact ⟨.none hcs (by simp), by simp⟩
  | cons thing rest ih =>
      obtain ⟨⟨fails, note₁, cs₁⟩, hfirst, h⟩ := Except.bind_eq_ok_iff.1 h
      obtain ⟨⟨others, notes, cs₂⟩, hrest, h⟩ := Except.bind_eq_ok_iff.1 h
      cases h
      have hnarrow := compareThing_narrows exact hcs hfirst
      obtain ⟨hothers, hmem⟩ := ih hnarrow.satisfiable hrest
      have hflag : (!(if fails = true then thing :: others else others).isEmpty) =
          (fails || !others.isEmpty) := by
        cases fails <;> simp
      constructor
      · rw [hflag]
        exact (hnarrow.or hothers).congr (by simp)
      · intro thing' hthing'
        split at hthing'
        · rename_i hfails
          rcases List.mem_cons.1 hthing' with rfl | hthing'
          · exact ⟨by simp, fun a ha => hnarrow.everywhere hfails a (hothers.implies a ha)⟩
          · exact ⟨List.mem_cons_of_mem _ (hmem thing' hthing').1, (hmem thing' hthing').2⟩
        · exact ⟨List.mem_cons_of_mem _ (hmem thing' hthing').1, (hmem thing' hthing').2⟩

theorem failedThings_isOk {list : CheckList} (hlist : ∀ thing ∈ list, thing.Comparable gold test)
    (cs : ConstraintSet) : ∃ r, failedThings solver gold test list cs = .ok r := by
  induction list generalizing cs with
  | nil => exact ⟨_, rfl⟩
  | cons thing rest ih =>
      obtain ⟨⟨fails, note, cs₁⟩, hfirst⟩ := compareThing_isOk exact (hlist thing (by simp)) cs
      obtain ⟨⟨failed, notes, cs₂⟩, hrest⟩ :=
        ih (fun thing hthing => hlist thing (List.mem_cons_of_mem _ hthing)) cs₁
      exact ⟨(if fails then thing :: failed else failed, note ++ notes, cs₂),
        by simp [failedThings, hfirst, hrest]⟩

omit exact

/-- What a comparison reads of the test state. -/
structure SameContent (s s' : State) : Prop where
  reg : s'.reg = s.reg
  mem : s'.mem = s.mem
  lc3Out : s'.lc3Out = s.lc3Out
  latestNonOSInst : s'.latestNonOSInst = s.latestNonOSInst

theorem SameContent.refl (s : State) : SameContent s s := ⟨rfl, rfl, rfl, rfl⟩

theorem SameContent.trans {s s' s'' : State} (h : SameContent s s') (h' : SameContent s' s'') :
    SameContent s s'' :=
  ⟨h'.reg.trans h.reg, h'.mem.trans h.mem, h'.lc3Out.trans h.lc3Out,
    h'.latestNonOSInst.trans h.latestNonOSInst⟩

variable (gold) in
theorem SameContent.differs_iff {s s' : State} (h : SameContent s s') (thing : ThingToCompare)
    (a : Assignment) : thing.Differs gold s' a ↔ thing.Differs gold s a := by
  cases thing <;>
    simp [ThingToCompare.Differs, State.cellValue, h.reg, h.mem, h.lc3Out, h.latestNonOSInst]

theorem SameContent.comparable_iff {s s' : State} (h : SameContent s s') (thing : ThingToCompare) :
    thing.Comparable gold s' ↔ thing.Comparable gold s := by
  cases thing <;> simp [ThingToCompare.Comparable, h.mem]

/-- A check list is flagged exactly when some of its items can differ. -/
structure ListSpec (gold : State) (list : IssueType × CheckList) (v v' : Verdict) : Prop where
  content : SameContent v.test.s v'.test.s
  issueLevel : v'.test.pkg.issueLevel = v.test.pkg.issueLevel
  narrows : ∃ flagged, v'.types = v.types ++ (if flagged then [list.1] else []) ∧
    Narrows (fun a => ∃ thing ∈ list.2, thing.Differs gold v.test.s a)
      v.finalConstraints flagged v'.finalConstraints

variable {c : CrossChecker} {m : Mach} {v v' : Verdict} {list : IssueType × CheckList}

theorem compareList_spec (exact : c.solver.Exact) (hv : v.finalConstraints.Satisfiable)
    (hlist : list.1 ≠ .noIssue) (h : c.compareList gold v list = .ok v') :
    ListSpec gold list v v' := by
  unfold compareList at h
  rw [if_neg hlist] at h
  obtain ⟨⟨failed, note, cs⟩, hfailed, h⟩ := Except.bind_eq_ok_iff.1 h
  obtain ⟨hnarrow, -⟩ := failedThings_narrows exact hv hfailed
  dsimp only at h
  split at h
  · rename_i hempty
    cases h
    rw [hempty] at hnarrow
    exact ⟨.refl _, rfl, false, by simp, hnarrow⟩
  · rename_i hne
    obtain ⟨m', hraise, h⟩ := Except.bind_eq_ok_iff.1 h
    cases h
    rw [Bool.not_eq_true] at hne
    rw [hne] at hnarrow
    obtain ⟨⟨trigger, hs⟩, hraises⟩ := Mach.newStateIssueWith_eq_ok hraise
    refine ⟨?_, hraises.issueLevel, true, rfl, hnarrow⟩
    rw [hs]
    exact ⟨rfl, rfl, rfl, rfl⟩

theorem compareList_isOk (exact : c.solver.Exact)
    (hlevel : (v.test.pkg.issueLevel list.1).isSome)
    (hitems : ∀ thing ∈ list.2, thing.Comparable gold v.test.s) :
    ∃ v', c.compareList gold v list = .ok v' := by
  unfold compareList
  split
  · exact ⟨_, rfl⟩
  · obtain ⟨⟨failed, note, cs⟩, hfailed⟩ := failedThings_isOk exact hitems v.finalConstraints
    obtain ⟨level, hlevel⟩ := Option.isSome_iff_exists.1 hlevel
    obtain ⟨m', hraise⟩ := Mach.newStateIssueWith_isOk none note
      (some ⟨failed, gold.uid⟩) hlevel
    simp only [hfailed, Except.ok_bind']
    split
    · exact ⟨_, rfl⟩
    · exact ⟨_, by rw [hraise]; rfl⟩

/-- The check lists of `lists`, compared one after the other. -/
structure ListsSpec (gold : State) (lists : List (IssueType × CheckList)) (v v' : Verdict)
    (flagged : List IssueType) : Prop where
  content : SameContent v.test.s v'.test.s
  types : v'.types = v.types ++ flagged
  sublist : flagged.Sublist (lists.map Prod.fst)
  narrows : Narrows (fun a => ∃ l ∈ lists, ∃ thing ∈ l.2, thing.Differs gold v.test.s a)
    v.finalConstraints (!flagged.isEmpty) v'.finalConstraints
  everywhere : ∀ l ∈ lists, l.1 ∈ flagged → ∀ a, v'.finalConstraints.Sat a →
    ∃ thing ∈ l.2, thing.Differs gold v.test.s a

variable {lists : List (IssueType × CheckList)}

theorem foldlM_compareList_spec (exact : c.solver.Exact) (hkeys : (lists.map Prod.fst).Nodup)
    (hno : ∀ l ∈ lists, l.1 ≠ .noIssue) (hv : v.finalConstraints.Satisfiable)
    (h : lists.foldlM (c.compareList gold) v = .ok v') :
    ∃ flagged, ListsSpec gold lists v v' flagged := by
  induction lists generalizing v with
  | nil =>
      cases h
      exact ⟨[], .refl _, by simp, by simp, .none hv (by simp), by simp⟩
  | cons l rest ih =>
      rw [List.foldlM_cons] at h
      obtain ⟨v₁, hfirst, h⟩ := Except.bind_eq_ok_iff.1 h
      rw [List.map_cons, List.nodup_cons] at hkeys
      have hspec := compareList_spec exact hv (hno l (by simp)) hfirst
      obtain ⟨here, htypes, hnarrow⟩ := hspec.narrows
      obtain ⟨others, hrest⟩ := ih hkeys.2 (fun l hl => hno l (List.mem_cons_of_mem _ hl))
        hnarrow.satisfiable h
      have hdiffers := fun thing a => hspec.content.differs_iff gold thing a
      have hfresh : l.1 ∉ others := fun hmem => hkeys.1 (hrest.sublist.subset hmem)
      refine ⟨(if here then [l.1] else []) ++ others, hspec.content.trans hrest.content, ?_, ?_, ?_, ?_⟩
      · rw [hrest.types, htypes, List.append_assoc]
      · cases here with
        | true => simpa using hrest.sublist
        | false => simpa using hrest.sublist.cons l.1
      · have hflag : (!((if here = true then [l.1] else []) ++ others).isEmpty) =
            (here || !others.isEmpty) := by
          cases here <;> simp
        rw [hflag]
        refine (hnarrow.or hrest.narrows).congr fun a => ?_
        simp only [List.mem_cons, exists_eq_or_imp, hdiffers]
      · intro l' hl' hmem a ha
        rcases List.mem_cons.1 hl' with rfl | hl'
        · rcases List.mem_append.1 hmem with hmem | hmem
          · cases here with
            | true => exact hnarrow.everywhere rfl a (hrest.narrows.implies a ha)
            | false => simp at hmem
          · exact absurd hmem hfresh
        · have hne : l'.1 ≠ l.1 := fun heq => hkeys.1 (heq ▸ List.mem_map_of_mem hl')
          have hother : l'.1 ∈ others := by
            rcases List.mem_append.1 hmem with hmem | hmem
            · cases here with
              | true => exact absurd (List.mem_singleton.1 hmem) hne
              | false => simp at hmem
            · exact hmem
          obtain ⟨thing, hthing, hD⟩ := hrest.everywhere l' hl' hother a ha
          exact ⟨thing, hthing, (hdiffers thing a).1 hD⟩

theorem foldlM_compareList_isOk (exact : c.solver.Exact)
    (hno : ∀ l ∈ lists, l.1 ≠ .noIssue) (hv : v.finalConstraints.Satisfiable)
    (hlevel : ∀ l ∈ lists, (v.test.pkg.issueLevel l.1).isSome)
    (hitems : ∀ l ∈ lists, ∀ thing ∈ l.2, thing.Comparable gold v.test.s) :
    ∃ v', lists.foldlM (c.compareList gold) v = .ok v' := by
  induction lists generalizing v with
  | nil => exact ⟨_, rfl⟩
  | cons l rest ih =>
      obtain ⟨v₁, hfirst⟩ := compareList_isOk exact (hlevel l (by simp)) (hitems l (by simp))
      have hspec := compareList_spec exact hv (hno l (by simp)) hfirst
      obtain ⟨here, -, hnarrow⟩ := hspec.narrows
      obtain ⟨v', hrest⟩ := ih (fun l hl => hno l (List.mem_cons_of_mem _ hl)) hnarrow.satisfiable
        (fun l hl => by rw [hspec.issueLevel]; exact hlevel l (List.mem_cons_of_mem _ hl))
        (fun l hl thing hthing => (hspec.content.comparable_iff thing).2
          (hitems l (List.mem_cons_of_mem _ hl) thing hthing))
      exact ⟨v', by rw [List.foldlM_cons, hfirst]; exact hrest⟩

/-- What `compare` returns and leaves behind, for check lists that can be compared. -/
structure CompareSpec (c : CrossChecker) (gold : State) (test : Mach) (cs : ConstraintSet)
    (v : Verdict) : Prop where
  flagged : ∀ before type items after, c.checkLists = before ++ (type, items) :: after →
    ∃ v₀, { c with checkLists := before }.compare gold test cs = .ok v₀ ∧
      (type ∈ v.types ↔
        ∃ a, v₀.finalConstraints.Sat a ∧ ∃ thing ∈ items, thing.Differs gold test.s a)
  types_nil : v.types = [] ↔
    ∀ a, cs.Sat a → ∀ l ∈ c.checkLists, ∀ thing ∈ l.2, ¬ thing.Differs gold test.s a
  unchanged : v.types = [] → v.finalConstraints = cs
  satisfiable : v.finalConstraints.Satisfiable
  implies : ∀ a, v.finalConstraints.Sat a → cs.Sat a
  everywhere : ∀ l ∈ c.checkLists, l.1 ∈ v.types → ∀ a, v.finalConstraints.Sat a →
    ∃ thing ∈ l.2, thing.Differs gold test.s a

/-- `compare` is exact on a pair of paths. The keys of the check lists are those of a
map, and the loader never registers an item under `NO_ISSUE`. -/
theorem compare_exact {c : CrossChecker} {gold : State} {test : Mach} {cs : ConstraintSet}
    (exact : c.solver.Exact) (hkeys : (c.checkLists.map Prod.fst).Nodup)
    (hno : ∀ l ∈ c.checkLists, l.1 ≠ .noIssue)
    (hlevel : ∀ l ∈ c.checkLists, (test.pkg.issueLevel l.1).isSome)
    (hitems : ∀ l ∈ c.checkLists, ∀ thing ∈ l.2, thing.Comparable gold test.s)
    (hcs : cs.Satisfiable) :
    ∃ v, c.compare gold test cs = .ok v ∧ CompareSpec c gold test cs v := by
  obtain ⟨v, hv⟩ := foldlM_compareList_isOk (v := ⟨test, gold.triggerNewIssue, cs, []⟩) exact hno
    hcs hlevel hitems
  obtain ⟨flagged, hspec⟩ := foldlM_compareList_spec exact hkeys hno hcs hv
  have htypes : v.types = flagged := by simpa using hspec.types
  have hempty : v.types = [] ↔ (!flagged.isEmpty) = false := by simp [htypes]
  refine ⟨v, hv, ?_, ?_, ?_, hspec.narrows.satisfiable, hspec.narrows.implies, ?_⟩
  · intro before type items after hlists
    rw [hlists, List.foldlM_append] at hv
    rw [hlists] at hkeys hno
    obtain ⟨v₀, hbefore, hv⟩ := Except.bind_eq_ok_iff.1 hv
    rw [List.foldlM_cons] at hv
    obtain ⟨v₁, hlist, hafter⟩ := Except.bind_eq_ok_iff.1 hv
    refine ⟨v₀, hbefore, ?_⟩
    -- the type is no other list's key, so it can only come from this list
    rw [List.map_append, List.map_cons, List.nodup_append, List.nodup_cons] at hkeys
    obtain ⟨hkeys₀, ⟨hfresh₂, hkeys₂⟩, hfresh₀⟩ := hkeys
    obtain ⟨flagged₀, hspec₀⟩ := foldlM_compareList_spec exact hkeys₀
      (fun l hl => hno l (by simp [hl])) hcs hbefore
    have hspec₁ := compareList_spec exact hspec₀.narrows.satisfiable
      (hno (type, items) (by simp)) hlist
    obtain ⟨here, htypes₁, hnarrow⟩ := hspec₁.narrows
    obtain ⟨flagged₂, hspec₂⟩ := foldlM_compareList_spec exact hkeys₂
      (fun l hl => hno l (by simp [hl])) hnarrow.satisfiable hafter
    have hnot₀ : type ∉ flagged₀ := fun hmem =>
      hfresh₀ type (hspec₀.sublist.subset hmem) type (by simp) rfl
    have hnot₂ : type ∉ flagged₂ := fun hmem => hfresh₂ (hspec₂.sublist.subset hmem)
    have hhere : type ∈ v.types ↔ here = true := by
      rw [hspec₂.types, htypes₁, hspec₀.types]
      cases here <;> simp [hnot₀, hnot₂]
    rw [hhere, hnarrow.differs_iff]
    simp only [hspec₀.content.differs_iff]
  · rw [hempty, ← Bool.not_eq_true, hspec.narrows.differs_iff]
    push Not
    rfl
  · intro hnil
    exact hspec.narrows.same (hempty.1 hnil)
  · rw [htypes]
    exact hspec.everywhere

/-- The input of the programs that are compared below. -/
def comparedInput : WordExpr := .read ⟨"INPUT", 2⟩ 0

/-- A state with its registers initialized and two cells of data. -/
def comparedState (output first cell : WordExpr) : State :=
  { State.init 0 (fun addr =>
      if addr = 0x4000 then some (.data ⟨some cell, false, false⟩)
      else if addr = 0x4001 then some (.data ⟨some (.const 7), false, false⟩)
      else none) 0x3000 with
    lc3Out := [output]
    reg := fun r => some (if r = 1 then first else .read ⟨"INPUT", 2⟩ 1) }

/-- A gold program that prints an `A` where the test program prints its input. The output,
a register and a cell of memory may differ. -/
theorem compare_exact_input :
    let c : CrossChecker := ⟨.ideal, registerThingToCompare (.userDefined 0) (.mem 0x4000 0x4001 true)
      (registerThingToCompare (.userDefined 0) (.lastInst false)
        (registerThingToCompare (.userDefined 0) (.reg 0 7 true) defaultCheckLists))⟩
    let gold := comparedState (.const 0x41) (.const 0x41) comparedInput
    let test : Mach := ⟨comparedState comparedInput comparedInput (.const 9),
      (IssuePackage.empty.registerIssue "WRONG_REGISTERS" .warning).1⟩
    let cs : ConstraintSet := [.ule comparedInput (.const 0x7F)]
    ∃ v, c.compare gold test cs = .ok v ∧ CompareSpec c gold test cs v ∧
      .errIncorrectOutput ∈ v.types ∧
      ∀ a, v.finalConstraints.Sat a → comparedInput.eval a ≠ 0x41 := by
  intro c gold test cs
  have hlists : c.checkLists = [] ++ (.errIncorrectOutput, [.output true]) ::
      [(.userDefined 0, [.reg 0 7 true, .lastInst false, .mem 0x4000 0x4001 true])] := rfl
  have hzero : cs.Sat fun _ _ => 0 := by
    intro e he
    obtain rfl := List.mem_singleton.1 he
    decide
  have hitems : ∀ l ∈ c.checkLists, ∀ thing ∈ l.2, thing.Comparable gold test.s := by
    intro l hl thing hthing
    rw [hlists] at hl
    simp only [List.nil_append, List.mem_cons, List.not_mem_nil, or_false] at hl
    rcases hl with rfl | rfl
    · obtain rfl := List.mem_singleton.1 hthing
      trivial
    · simp only [List.mem_cons, List.not_mem_nil, or_false] at hthing
      rcases hthing with rfl | rfl | rfl
      · exact (by decide : (7 : Word).toNat < 8)
      · trivial
      · intro addr haddr
        have haddr : addr = 0x4000 ∨ addr = 0x4001 := by
          have hrange : addr ∈ List.range' 0x4000 2 := haddr
          rw [List.mem_range'_1] at hrange
          omega
        rcases haddr with rfl | rfl <;> exact ⟨rfl, rfl⟩
  obtain ⟨v, hv, hspec⟩ : ∃ v, c.compare gold test cs = .ok v ∧ CompareSpec c gold test cs v :=
    compare_exact Solver.ideal_exact (by decide) (by decide) (by decide) hitems ⟨_, hzero⟩
  have hflagged : .errIncorrectOutput ∈ v.types := by
    obtain ⟨v₀, hv₀, hiff⟩ := hspec.flagged _ _ _ _ hlists
    cases hv₀
    refine hiff.2 ⟨_, hzero, .output true, List.mem_singleton.2 rfl, ?_⟩
    change [(0x41 : Word)] ≠ [0]
    decide
  refine ⟨v, hv, hspec, hflagged, fun a ha hinput => ?_⟩
  obtain ⟨thing, hthing, hdiffers⟩ :=
    hspec.everywhere (.errIncorrectOutput, [.output true]) (by rw [hlists]; simp) hflagged a ha
  obtain rfl := List.mem_singleton.1 hthing
  apply hdiffers
  change [(0x41 : Word)] = [comparedInput.eval a]
  rw [hinput]

end CrossChecker

end Klc3
