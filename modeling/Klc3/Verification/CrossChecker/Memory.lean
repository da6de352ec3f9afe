import Klc3.Verification.CrossChecker.Correctness

/-!
# The comparison of memory

`compareMem` dereferences what `MemoryManager::read` returns, so it completes exactly on ranges
in which every cell has a value in both states. There it tells the cells that differ.
-/

namespace Klc3

/-- The value of a cell, `none` when it is unspecified: without a value in memory, or with one
that is null. -/
def State.cellContent (s : State) (a : Assignment) (addr : Nat) : Option Word :=
  ((s.mem.read (BitVec.ofNat 16 addr)).bind MemValue.e).map (·.eval a)

/-- Both states have a value at an address. -/
def HasCells (gold test : State) (addr : Nat) : Prop :=
  (gold.mem.read (BitVec.ofNat 16 addr)).isSome ∧ (test.mem.read (BitVec.ofNat 16 addr)).isSome

namespace CrossChecker

variable {solver : Solver} {cs cs' : ConstraintSet} {gold test : State} {addrs : List Nat}
  {differs : Bool}

/-- What a comparison of cells is to answer. Under the constraints that it leaves, the cells
in `flagged` differ and all others agree. -/
structure MemSpec (gold test : State) (addrs : List Nat) (cs : ConstraintSet) (differs : Bool)
    (cs' : ConstraintSet) (flagged : List Nat) : Prop where
  agree : differs = false ↔
    ∀ a, cs.Sat a → ∀ addr ∈ addrs, gold.cellContent a addr = test.cellContent a addr
  satisfiable : cs'.Satisfiable
  implies : ∀ a, cs'.Sat a → cs.Sat a
  sublist : flagged.Sublist addrs
  flags : differs = true ↔ flagged ≠ []
  differ : ∀ a, cs'.Sat a → ∀ addr ∈ addrs,
    (addr ∈ flagged ↔ gold.cellContent a addr ≠ test.cellContent a addr)

theorem cellValue_eq_iff {a : Assignment} {addr : Nat} (h : HasCells gold test addr) :
    gold.cellValue a addr = test.cellValue a addr ↔
      gold.cellContent a addr = test.cellContent a addr := by
  obtain ⟨hg, ht⟩ := h
  obtain ⟨g, hg⟩ := Option.isSome_iff_exists.1 hg
  obtain ⟨t, ht⟩ := Option.isSome_iff_exists.1 ht
  simp [State.cellValue, State.cellContent, evalOption, hg, ht]

/-- A cell without a value stops the comparison. -/
theorem hasCells_of_compareMem (h : compareMem solver gold test addrs cs = .ok (differs, cs')) :
    ∀ addr ∈ addrs, HasCells gold test addr := by
  induction addrs generalizing cs differs with
  | nil => simp
  | cons addr rest ih =>
    unfold compareMem at h
    split at h
    · rename_i g t hg ht
      obtain ⟨⟨eq, cs₁⟩, hfirst, h⟩ := Except.bind_eq_ok_iff.1 h
      obtain ⟨⟨others, cs₂⟩, hrest, h⟩ := Except.bind_eq_ok_iff.1 h
      cases h
      refine List.forall_mem_cons.2 ⟨?_, ih hrest⟩
      exact ⟨by rw [hg]; rfl, by rw [ht]; rfl⟩
    · cases h

variable (exact : solver.Exact)
include exact

/-- The cells that a comparison flags. -/
theorem compareMem_flagged (hcs : cs.Satisfiable)
    (h : compareMem solver gold test addrs cs = .ok (differs, cs')) :
    ∃ flagged : List Nat, flagged.Sublist addrs ∧ (differs = true ↔ flagged ≠ []) ∧
      ∀ a, cs'.Sat a → ∀ addr ∈ addrs,
        (addr ∈ flagged ↔ gold.cellValue a addr ≠ test.cellValue a addr) := by
  induction addrs generalizing cs differs with
  | nil =>
    cases h
    exact ⟨[], .slnil, by simp, by simp⟩
  | cons addr rest ih =>
    unfold compareMem at h
    split at h
    · rename_i g t hg ht
      obtain ⟨⟨eq, cs₁⟩, hfirst, h⟩ := Except.bind_eq_ok_iff.1 h
      obtain ⟨⟨others, cs₂⟩, hrest, h⟩ := Except.bind_eq_ok_iff.1 h
      cases h
      have hnarrow : Narrows (fun a => gold.cellValue a addr ≠ test.cellValue a addr) cs (!eq)
          cs₁ := by
        refine (exprMustEq_narrows exact hcs hfirst).congr fun a => ?_
        simp [State.cellValue, hg, ht]
      obtain ⟨flagged, hsublist, hflags, hdiffer⟩ := ih hnarrow.satisfiable hrest
      have himplies := (compareMem_narrows exact hnarrow.satisfiable hrest).implies
      cases eq with
      | true =>
        refine ⟨flagged, hsublist.cons addr, by simpa using hflags, fun a ha => ?_⟩
        have hsame : ¬gold.cellValue a addr ≠ test.cellValue a addr := fun hne =>
          absurd (hnarrow.differs_iff.2 ⟨a, hnarrow.implies a (himplies a ha), hne⟩) (by simp)
        refine List.forall_mem_cons.2 ⟨?_, hdiffer a ha⟩
        refine iff_of_false (fun hmem => hsame ?_) hsame
        exact (hdiffer a ha addr (hsublist.subset hmem)).1 hmem
      | false =>
        refine ⟨addr :: flagged, hsublist.cons_cons addr, by simp, fun a ha => ?_⟩
        have hne : gold.cellValue a addr ≠ test.cellValue a addr :=
          hnarrow.everywhere rfl a (himplies a ha)
        refine List.forall_mem_cons.2 ⟨iff_of_true List.mem_cons_self hne, fun other hother => ?_⟩
        rw [List.mem_cons, hdiffer a ha other hother]
        constructor
        · rintro (rfl | hdiffers)
          · exact hne
          · exact hdiffers
        · exact .inr
    · cases h

theorem compareMem_spec (hcs : cs.Satisfiable)
    (h : compareMem solver gold test addrs cs = .ok (differs, cs')) :
    ∃ flagged, MemSpec gold test addrs cs differs cs' flagged := by
  have hcells := hasCells_of_compareMem h
  have hnarrow := compareMem_narrows exact hcs h
  obtain ⟨flagged, hsublist, hflags, hdiffer⟩ := compareMem_flagged exact hcs h
  refine ⟨flagged, ?_, hnarrow.satisfiable, hnarrow.implies, hsublist, hflags, ?_⟩
  · rw [← Bool.not_eq_true, hnarrow.differs_iff]
    push Not
    constructor
    · intro hagree a ha addr haddr
      exact (cellValue_eq_iff (hcells addr haddr)).1 (hagree a ha addr haddr)
    · intro hagree a ha addr haddr
      exact (cellValue_eq_iff (hcells addr haddr)).2 (hagree a ha addr haddr)
  · intro a ha addr haddr
    rw [hdiffer a ha addr haddr, Ne, Ne, cellValue_eq_iff (hcells addr haddr)]

/-- A range of memory is compared, with the right answer, exactly when every cell in it has a
value in both states. -/
theorem compareMem_total_iff (hcs : cs.Satisfiable) (gold test : State) (first last : Word) :
    (∃ differs cs' flagged,
      compareMem solver gold test (rangeOf first last) cs = .ok (differs, cs') ∧
        MemSpec gold test (rangeOf first last) cs differs cs' flagged) ↔
      ∀ addr, first.toNat ≤ addr → addr ≤ last.toNat → HasCells gold test addr := by
  have hrange : ∀ addr, addr ∈ rangeOf first last ↔ first.toNat ≤ addr ∧ addr ≤ last.toNat := by
    intro addr
    rw [rangeOf, List.mem_range'_1]
    omega
  constructor
  · rintro ⟨differs, cs', flagged, h, -⟩ addr hfirst hlast
    exact hasCells_of_compareMem h addr ((hrange addr).2 ⟨hfirst, hlast⟩)
  · intro hcells
    obtain ⟨⟨differs, cs'⟩, h⟩ := compareMem_isOk exact
      (fun addr haddr => hcells addr ((hrange addr).1 haddr).1 ((hrange addr).1 haddr).2) cs
    obtain ⟨flagged, hspec⟩ := compareMem_spec exact hcs h
    exact ⟨differs, cs', flagged, h, hspec⟩

omit exact in
/-- Two halted states whose cells hold different constants, up to the end of memory. -/
theorem compareMem_constants :
    let gold : State := { State.init 0 (fun _ => some (DataValue.alloc (some (.const 5)))) 0x3000 with
      status := .halted }
    let test : State := { State.init 1 (fun _ => some (DataValue.alloc (some (.const 6)))) 0x3000 with
      status := .halted }
    ∃ differs cs' flagged,
      compareMem .ideal gold test (rangeOf 0xFFFD 0xFFFF) [] = .ok (differs, cs') ∧
        MemSpec gold test (rangeOf 0xFFFD 0xFFFF) [] differs cs' flagged := by
  refine (compareMem_total_iff Solver.ideal_exact ⟨fun _ _ => 0, ConstraintSet.sat_nil⟩ _ _ _ _).2 ?_
  intro addr _ _
  constructor <;>
  · unfold MemoryManager.read
    repeat' split
    all_goals rfl

omit exact in
/-- A cell that no program has specified. -/
theorem compareMem_unspecified :
    let s : State := { State.init 0 (fun _ => none) 0x3000 with status := .halted }
    compareMem .ideal s s (rangeOf 0x4000 0x4000) [] = .error .nullDeref ∧
      ¬∃ differs cs' flagged, compareMem .ideal s s (rangeOf 0x4000 0x4000) [] = .ok (differs, cs') ∧
        MemSpec s s (rangeOf 0x4000 0x4000) [] differs cs' flagged := by
  refine ⟨rfl, ?_⟩
  rintro ⟨differs, cs', flagged, h, -⟩
  cases h

end CrossChecker

end Klc3
