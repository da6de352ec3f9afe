import Klc3.Verification.Solver.Bytes
import Klc3.Verification.Solver.Factors

/-!
# Merged initial values

The bytes which the answer for a factor determines are never overwritten by another, so that
all answers together are one solution.
-/

namespace Klc3.Klee

variable {ω : Type}

/-! ## Copies of elements -/

variable {a b : Assignment} {array : Array} {temp bytes bytes' : List Byte}

/-- One element has the same bytes in both vectors. -/
def SameElement (array : Array) (i : Nat) (bytes bytes' : List Byte) : Prop :=
  ∀ k < array.wordSize, bytes[i * array.wordSize + k]? = bytes'[i * array.wordSize + k]?

theorem SameElement.hasElement {i : Nat} (h : SameElement array i bytes bytes')
    (helement : HasElement a array i bytes') : HasElement a array i bytes :=
  fun k hk => (h k hk).trans (helement k hk)

/-- The bytes of different elements are apart. -/
theorem apart {i j k : Nat} (hij : i ≠ j) (hk : k < array.wordSize) :
    j * array.wordSize + k < i * array.wordSize ∨
      i * array.wordSize + array.wordSize ≤ j * array.wordSize + k := by
  rcases Nat.lt_or_gt_of_ne hij with hlt | hlt
  · right
    have hle := Nat.mul_le_mul_right array.wordSize hlt
    rw [Nat.succ_mul] at hle
    omega
  · left
    have hle := Nat.mul_le_mul_right array.wordSize hlt
    rw [Nat.succ_mul] at hle
    omega

/-- The first bytes of an element are copied, and the other bytes stay. -/
structure Copied (array : Array) (temp bytes : List Byte) (index n : Nat) (bytes' : List Byte) :
    Prop where
  length : bytes'.length = bytes.length
  copied : ∀ k < n, bytes'[index * array.wordSize + k]? = temp[index * array.wordSize + k]?
  rest : ∀ pos, pos < index * array.wordSize ∨ index * array.wordSize + n ≤ pos →
    bytes'[pos]? = bytes[pos]?

theorem copyElement_copied (htemp : temp.length = array.size * array.wordSize)
    (hbytes : bytes.length = array.size * array.wordSize)
    (hsize : array.size * array.wordSize < 2 ^ 32) {index : Nat} (hindex : index < array.size) :
    ∃ bytes', copyElement array temp bytes index = .ok bytes' ∧
      Copied array temp bytes index array.wordSize bytes' := by
  apply Except.foldlM_range_isOk (P := Copied array temp bytes index)
  · exact ⟨rfl, fun k hk => absurd hk (Nat.not_lt_zero k), fun pos _ => rfl⟩
  · intro k hk bytes₁ h
    have hin := add_lt_mul_size hindex hk
    have hlength : bytes₁.length = array.size * array.wordSize := h.length.trans hbytes
    obtain ⟨byte, hbyte⟩ : ∃ byte, temp[index * array.wordSize + k]? = some byte :=
      ⟨_, List.getElem?_eq_getElem (htemp ▸ hin)⟩
    refine ⟨bytes₁.set (index * array.wordSize + k) byte, ?_, ?_, fun k' hk' => ?_,
      fun pos hpos => ?_⟩
    · simp only [unsigned_of_lt (hin.trans hsize), hbyte]
      exact if_pos (hlength ▸ hin)
    · rw [List.length_set, h.length]
    · rw [List.getElem?_set]
      by_cases hkk : k = k'
      · rw [if_pos (by rw [hkk]), if_pos (hlength ▸ hin), ← hkk, hbyte]
      · rw [if_neg (by omega)]
        exact h.copied k' (by omega)
    · rw [List.getElem?_set, if_neg (by omega)]
      exact h.rest pos (by omega)

theorem Copied.same {index : Nat} (h : Copied array temp bytes index array.wordSize bytes') :
    SameElement array index bytes' temp ∧ ∀ j ≠ index, SameElement array j bytes' bytes := by
  refine ⟨h.copied, fun j hj k hk => h.rest _ ?_⟩
  exact apart (Ne.symm hj) hk

/-- The elements with the given indices are copied, and the others stay. -/
theorem copyElements_spec (htemp : temp.length = array.size * array.wordSize)
    (hbytes : bytes.length = array.size * array.wordSize)
    (hsize : array.size * array.wordSize < 2 ^ 32) {indices : List Nat}
    (hindices : ∀ i ∈ indices, i < array.size) :
    ∃ bytes', indices.foldlM (copyElement array temp) bytes = .ok bytes' ∧
      bytes'.length = array.size * array.wordSize ∧
      (∀ i ∈ indices, SameElement array i bytes' temp) ∧
      ∀ j, j ∉ indices → SameElement array j bytes' bytes := by
  induction indices generalizing bytes with
  | nil =>
      exact ⟨bytes, rfl, hbytes, fun i hi => absurd hi List.not_mem_nil, fun j _ k _ => rfl⟩
  | cons index indices ih =>
      obtain ⟨bytes₁, hcopy, hcopied⟩ := copyElement_copied htemp hbytes hsize
        (hindices index List.mem_cons_self)
      obtain ⟨hthere, helse⟩ := hcopied.same
      obtain ⟨bytes', hrest, hlength, hsame, hother⟩ := ih (hcopied.length.trans hbytes)
        fun i hi => hindices i (List.mem_cons_of_mem index hi)
      refine ⟨bytes', ?_, hlength, fun i hi => ?_, fun j hj => ?_⟩
      · rw [List.foldlM_cons, hcopy, Except.ok_bind', hrest]
      · by_cases hmem : i ∈ indices
        · exact hsame i hmem
        · have heq : i = index := (List.mem_cons.1 hi).resolve_right hmem
          intro k hk
          rw [hother i hmem k hk, heq]
          exact hthere k hk
      · obtain ⟨hne, hmem⟩ := not_or.1 (mt List.mem_cons.2 hj)
        exact fun k hk => (hother j hmem k hk).trans (helse j hne k hk)

/-! ## Merging the answers -/

/-- Every array of `retMap` has its bytes, and those of the given elements are the ones of
the assignment. -/
structure Holds (b : Assignment) (s : Set (Array × Nat)) (retMap : RetMap) : Prop where
  length : ∀ array bytes, retMap.lookup array = some bytes →
    bytes.length = array.size * array.wordSize
  elements : ∀ p ∈ s, ∃ bytes, retMap.lookup p.1 = some bytes ∧ HasElement b p.1 p.2 bytes

/-- What merging the values of some arrays of a factor does. -/
structure Merged (f : IndependentElementSet ω) (a : Assignment) (retMap : RetMap)
    (arrays : List Array) (retMap' : RetMap) : Prop where
  other : ∀ array, array ∉ arrays → retMap'.lookup array = retMap.lookup array
  merged : ∀ array ∈ arrays, ∃ bytes', retMap'.lookup array = some bytes' ∧
    bytes'.length = array.size * array.wordSize ∧
    (∀ i ∈ f.indexesOf array, HasElement a array i bytes') ∧
    ∀ bytes, retMap.lookup array = some bytes → ∀ j, j ∉ f.indexesOf array →
      SameElement array j bytes' bytes

/-- The bytes of all elements of an array are less than `unsigned` counts. -/
def Array.Small (array : Array) : Prop :=
  (array.range = 8 ∨ array.range = 16) ∧ array.size * array.wordSize < 2 ^ 32

variable {f : IndependentElementSet ω} {retMap : RetMap}

theorem lookup_cons_self (array : Array) (bytes : List Byte) :
    List.lookup array ((array, bytes) :: retMap) = some bytes := by
  simp

theorem lookup_cons_of_ne {array' : Array} (h : array' ≠ array) (bytes : List Byte) :
    List.lookup array' ((array, bytes) :: retMap) = retMap.lookup array' := by
  have hne : (array' == array) = false := by simpa using h
  rw [List.lookup_cons, hne]

theorem mergeValues_merged (hlength : ∀ array bytes, retMap.lookup array = some bytes →
      bytes.length = array.size * array.wordSize) (hsmall : array.Small)
    (henc : Encodes a array temp) (hindices : ∀ i ∈ f.indexesOf array, i < array.size) :
    ∃ retMap', mergeValues f retMap (array, temp) = .ok retMap' ∧
      Merged f a retMap [array] retMap' := by
  unfold mergeValues
  dsimp only
  cases hlookup : retMap.lookup array with
  | none =>
      refine ⟨(array, temp) :: retMap, rfl, fun array' harray' => ?_, fun array' harray' => ?_⟩
      · exact lookup_cons_of_ne (by simpa using harray') temp
      · cases List.mem_singleton.1 harray'
        refine ⟨temp, lookup_cons_self _ _, henc.1, fun i hi => henc.hasElement (hindices i hi), ?_⟩
        intro bytes hbytes
        rw [hlookup] at hbytes
        cases hbytes
  | some bytes =>
      have hbytes := hlength array bytes hlookup
      obtain ⟨bytes', hcopy, hlength', hsame, hother⟩ :=
        copyElements_spec henc.1 hbytes hsmall.2 hindices
      dsimp only
      rw [if_pos (hbytes.trans henc.1.symm), hcopy]
      refine ⟨(array, bytes') :: retMap, rfl, fun array' harray' => ?_, fun array' harray' => ?_⟩
      · exact lookup_cons_of_ne (by simpa using harray') bytes'
      · cases List.mem_singleton.1 harray'
        refine ⟨bytes', lookup_cons_self _ _, hlength', fun i hi => ?_, fun bytes₁ hbytes₁ => ?_⟩
        · exact (hsame i hi).hasElement (henc.hasElement (hindices i hi))
        · rw [hlookup] at hbytes₁
          cases hbytes₁
          exact hother

theorem Merged.length {retMap' : RetMap} {arrays : List Array} (h : Merged f a retMap arrays retMap')
    (hlength : ∀ array bytes, retMap.lookup array = some bytes →
      bytes.length = array.size * array.wordSize) :
    ∀ array bytes, retMap'.lookup array = some bytes →
      bytes.length = array.size * array.wordSize := by
  intro array bytes hlookup
  by_cases harray : array ∈ arrays
  · obtain ⟨bytes', hlookup', hlength', -⟩ := h.merged array harray
    rw [hlookup'] at hlookup
    cases hlookup
    exact hlength'
  · rw [h.other array harray] at hlookup
    exact hlength array bytes hlookup

/-- The values of all arrays of a factor are merged, each once. -/
theorem mergeAll_merged {arrays : List Array} {temps : List (List Byte)}
    (hlength : ∀ array bytes, retMap.lookup array = some bytes →
      bytes.length = array.size * array.wordSize) (hnodup : arrays.Nodup)
    (hsmall : ∀ array ∈ arrays, array.Small)
    (hindices : ∀ array ∈ arrays, ∀ i ∈ f.indexesOf array, i < array.size)
    (hall : List.Forall₂ (Encodes a) arrays temps) :
    ∃ retMap', (arrays.zip temps).foldlM (mergeValues f) retMap = .ok retMap' ∧
      Merged f a retMap arrays retMap' := by
  induction hall generalizing retMap with
  | nil =>
      exact ⟨retMap, rfl, fun _ _ => rfl, fun array harray => absurd harray List.not_mem_nil⟩
  | @cons array temp arrays temps henc _ ih =>
      obtain ⟨hnew, hnodup⟩ := List.nodup_cons.1 hnodup
      obtain ⟨retMap₁, hfirst, hmerged⟩ := mergeValues_merged (f := f) hlength
        (hsmall array List.mem_cons_self) henc (hindices array List.mem_cons_self)
      obtain ⟨retMap', hrest, hmerged'⟩ := ih (hmerged.length hlength) hnodup
        (fun array' harray' => hsmall array' (List.mem_cons_of_mem array harray'))
        (fun array' harray' => hindices array' (List.mem_cons_of_mem array harray'))
      refine ⟨retMap', ?_, fun array' harray' => ?_, fun array' harray' => ?_⟩
      · rw [List.zip_cons_cons, List.foldlM_cons, hfirst, Except.ok_bind', hrest]
      · obtain ⟨hne, hmem⟩ := not_or.1 (mt List.mem_cons.2 harray')
        rw [hmerged'.other array' hmem]
        exact hmerged.other array' (by simpa using hne)
      · by_cases hmem : array' ∈ arrays
        · obtain ⟨bytes', hlookup, hlen, hhas, hkeep⟩ := hmerged'.merged array' hmem
          refine ⟨bytes', hlookup, hlen, hhas, fun bytes hbytes => hkeep bytes ?_⟩
          have hne : array' ≠ array := by
            rintro rfl
            exact hnew hmem
          rw [hmerged.other array' (by simpa using hne)]
          exact hbytes
        · have heq : array' = array := (List.mem_cons.1 harray').resolve_right hmem
          subst heq
          obtain ⟨bytes', hlookup, hlen, hhas, hkeep⟩ :=
            hmerged.merged array' (List.mem_singleton.2 rfl)
          exact ⟨bytes', (hmerged'.other array' hmem).trans hlookup, hlen, hhas, hkeep⟩

theorem HasElement.congr {i : Nat} (h : HasElement a array i bytes)
    (hab : a (array, i) = b (array, i)) : HasElement b array i bytes := by
  intro k hk
  rw [h k hk, counterExample, counterExample, hab]

open Classical in
/-- The elements of a factor join those that are settled. -/
theorem Holds.merge {s : Set (Array × Nat)} {retMap' : RetMap} {arrays : List Array}
    (h : Holds b s retMap) (hmerged : Merged f a retMap arrays retMap')
    (hdisjoint : Disjoint s f.toSet) (harrays : ∀ p ∈ f.elements, p.1 ∈ arrays)
    (hwhole : f.wholeObjects = []) : Holds (s.piecewise b a) (s ∪ f.toSet) retMap' := by
  have hmem : ∀ p, p ∈ f.toSet ↔ p.2 ∈ f.indexesOf p.1 := by
    intro p
    simp only [IndependentElementSet.toSet, hwhole, Set.mem_ofPred_eq, List.not_mem_nil, false_or,
      IndependentElementSet.indexesOf, List.mem_map, List.mem_filter, decide_eq_true_eq]
    constructor
    · intro hp
      exact ⟨p, ⟨hp, rfl⟩, rfl⟩
    · rintro ⟨q, ⟨hq, harray⟩, hindex⟩
      rwa [← Prod.ext harray hindex]
  refine ⟨hmerged.length h.length, fun p hp => ?_⟩
  by_cases hps : p ∈ s
  · obtain ⟨bytes, hlookup, helement⟩ := h.elements p hps
    have hsame : b (p.1, p.2) = s.piecewise b a (p.1, p.2) :=
      (Set.piecewise_eq_of_mem s b a hps).symm
    by_cases harray : p.1 ∈ arrays
    · obtain ⟨bytes', hlookup', -, -, hkeep⟩ := hmerged.merged p.1 harray
      have hnot : p.2 ∉ f.indexesOf p.1 := fun hin =>
        Set.disjoint_left.1 hdisjoint hps ((hmem p).2 hin)
      exact ⟨bytes', hlookup', ((hkeep bytes hlookup p.2 hnot).hasElement helement).congr hsame⟩
    · exact ⟨bytes, (hmerged.other p.1 harray).trans hlookup, helement.congr hsame⟩
  · have hpf := hp.resolve_left hps
    have harray : p.1 ∈ arrays := by
      apply harrays
      have hp' := hpf
      simpa [IndependentElementSet.toSet, hwhole] using hp'
    obtain ⟨bytes', hlookup', -, hhas, -⟩ := hmerged.merged p.1 harray
    refine ⟨bytes', hlookup', (hhas p.2 ((hmem p).1 hpf)).congr ?_⟩
    exact (Set.piecewise_eq_of_notMem s b a hps).symm

theorem mem_calculateArrayReferences {array : Array} :
    array ∈ f.calculateArrayReferences ↔
      (∃ i, (array, i) ∈ f.elements) ∨ array ∈ f.wholeObjects := by
  simp [IndependentElementSet.calculateArrayReferences]

theorem nodup_calculateArrayReferences : f.calculateArrayReferences.Nodup :=
  (List.mergeSort_perm _ _).nodup_iff.2 (List.nodup_dedup _)

section Answers

variable {sem : ω → List Nat → Nat} {needed : Expr ω → Set (Array × Nat)}

/-- The wrapped solver returns the bytes of a solution when there is one. -/
def InitialValues.Correct (sem : ω → List Nat → Nat) (solver : InitialValues ω) : Prop :=
  ∀ cs objects, (∃ a, Sat sem cs a) → ∃ a values, Sat sem cs a ∧
    solver cs objects = some values ∧ List.Forall₂ (Encodes a) objects values

/-- The elements that are read: constant indices below the size of an array. -/
def Readable : Set (Array × Nat) :=
  {p | p.2 < p.1.size ∧ p.1.Small}

open Classical in
/-- The answers for independent factors are merged into one solution of all. -/
theorem mergeFactors_spec {solver : InitialValues ω} (hsolver : solver.Correct sem)
    {factors : List (IndependentElementSet ω)} {s : Set (Array × Nat)} {done : List (Expr ω)}
    (hholds : Holds b s retMap) (hdone : Sat sem done b)
    (hdepends : ∀ e ∈ done, DependsOn (e.eval sem) s)
    (hfactors : ∀ f ∈ factors, IndependentElementSet.Factor sem Readable needed f)
    (hapart : factors.Pairwise fun f g => Disjoint f.toSet g.toSet)
    (hnew : ∀ f ∈ factors, Disjoint s f.toSet)
    {a₀ : Assignment} (hsat : ∀ f ∈ factors, Sat sem f.exprs a₀) :
    ∃ retMap' b' s', mergeFactors solver retMap factors = .ok (some retMap') ∧
      Holds b' s' retMap' ∧ Sat sem done b' ∧ (∀ f ∈ factors, Sat sem f.exprs b') ∧
      s ⊆ s' ∧ ∀ f ∈ factors, f.toSet ⊆ s' := by
  induction factors generalizing retMap b s done with
  | nil =>
      exact ⟨retMap, b, s, rfl, hholds, hdone, by simp, subset_rfl, by simp⟩
  | cons f factors ih =>
      have hf := hfactors f List.mem_cons_self
      obtain ⟨hfirst, hapart⟩ := List.pairwise_cons.1 hapart
      have hfactors' : ∀ g ∈ factors, IndependentElementSet.Factor sem Readable needed g :=
        fun g hg => hfactors g (List.mem_cons_of_mem f hg)
      have hsat' : ∀ g ∈ factors, Sat sem g.exprs a₀ :=
        fun g hg => hsat g (List.mem_cons_of_mem f hg)
      -- The factor is solved by `a`, and its elements are settled by `retMap₁`.
      have hstep : ∃ a retMap₁, Sat sem f.exprs a ∧
          Holds (s.piecewise b a) (s ∪ f.toSet) retMap₁ ∧
          mergeFactors solver retMap (f :: factors) = mergeFactors solver retMap₁ factors := by
        by_cases hempty : f.calculateArrayReferences = []
        · have hnone : f.toSet = ∅ := by
            apply Set.eq_empty_of_forall_notMem
            intro p hp
            have harray : p.1 ∈ f.calculateArrayReferences :=
              mem_calculateArrayReferences.2 (.inl ⟨p.2, (hf.mem_toSet_iff p).1 hp⟩)
            rw [hempty] at harray
            cases harray
          refine ⟨a₀, retMap, hsat f List.mem_cons_self, ?_, ?_⟩
          · rw [hnone, Set.union_empty]
            refine ⟨hholds.length, fun p hp => ?_⟩
            obtain ⟨bytes, hlookup, helement⟩ := hholds.elements p hp
            exact ⟨bytes, hlookup, helement.congr (Set.piecewise_eq_of_mem s b a₀ hp).symm⟩
          · rw [mergeFactors, if_pos hempty]
        · obtain ⟨a, values, ha, hvalues, hencodes⟩ :=
            hsolver f.exprs f.calculateArrayReferences ⟨a₀, hsat f List.mem_cons_self⟩
          have harrays : ∀ array ∈ f.calculateArrayReferences, array.Small := by
            intro array harray
            rcases mem_calculateArrayReferences.1 harray with ⟨i, hi⟩ | hwhole
            · exact (hf.allowed _ hi).2
            · rw [hf.wholeObjects] at hwhole
              cases hwhole
          have hindices : ∀ array ∈ f.calculateArrayReferences, ∀ i ∈ f.indexesOf array,
              i < array.size := by
            intro array _ i hi
            obtain ⟨p, hp, rfl⟩ := List.mem_map.1 hi
            obtain ⟨hp, harray⟩ := List.mem_filter.1 hp
            have hlt := (hf.allowed p hp).1
            rwa [of_decide_eq_true harray] at hlt
          obtain ⟨retMap₁, hmerge, hmerged⟩ := mergeAll_merged (f := f) hholds.length
            nodup_calculateArrayReferences harrays hindices hencodes
          refine ⟨a, retMap₁, ha, ?_, ?_⟩
          · apply hholds.merge hmerged (hnew f List.mem_cons_self) _ hf.wholeObjects
            exact fun p hp => mem_calculateArrayReferences.2 (.inl ⟨p.2, hp⟩)
          · rw [mergeFactors, if_neg hempty, hvalues]
            dsimp only
            rw [if_pos hencodes.length_eq.symm, hmerge]
            rfl
      obtain ⟨a, retMap₁, ha, hholds₁, hrun⟩ := hstep
      have hsolved := Independence.piecewise_solves
        (c := fun (e : Expr ω) b => e.eval sem b ≠ 0) (s := s)
        (fun e (he : e ∈ done) x y hxy => congrArg (· ≠ 0) (hdepends e he hxy))
        (fun e (he : e ∈ f.exprs) x y hxy => congrArg (· ≠ 0) (hf.dependsOn e he fun p hp => hxy p fun hps =>
          Set.disjoint_left.1 (hnew f List.mem_cons_self) hps hp)) hdone ha
      have hdepends' : ∀ e ∈ done ++ f.exprs, DependsOn (e.eval sem) (s ∪ f.toSet) := by
        intro e he
        rcases List.mem_append.1 he with he | he
        · exact (hdepends e he).mono Set.subset_union_left
        · exact (hf.dependsOn e he).mono Set.subset_union_right
      have hnew' : ∀ g ∈ factors, Disjoint (s ∪ f.toSet) g.toSet := by
        intro g hg
        exact (hnew g (List.mem_cons_of_mem f hg)).union_left (hfirst g hg)
      obtain ⟨retMap', b', s', hrest, hholds', hdone', hsolved', hsub, hsubs⟩ :=
        ih hholds₁ hsolved hdepends' hfactors' hapart hnew' hsat'
      refine ⟨retMap', b', s', hrun.trans hrest, hholds', ?_, ?_, ?_, ?_⟩
      · exact fun e he => hdone' e (List.mem_append_left _ he)
      · intro g hg
        rcases List.mem_cons.1 hg with rfl | hg
        · exact fun e he => hdone' e (List.mem_append_right _ he)
        · exact hsolved' g hg
      · exact Set.subset_union_left.trans hsub
      · intro g hg
        rcases List.mem_cons.1 hg with rfl | hg
        · exact Set.subset_union_right.trans hsub
        · exact hsubs g hg

variable [DecidableEq ω]

/-- `Expr::createIsZero` negates, and reads nothing else. -/
structure Negates (sem : ω → List Nat → Nat) (createIsZero : Expr ω → Expr ω) (e : Expr ω) :
    Prop where
  eval : ∀ a, (createIsZero e).eval sem a ≠ 0 ↔ e.eval sem a = 0
  reads : findReads (createIsZero e) ⊆ findReads e

open IndependentElementSet

theorem addRead_const {s : IndependentElementSet ω} (hs : s.wholeObjects = []) {re : ReadExpr ω}
    {i : Nat} (hindex : re.index = .const i) :
    (s.addRead re).wholeObjects = [] ∧ (s.addRead re).exprs = s.exprs ∧
      (∀ p ∈ (s.addRead re).elements, p ∈ s.elements ∨ p = (re.root, i)) ∧
      (re.root.isConstantArray = false → (re.root, i) ∈ (s.addRead re).elements) ∧
      s.elements ⊆ (s.addRead re).elements := by
  unfold addRead
  split
  · rename_i hconst
    have hconst := (Bool.and_eq_true_iff.1 hconst).1
    refine ⟨hs, rfl, fun p hp => .inl hp, fun h => ?_, fun p hp => hp⟩
    rw [hconst] at h
    cases h
  · rw [if_neg (by rw [hs]; exact List.not_mem_nil)]
    simp only [hindex]
    refine ⟨hs, trivial, fun p hp => (List.mem_cons.1 hp).symm, fun _ => List.mem_cons_self, ?_⟩
    exact fun p hp => List.mem_cons_of_mem _ hp

/-- An expression with constant indices makes a factor of the elements it reads. -/
theorem foldl_addRead_const {reads : List (ReadExpr ω)} {s : IndependentElementSet ω}
    (hs : s.wholeObjects = []) (hreads : ∀ re ∈ reads, ∃ i, re.index = .const i) :
    (reads.foldl addRead s).wholeObjects = [] ∧ (reads.foldl addRead s).exprs = s.exprs ∧
      (∀ p ∈ (reads.foldl addRead s).elements,
        p ∈ s.elements ∨ ∃ re ∈ reads, re.root = p.1 ∧ re.index = .const p.2) ∧
      s.elements ⊆ (reads.foldl addRead s).elements ∧
      ∀ re ∈ reads, ∀ i, re.index = .const i → re.root.isConstantArray = false →
        (re.root, i) ∈ (reads.foldl addRead s).elements := by
  induction reads generalizing s with
  | nil => exact ⟨hs, rfl, fun p hp => .inl hp, fun p hp => hp, by simp⟩
  | cons re reads ih =>
      obtain ⟨i, hindex⟩ := hreads re List.mem_cons_self
      obtain ⟨hwhole, hexprs, helements, hmem, hsub⟩ := addRead_const hs hindex
      obtain ⟨hwhole', hexprs', helements', hsub', hmem'⟩ :=
        ih hwhole fun re' hre' => hreads re' (List.mem_cons_of_mem re hre')
      refine ⟨hwhole', hexprs'.trans hexprs, fun p hp => ?_, fun p hp => hsub' (hsub hp), ?_⟩
      · rcases helements' p hp with hp | ⟨re', hre', hp⟩
        · rcases helements p hp with hp | rfl
          · exact .inl hp
          · exact .inr ⟨re, List.mem_cons_self, rfl, hindex⟩
        · exact .inr ⟨re', List.mem_cons_of_mem re hre', hp⟩
      · intro re' hre' j hj hconst
        rcases List.mem_cons.1 hre' with rfl | hre'
        · rw [hindex] at hj
          cases hj
          exact hsub' (hmem hconst)
        · exact hmem' re' hre' j hj hconst

/-- The reads of an expression are at constant indices that may be read. -/
def ReadsConst (e : Expr ω) : Prop :=
  ∀ re ∈ findReads e, ∃ i, re.index = .const i ∧ (re.root, i) ∈ Readable

/-- The elements of symbolic arrays that an expression reads. -/
def readsOf (e : Expr ω) : Set (Array × Nat) :=
  {p | p.1.isConstantArray = false ∧ ∃ re ∈ findReads e, re.root = p.1 ∧ re.index = .const p.2}

theorem factor_ofExpr (sem : ω → List Nat → Nat) {e : Expr ω} (h : ReadsConst e) :
    Factor sem Readable readsOf (ofExpr e) ∧ (ofExpr e).exprs = [e] := by
  obtain ⟨hwhole, hexprs, helements, -, hmem⟩ := foldl_addRead_const (s := ⟨[], [], [e]⟩) rfl
    fun re hre => (h re hre).imp fun _ => And.left
  have hself : ∀ e' ∈ (ofExpr e).exprs, e' = e := by
    intro e' he'
    rw [show (ofExpr e).exprs = [e] from hexprs] at he'
    exact List.mem_singleton.1 he'
  refine ⟨⟨hwhole, fun p hp => ?_, fun e' he' p hp => ?_, fun e' he' => ?_⟩, hexprs⟩
  · rcases helements p hp with hp | ⟨re, hre, hroot, hindex⟩
    · cases hp
    · obtain ⟨i, hi, hreadable⟩ := h re hre
      rw [hindex] at hi
      cases hi
      rw [hroot] at hreadable
      exact hreadable
  · rw [hself e' he'] at hp
    obtain ⟨hconst, re, hre, hroot, hindex⟩ := hp
    have hin := hmem re hre p.2 hindex (by rw [hroot]; exact hconst)
    rw [hroot] at hin
    exact .inr hin
  · rw [hself e' he']
    exact eval_dependsOn sem e

/-- The constraints of a query, with the negation of its expression. -/
def Query.conditions (createIsZero : Expr ω → Expr ω) (query : Query ω) : List (Expr ω) :=
  query.constraints.map Ref.expr ++ [createIsZero query.expr]

/-- Reading an assignment back solves the query: every element that the conditions mention
has a value, and under these values they hold. -/
def Query.SolvedBy (sem : ω → List Nat → Nat) (createIsZero : Expr ω → Expr ω) (query : Query ω)
    (m : ByteAssignment) : Prop :=
  ∃ b : Assignment,
    (∀ e ∈ query.conditions createIsZero, ∀ p ∈ readsOf e,
      m.evaluate p.1 p.2 = .ok (some (b p))) ∧
    Sat sem (query.conditions createIsZero) b ∧ query.expr.eval sem b = 0

theorem getAllIndependentConstraintsSets_spec {createIsZero : Expr ω → Expr ω}
    {query : Query ω} (hzero : Negates sem createIsZero query.expr)
    (hreads : ∀ e ∈ query.constraints.map Ref.expr ++ [query.expr], ReadsConst e)
    {a₀ : Assignment} (hsat : Sat sem (query.constraints.map Ref.expr) a₀)
    (hexpr : query.expr.eval sem a₀ = 0) :
    ∃ factors, getAllIndependentConstraintsSets createIsZero query = .ok factors ∧
      (∀ f ∈ factors, Factor sem Readable readsOf f ∧ Sat sem f.exprs a₀) ∧
      factors.Pairwise (fun f g => Disjoint f.toSet g.toSet) ∧
      ∀ e ∈ query.conditions createIsZero,
        (∃ f ∈ factors, e ∈ f.exprs) ∨ e = createIsZero query.expr ∧ ∃ v, query.expr = .const v := by
  have hneg : ReadsConst (createIsZero query.expr) := fun re hre =>
    hreads query.expr (List.mem_append_right _ List.mem_cons_self) re (hzero.reads hre)
  have hneg₀ : (createIsZero query.expr).eval sem a₀ ≠ 0 := (hzero.eval a₀).2 hexpr
  have hconstraints : ∀ f ∈ query.constraints.map (fun c => ofExpr c.expr),
      ∃ e, ReadsConst e ∧ e.eval sem a₀ ≠ 0 ∧ f = ofExpr e := by
    intro f hf
    obtain ⟨c, hc, rfl⟩ := List.mem_map.1 hf
    have he : c.expr ∈ query.constraints.map Ref.expr := List.mem_map.2 ⟨c, hc, rfl⟩
    exact ⟨c.expr, hreads _ (List.mem_append_left _ he), hsat _ he, rfl⟩
  -- Whatever list of one-expression factors the loop starts with, it keeps the expressions.
  have hloop : ∀ fs : List (IndependentElementSet ω),
      (∀ f ∈ fs, ∃ e, ReadsConst e ∧ e.eval sem a₀ ≠ 0 ∧ f = ofExpr e) →
      (∀ f ∈ factorLoop (fs.length + 1) fs, Factor sem Readable readsOf f ∧ Sat sem f.exprs a₀) ∧
      (factorLoop (fs.length + 1) fs).Pairwise (fun f g => Disjoint f.toSet g.toSet) ∧
      ∀ e, ReadsConst e → ofExpr e ∈ fs → ∃ f ∈ factorLoop (fs.length + 1) fs, e ∈ f.exprs := by
    intro fs hfs
    obtain ⟨hexprs, hfactor, hpairwise⟩ := factorLoop_spec (Nat.lt_succ_self fs.length)
    refine ⟨fun f hf => ⟨?_, fun e he => ?_⟩, hpairwise, fun e he hmem => ?_⟩
    · refine hfactor (fun g hg => ?_) f hf
      obtain ⟨e, he, -, rfl⟩ := hfs g hg
      exact (factor_ofExpr sem he).1
    · obtain ⟨g, hg, hge⟩ := (hexprs e).1 ⟨f, hf, he⟩
      obtain ⟨e', he', hholds, rfl⟩ := hfs g hg
      rw [(factor_ofExpr sem he').2] at hge
      rw [List.mem_singleton.1 hge]
      exact hholds
    · apply (hexprs e).2
      exact ⟨ofExpr e, hmem, by rw [(factor_ofExpr sem he).2]; exact List.mem_cons_self⟩
  have hmem : ∀ e ∈ query.constraints.map Ref.expr,
      ReadsConst e ∧ ofExpr e ∈ query.constraints.map fun c => ofExpr c.expr := by
    intro e he
    obtain ⟨c, hc, rfl⟩ := List.mem_map.1 he
    exact ⟨hreads _ (List.mem_append_left _ he), List.mem_map.2 ⟨c, hc, rfl⟩⟩
  cases hconst : query.expr.isConst with
  | true =>
      obtain ⟨v, hv⟩ : ∃ v, query.expr = .const v := by
        cases hq : query.expr with
        | const v => exact ⟨v, rfl⟩
        | read root head index => rw [hq] at hconst; cases hconst
        | node op kids => rw [hq] at hconst; cases hconst
      have hv0 : v = 0 := by
        rw [hv] at hexpr
        exact hexpr
      obtain ⟨hall, hpairwise, hexprs⟩ := hloop _ hconstraints
      refine ⟨_, ?_, hall, hpairwise, fun e he => ?_⟩
      · unfold getAllIndependentConstraintsSets
        simp only [hv, hv0, if_true]
        rfl
      · rcases List.mem_append.1 he with he | he
        · exact .inl (hexprs e (hmem e he).1 (hmem e he).2)
        · exact .inr ⟨List.mem_singleton.1 he, v, hv⟩
  | false =>
      obtain ⟨hall, hpairwise, hexprs⟩ := hloop
        (ofExpr (createIsZero query.expr) :: query.constraints.map fun c => ofExpr c.expr)
        (List.forall_mem_cons.2 ⟨⟨_, hneg, hneg₀, rfl⟩, hconstraints⟩)
      refine ⟨_, ?_, hall, hpairwise, fun e he => .inl ?_⟩
      · unfold getAllIndependentConstraintsSets
        cases hq : query.expr with
        | const v => rw [hq] at hconst; cases hconst
        | read root head index => rfl
        | node op kids => rfl
      · rcases List.mem_append.1 he with he | he
        · exact hexprs e (hmem e he).1 (List.mem_cons_of_mem _ (hmem e he).2)
        · rw [List.mem_singleton.1 he]
          exact hexprs _ hneg List.mem_cons_self

theorem lookup_zip_map {objects : List Array} (g : Array → List Byte) :
    (array ∈ objects → (objects.zip (objects.map g)).lookup array = some (g array)) ∧
      (array ∉ objects → (objects.zip (objects.map g)).lookup array = none) := by
  induction objects with
  | nil => simp
  | cons o objects ih =>
      rw [List.map_cons, List.zip_cons_cons]
      by_cases heq : array = o
      · subst heq
        simp
      · have hne : (array == o) = false := by simpa using heq
        rw [List.lookup_cons, hne]
        constructor
        · intro hmem
          exact ih.1 ((List.mem_cons.1 hmem).resolve_left heq)
        · intro hnot
          exact ih.2 fun hmem => hnot (List.mem_cons_of_mem o hmem)

theorem Array.Small.admitted (h : array.Small) : array.Admitted :=
  h.1.imp id .inl

/-- The bindings of an assignment that is made from the values of the requested arrays,
alone or with those of `retMap`. -/
inductive Rebinds (objects : List Array) (values : List (List Byte)) (retMap : RetMap)
    (needed : Set (Array × Nat)) : List (Array × List Byte) → Prop where
  | withRetMap : Rebinds objects values retMap needed (objects.zip values ++ retMap)
  | requested : (∀ p ∈ needed, p.1 ∈ objects) →
      Rebinds objects values retMap needed (objects.zip values)

theorem Rebinds.lookup {objects : List Array} {needed : Set (Array × Nat)}
    {bindings : List (Array × List Byte)}
    (h : Rebinds objects (objects.map (requestedValue retMap)) retMap needed bindings)
    {p : Array × Nat} (hp : p ∈ needed) (hlookup : retMap.lookup p.1 = some bytes) :
    bindings.lookup p.1 = some bytes := by
  have hrequested : requestedValue retMap p.1 = bytes := by
    rw [requestedValue, hlookup]
  cases h with
  | withRetMap =>
      rw [List.lookup_append]
      by_cases hmem : p.1 ∈ objects
      · rw [(lookup_zip_map _).1 hmem, hrequested]
        rfl
      · rw [(lookup_zip_map _).2 hmem, hlookup]
        rfl
  | requested hall =>
      rw [(lookup_zip_map _).1 (hall p hp), hrequested]

/-- The elements that the conditions of a query mention. -/
def Query.mentioned (createIsZero : Expr ω → Expr ω) (query : Query ω) : Set (Array × Nat) :=
  {p | ∃ e ∈ query.conditions createIsZero, p ∈ readsOf e}

/-- The values that are merged from the answers for the independent factors solve the query
when they are read back, and every requested array gets all its bytes. -/
theorem computeInitialValues_solves (sem : ω → List Nat → Nat) (createIsZero : Expr ω → Expr ω)
    (solver : InitialValues ω) (hsolver : solver.Correct sem) (query : Query ω)
    (hzero : Negates sem createIsZero query.expr) (objects : List Array)
    (hobjects : ∀ o ∈ objects, o.Small)
    (hreads : ∀ e ∈ query.constraints.map Ref.expr ++ [query.expr], ReadsConst e)
    (hsat : ∃ a, Sat sem (query.constraints.map Ref.expr) a ∧ query.expr.eval sem a = 0) :
    ∃ values retMap,
      computeInitialValues createIsZero solver query objects = .ok (some (values, retMap)) ∧
      List.Forall₂ (fun o bytes => bytes.length = o.size * (o.range / 8)) objects values ∧
      ∀ allowFreeValues bindings,
        Rebinds objects values retMap (query.mentioned createIsZero) bindings →
        query.SolvedBy sem createIsZero ⟨allowFreeValues, bindings⟩ := by
  obtain ⟨a₀, ha₀, hexpr₀⟩ := hsat
  obtain ⟨factors, hsets, hfactors, hapart, hmem⟩ :=
    getAllIndependentConstraintsSets_spec hzero hreads ha₀ hexpr₀
  have hstart : Holds a₀ ∅ [] := by
    refine ⟨fun array bytes h => ?_, fun p hp => absurd hp (Set.notMem_empty p)⟩
    cases h
  have hnone : Sat sem ([] : List (Expr ω)) a₀ := fun e he => absurd he List.not_mem_nil
  obtain ⟨retMap, b, s, hmerge, hholds, -, hsolved, -, hsub⟩ :=
    mergeFactors_spec hsolver hstart hnone (fun e he => absurd he List.not_mem_nil)
      (fun f hf => (hfactors f hf).1) hapart (fun f hf => Set.empty_disjoint _)
      fun f hf => (hfactors f hf).2
  have hconditions : Sat sem (query.conditions createIsZero) b := by
    intro e he
    rcases hmem e he with ⟨f, hf, hef⟩ | ⟨rfl, v, hv⟩
    · exact hsolved f hf e hef
    · apply (hzero.eval b).2
      rw [hv] at hexpr₀ ⊢
      exact hexpr₀
  refine ⟨objects.map (requestedValue retMap), retMap, ?_, ?_, fun allowFreeValues bindings hbind =>
    ⟨b, fun e he p hp => ?_, hconditions, ?_⟩⟩
  · rw [computeInitialValues, hsets, Except.ok_bind', hmerge]
    rfl
  · rw [List.forall₂_map_right_iff, List.forall₂_same]
    intro o ho
    unfold requestedValue
    split
    · rename_i bytes hlookup
      exact hholds.length o bytes hlookup
    · rw [List.length_replicate, Array.byteSize, unsigned_of_lt (hobjects o ho).2]
      rfl
  · have hneeded : p ∈ query.mentioned createIsZero := ⟨e, he, hp⟩
    rcases hmem e he with ⟨f, hf, hef⟩ | ⟨rfl, v, hv⟩
    · have hps := hsub f hf ((hfactors f hf).1.needed e hef hp)
      obtain ⟨bytes, hlookup, helement⟩ := hholds.elements p hps
      have hreadable : p ∈ Readable := by
        apply (hfactors f hf).1.allowed p
        exact ((hfactors f hf).1.mem_toSet_iff p).1 ((hfactors f hf).1.needed e hef hp)
      obtain ⟨hindex, hsmall⟩ := hreadable
      have hlt : p.2 * p.1.wordSize < p.1.size * p.1.wordSize :=
        Nat.mul_lt_mul_of_pos_right hindex hsmall.admitted.wordSize.2.1
      apply ByteAssignment.evaluate_element hsmall.admitted hsmall.2
        (hbind.lookup hneeded hlookup) helement _ _ hindex
      · exact unsigned_of_lt (hlt.trans hsmall.2)
      · rw [hholds.length p.1 bytes hlookup]
        exact hindex.trans_le (Nat.le_mul_of_pos_right _ hsmall.admitted.wordSize.2.1)
      · rcases hsmall.1 with h | h
        all_goals omega
    · obtain ⟨-, re, hre, -⟩ := hp
      have hnone := hzero.reads hre
      rw [hv] at hnone
      cases hnone
  · exact (hzero.eval b).1 (hconditions _ (List.mem_append_right _ List.mem_cons_self))

end Answers

/-! ## Two constraints on one array -/

section Sample

/-- The wrapped solver that answers with any solution. -/
noncomputable def InitialValues.ideal (sem : ω → List Nat → Nat) : InitialValues ω :=
  fun cs objects =>
    open Classical in
    if h : ∃ a, Sat sem cs a then
      some (objects.map fun o => (List.range (o.size * o.wordSize)).map (byteAt h.choose o))
    else none

theorem InitialValues.ideal_correct (sem : ω → List Nat → Nat) :
    (InitialValues.ideal sem).Correct sem := by
  intro cs objects h
  refine ⟨h.choose, _, h.choose_spec, dif_pos h, ?_⟩
  rw [List.forall₂_map_right_iff, List.forall₂_same]
  intro o _
  refine ⟨by simp, fun k hk => ?_⟩
  rw [List.getElem?_map, List.getElem?_range hk]
  rfl

/-- `Eq`; the negation of an expression compares it with 0. -/
def equals (_ : Unit) (values : List Nat) : Nat :=
  match values with
  | [l, r] => if l = r then 1 else 0
  | _ => 0

def eqConst (value : Nat) (e : Expr Unit) : Expr Unit :=
  .node () (.cons (.const value) (.cons e .nil))

/-- Two words. -/
def twoWords : Array := ⟨0, "A", 2, 16, []⟩

def twoWordsQuery : Query Unit :=
  ⟨[⟨0, eqConst 0x1234 (.read twoWords .nil (.const 0))⟩,
    ⟨1, eqConst 0x8765 (.read twoWords .nil (.const 1))⟩], .const 0⟩

theorem findReads_eqConst (value i : Nat) :
    findReads (eqConst value (.read twoWords .nil (.const i))) = [⟨twoWords, .nil, .const i⟩] :=
  rfl

theorem mem_readsOf_eqConst (value i : Nat) :
    (twoWords, i) ∈ readsOf (eqConst value (.read twoWords .nil (.const i))) :=
  ⟨rfl, _, List.mem_singleton.2 rfl, rfl, rfl⟩

theorem twoWords_merged : ∃ values retMap,
    computeInitialValues (eqConst 0) (.ideal equals) twoWordsQuery [twoWords] =
      .ok (some (values, retMap)) ∧
    (ByteAssignment.ofValues [twoWords] values false).evaluate twoWords 0 = .ok (some 0x1234) ∧
    (ByteAssignment.ofValues [twoWords] values false).evaluate twoWords 1 =
      .ok (some 0x8765) := by
  have hsmall : twoWords.Small := ⟨.inr rfl, by decide⟩
  have hreads : ∀ value i, i < 2 →
      ReadsConst (eqConst value (.read twoWords .nil (.const i))) := by
    intro value i hi re hre
    rw [findReads_eqConst, List.mem_singleton] at hre
    subst hre
    exact ⟨i, rfl, hi, hsmall⟩
  have hnone : ReadsConst (Expr.const (ω := Unit) 0) := fun re hre => by cases hre
  let a : Assignment := fun p => if p.2 = 0 then 0x1234 else 0x8765
  obtain ⟨values, retMap, hrun, -, hsolved⟩ :=
    computeInitialValues_solves equals (eqConst 0) (.ideal equals) (InitialValues.ideal_correct _)
      twoWordsQuery ⟨fun _ => ⟨fun _ => rfl, fun _ => Nat.one_ne_zero⟩, fun re hre => by cases hre⟩
      [twoWords] (fun o ho => by rwa [List.mem_singleton.1 ho]) (by
        intro e he
        simp only [twoWordsQuery, List.map_cons, List.map_nil, List.cons_append, List.nil_append,
          List.mem_cons, List.not_mem_nil, or_false] at he
        rcases he with rfl | rfl | rfl
        · exact hreads _ 0 (by decide)
        · exact hreads _ 1 (by decide)
        · exact hnone) ⟨a, by
        intro e he
        simp only [twoWordsQuery, List.map_cons, List.map_nil, List.mem_cons, List.not_mem_nil,
          or_false] at he
        rcases he with rfl | rfl
        · exact Nat.one_ne_zero
        · exact Nat.one_ne_zero, rfl⟩
  have hrequested : ∀ p ∈ twoWordsQuery.mentioned (eqConst 0), p.1 ∈ [twoWords] := by
    rintro p ⟨e, he, -, re, hre, hroot, -⟩
    simp only [Query.conditions, twoWordsQuery, List.map_cons, List.map_nil, List.cons_append,
      List.nil_append, List.mem_cons, List.not_mem_nil, or_false] at he
    rw [← hroot]
    rcases he with rfl | rfl | rfl
    · rw [findReads_eqConst, List.mem_singleton] at hre
      rw [hre]
      exact List.mem_cons_self
    · rw [findReads_eqConst, List.mem_singleton] at hre
      rw [hre]
      exact List.mem_cons_self
    · cases hre
  obtain ⟨b, hvalues, hholds, -⟩ := hsolved false _ (.requested hrequested)
  have hvalue : ∀ value i, eqConst value (.read twoWords .nil (.const i)) ∈
      twoWordsQuery.conditions (eqConst 0) → (b (twoWords, i)).toNat = value := by
    intro value i hmem
    have hone := hholds _ hmem
    by_contra hne
    refine hone ?_
    change (if value = (b (twoWords, i)).toNat then 1 else 0) = 0
    rw [if_neg (Ne.symm hne)]
  have hread : ∀ (value i : Nat) (v : BitVec 16),
      eqConst value (.read twoWords .nil (.const i)) ∈ twoWordsQuery.conditions (eqConst 0) →
      v.toNat = value → (ByteAssignment.ofValues [twoWords] values false).evaluate twoWords i =
        .ok (some v) := by
    intro value i v hmem hv
    refine (hvalues _ hmem _ (mem_readsOf_eqConst value i)).trans ?_
    rw [BitVec.eq_of_toNat_eq ((hvalue value i hmem).trans hv.symm)]
  exact ⟨values, retMap, hrun, hread 0x1234 0 _ List.mem_cons_self rfl,
    hread 0x8765 1 _ (List.mem_cons_of_mem _ List.mem_cons_self) rfl⟩

end Sample

end Klc3.Klee
