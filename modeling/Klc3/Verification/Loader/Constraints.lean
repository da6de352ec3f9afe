import Klc3.Verification.Loader.Symbolic

/-!
# The constraints of a symbolic line

`processConstraintLine` adds constraints that an assignment satisfies exactly when the line
holds.
-/

namespace Klc3

/-! ## Comparisons -/

namespace LoaderTables

variable {t : LoaderTables} {symbol : SymbolInfo} {name : Text}

theorem Declares.valueOf_eq (h : t.Declares name symbol) (a : Assignment) (i : Nat) :
    t.valueOf a name i = a symbol.array i := by
  simp [valueOf, h.lookup]

theorem Declares.sizeOf_eq (h : t.Declares name symbol) : t.sizeOf name = symbol.array.size := by
  simp [sizeOf, h.lookup]

theorem Declares.cell {i : Nat} (h : t.Declares name symbol) (hi : i < symbol.array.size) :
    ∃ value, t.mem (symbol.startAddr + BitVec.ofNat 16 i) = some value ∧
      value.e = some (.read symbol.array i) :=
  Option.bind_eq_some_iff.1 (h.cells i hi)

theorem findElement_text {e : Element} (h : t.Declares e.name symbol)
    (hi : e.position < symbol.array.size) :
    t.findElement e.text = .ok (symbol, BitVec.ofNat 16 e.position) := by
  have hlt : e.position < 0x10000 := Nat.lt_trans hi h.size_lt
  have hword : Lexer.word (e.position : Int) = BitVec.ofNat 16 e.position :=
    BitVec.ofInt_natCast 16 e.position
  have hindex : ¬symbol.array.size ≤ (BitVec.ofNat 16 e.position).toNat := by
    rw [BitVec.toNat_ofNat, Nat.mod_eq_of_lt hlt]
    omega
  unfold findElement
  dsimp only
  rw [e.withIndex_text, e.splitNameAndSubscript_text hlt, hword]
  simp only [Except.ok_bind', h.lookup, if_neg hindex]
  rfl

theorem constructSingleConstraint_spec (h : t.Declares name symbol) {i : Nat}
    (hi : i < symbol.array.size) (op : Comparator) (l : Literal) :
    ∃ constraint, t.constructSingleConstraint symbol (BitVec.ofNat 16 i) op.text l.text =
        .ok constraint ∧
      ∀ a, constraint.eval a = true ↔ op.Holds (a symbol.array i).toInt l.saturated.toInt := by
  obtain ⟨value, hmem, hvalue⟩ := h.cell hi
  obtain ⟨constraint, hcompare, heval⟩ :=
    op.compareBy_text (.read symbol.array i) (.const l.saturated)
  refine ⟨constraint, ?_, heval⟩
  unfold constructSingleConstraint
  rw [hmem]
  simp only [l.processInteger_text, Except.ok_bind', hvalue, hcompare]
  rfl

theorem processSingleConstraint_text {c : SingleConstraint} (h : c.element.WellFormed t) :
    ∃ constraint, t.processSingleConstraint (Text.splitString c.text ' ') = .ok constraint ∧
      ∀ a, constraint.eval a = true ↔ c.Holds Literal.saturated t a := by
  obtain ⟨symbol, hdeclares, hi⟩ := h
  obtain ⟨constraint, hconstruct, heval⟩ :=
    constructSingleConstraint_spec hdeclares hi c.op c.literal
  refine ⟨constraint, ?_, fun a => ?_⟩
  · rw [c.splitString_text, processSingleConstraint, findElement_text hdeclares hi]
    exact hconstruct
  · rw [heval, SingleConstraint.Holds, hdeclares.valueOf_eq]

/-! ## AND and OR -/

theorem andOperand_text {c : SingleConstraint} (h : c.element.WellFormed t)
    (orSub : Option BoolExpr) :
    ∃ constraint, t.andOperand orSub c.text = .ok (some constraint) ∧
      ∀ a, constraint.eval a = true ↔
        (∀ e ∈ orSub, e.eval a = true) ∧ c.Holds Literal.saturated t a := by
  obtain ⟨andSub, hsingle, heval⟩ := processSingleConstraint_text h
  unfold andOperand
  rw [c.solid_text.strip_eq, hsingle]
  cases orSub with
  | none => exact ⟨andSub, rfl, fun a => by simp [heval]⟩
  | some orSub => exact ⟨_, rfl, fun a => by simp [heval]⟩

/-- The comparisons under an `&`. -/
theorem foldlM_andOperand {g : Spaced SingleConstraint} (h : ∀ c ∈ g.all, c.element.WellFormed t) :
    ∃ constraint,
      (Text.splitString (g.text SingleConstraint.text '&') '&').foldlM t.andOperand none =
        .ok (some constraint) ∧
      ∀ a, constraint.eval a = true ↔ ∀ c ∈ g.all, c.Holds Literal.saturated t a := by
  have hcongr : ∀ acc s s', Text.strip s = Text.strip s' →
      t.andOperand acc s = t.andOperand acc s' := by
    intro acc s s' hstrip
    simp only [andOperand, hstrip]
  rw [g.foldlM_splitString hcongr (by decide) (fun c _ => c.solid_text)
    fun c _ => c.not_mem_text (.inl rfl)]
  obtain ⟨result, hfold, hsome, heval⟩ : ∃ result,
      g.all.foldlM (fun acc c => t.andOperand acc c.text) none = .ok result ∧
        (g.all ≠ [] → result.isSome) ∧
        ∀ a, (∀ e ∈ result, e.eval a = true) ↔ ∀ c ∈ g.all, c.Holds Literal.saturated t a := by
    refine Except.foldlM_isOk_split (motive := fun (done : List SingleConstraint)
        (result : Option BoolExpr) => (done ≠ [] → result.isSome) ∧
        ∀ a, (∀ e ∈ result, e.eval a = true) ↔ ∀ c ∈ done, c.Holds Literal.saturated t a)
      ⟨fun hne => absurd rfl hne, by simp⟩ ?_
    intro done c rest result hsplit ⟨_, heval⟩
    have hc : c ∈ g.all := hsplit ▸ List.mem_append_right done List.mem_cons_self
    obtain ⟨constraint, hstep, hconstraint⟩ := andOperand_text (h c hc) result
    refine ⟨some constraint, hstep, fun _ => rfl, fun a => ?_⟩
    rw [List.forall_mem_append, List.forall_mem_singleton, ← heval, ← hconstraint]
    simp
  obtain ⟨constraint, rfl⟩ := Option.isSome_iff_exists.1 (hsome (List.cons_ne_nil _ _))
  exact ⟨constraint, hfold, fun a => by rw [← heval]; simp⟩

theorem orOperand_text {g : Spaced SingleConstraint} (h : ∀ c ∈ g.all, c.element.WellFormed t)
    (constraint : Option BoolExpr) :
    ∃ constraint',
      t.orOperand constraint (g.text SingleConstraint.text '&') = .ok (some constraint') ∧
      ∀ a, constraint'.eval a = true ↔
        (∃ e ∈ constraint, e.eval a = true) ∨ ∀ c ∈ g.all, c.Holds Literal.saturated t a := by
  obtain ⟨orSub, hfold, heval⟩ := foldlM_andOperand h
  unfold orOperand
  rw [(g.solid_text fun c _ => c.solid_text).strip_eq, hfold]
  cases constraint with
  | none => exact ⟨orSub, rfl, fun a => by simp [heval]⟩
  | some constraint => exact ⟨_, rfl, fun a => by simp [heval]⟩

/-- The alternatives under an `|`. -/
theorem foldlM_orOperand {alternatives : Spaced (Spaced SingleConstraint)}
    (h : ∀ g ∈ alternatives.all, ∀ c ∈ g.all, c.element.WellFormed t) :
    ∃ constraint,
      (Text.splitString (alternatives.text (Spaced.text SingleConstraint.text '&') '|') '|').foldlM
        t.orOperand none = .ok (some constraint) ∧
      ∀ a, constraint.eval a = true ↔
        ∃ g ∈ alternatives.all, ∀ c ∈ g.all, c.Holds Literal.saturated t a := by
  have hcongr : ∀ acc s s', Text.strip s = Text.strip s' →
      t.orOperand acc s = t.orOperand acc s' := by
    intro acc s s' hstrip
    simp only [orOperand, hstrip]
  rw [alternatives.foldlM_splitString hcongr (by decide)
    (fun g _ => g.solid_text fun c _ => c.solid_text)
    fun g _ => g.not_mem_text (by decide) (by decide) fun c _ => c.not_mem_text (.inr rfl)]
  obtain ⟨result, hfold, hsome, heval⟩ : ∃ result, alternatives.all.foldlM
      (fun acc g => t.orOperand acc (g.text SingleConstraint.text '&')) none = .ok result ∧
        (alternatives.all ≠ [] → result.isSome) ∧
        ∀ a, (∃ e ∈ result, e.eval a = true) ↔
          ∃ g ∈ alternatives.all, ∀ c ∈ g.all, c.Holds Literal.saturated t a := by
    refine Except.foldlM_isOk_split (motive := fun (done : List (Spaced SingleConstraint))
        (result : Option BoolExpr) => (done ≠ [] → result.isSome) ∧
        ∀ a, (∃ e ∈ result, e.eval a = true) ↔
          ∃ g ∈ done, ∀ c ∈ g.all, c.Holds Literal.saturated t a)
      ⟨fun hne => absurd rfl hne, by simp⟩ ?_
    intro done g rest result hsplit ⟨_, heval⟩
    have hg : g ∈ alternatives.all := hsplit ▸ List.mem_append_right done List.mem_cons_self
    obtain ⟨constraint, hstep, hconstraint⟩ := orOperand_text (h g hg) result
    refine ⟨some constraint, hstep, fun _ => rfl, fun a => ?_⟩
    have hnext := hconstraint a
    rw [heval] at hnext
    simp only [List.mem_append, List.mem_singleton, or_and_right, exists_or, exists_eq_left]
    simpa using hnext
  obtain ⟨constraint, rfl⟩ := Option.isSome_iff_exists.1 (hsome (List.cons_ne_nil _ _))
  exact ⟨constraint, hfold, fun a => by rw [← heval]; simp⟩

/-! ## Strings -/

theorem stringCell_eq (h : t.Declares name symbol) {i : Nat} (hi : i < symbol.array.size) :
    t.stringCell symbol i = .ok (.read symbol.array i) := by
  unfold stringCell
  rw [h.cells i hi]
  rfl

/-- What a line adds to the tables: constraints that hold together exactly under
`meaning`. -/
def Pushes (t t' : LoaderTables) (meaning : Assignment → Prop) : Prop :=
  ∃ pushed, t'.constraints = t.constraints ++ pushed ∧
    (∀ a, (∀ c ∈ pushed, c.eval a = true) ↔ meaning a) ∧
    t'.mem = t.mem ∧ t'.symbols = t.symbols

theorem Pushes.of_nil (t : LoaderTables) {meaning : Assignment → Prop} (h : ∀ a, meaning a) :
    Pushes t t meaning :=
  ⟨[], (List.append_nil _).symm, fun a => by simp [h a], rfl, rfl⟩

/-- One more constraint. -/
theorem Pushes.snoc {t' t'' : LoaderTables} {P Q R : Assignment → Prop} (h : Pushes t t' P)
    {constraint : BoolExpr} (hconstraints : t''.constraints = t'.constraints ++ [constraint])
    (hmem : t''.mem = t'.mem) (hsymbols : t''.symbols = t'.symbols)
    (heval : ∀ a, constraint.eval a = true ↔ Q a) (hR : ∀ a, R a ↔ P a ∧ Q a) :
    Pushes t t'' R := by
  obtain ⟨pushed, happend, hpushed, hmem', hsymbols'⟩ := h
  refine ⟨pushed ++ [constraint], ?_, fun a => ?_, hmem.trans hmem', hsymbols.trans hsymbols'⟩
  · rw [hconstraints, happend, List.append_assoc]
  · rw [List.forall_mem_append, List.forall_mem_singleton, hpushed, heval, hR]

theorem Declares.congr {t' : LoaderTables} (h : t.Declares name symbol) (hmem : t'.mem = t.mem)
    (hsymbols : t'.symbols = t.symbols) : t'.Declares name symbol :=
  ⟨hsymbols ▸ h.lookup, h.size_lt, hmem ▸ h.cells⟩

theorem addCharacter_spec (h : t.Declares name symbol) {i : Nat} (hi : i < symbol.array.size)
    (variableLength : Bool) (bound : Nat) :
    ∃ t' constraint, addCharacter symbol variableLength bound t i = .ok t' ∧
      t'.constraints = t.constraints ++ [constraint] ∧ t'.mem = t.mem ∧ t'.symbols = t.symbols ∧
      ∀ a, constraint.eval a = true ↔ IsCharacter variableLength (a symbol.array i) := by
  unfold addCharacter
  rw [stringCell_eq h hi]
  refine ⟨_, _, rfl, rfl, rfl, rfl, fun a => ?_⟩
  have hbounds : (0x20 : Word).toInt = 0x20 ∧ (0x7E : Word).toInt = 0x7E := by decide
  cases variableLength with
  | true =>
    simp [IsCharacter, BitVec.sle_iff_toInt_le]
    tauto
  | false =>
    simp [IsCharacter, BitVec.sle_iff_toInt_le]
    tauto

theorem addConstraintOfString_spec (h : t.Declares name symbol) (hsize : 0 < symbol.array.size)
    (variableLength : Bool) (bound : Nat) :
    ∃ bound' t', t.addConstraintOfString bound symbol variableLength = .ok (bound', t') ∧
      Pushes t t' fun a => a symbol.array (symbol.array.size - 1) = 0 ∧
        ∀ i < symbol.array.size - 1, IsCharacter variableLength (a symbol.array i) := by
  obtain ⟨t₁, hfold, hpushes⟩ : ∃ t₁, (List.range (symbol.array.size - 1)).foldlM
      (addCharacter symbol variableLength bound) t = .ok t₁ ∧
        Pushes t t₁ fun a => ∀ i ∈ List.range (symbol.array.size - 1),
          IsCharacter variableLength (a symbol.array i) := by
    refine Except.foldlM_isOk_split (motive := fun done t' => Pushes t t' fun a =>
      ∀ i ∈ done, IsCharacter variableLength (a symbol.array i)) (.of_nil t (by simp)) ?_
    intro done i rest t' hsplit hpushes
    have hi : i < symbol.array.size - 1 :=
      List.mem_range.1 (hsplit ▸ List.mem_append_right done List.mem_cons_self)
    have hdeclares : t'.Declares name symbol := by
      obtain ⟨-, -, -, hmem, hsymbols⟩ := hpushes
      exact h.congr hmem hsymbols
    obtain ⟨t'', constraint, hstep, hconstraints, hmem, hsymbols, heval⟩ :=
      addCharacter_spec hdeclares (Nat.lt_of_lt_of_le hi (Nat.sub_le _ _)) variableLength bound
    refine ⟨t'', hstep, hpushes.snoc hconstraints hmem hsymbols heval fun a => ?_⟩
    rw [List.forall_mem_append, List.forall_mem_singleton]
  have hdeclares : t₁.Declares name symbol := by
    obtain ⟨-, -, -, hmem, hsymbols⟩ := hpushes
    exact h.congr hmem hsymbols
  unfold addConstraintOfString
  rw [hfold]
  dsimp only [Except.ok_bind']
  rw [stringCell_eq hdeclares (Nat.sub_lt hsize Nat.one_pos)]
  refine ⟨_, _, rfl, hpushes.snoc rfl rfl rfl
    (Q := fun a => a symbol.array (symbol.array.size - 1) = 0) (fun a => by simp) fun a => ?_⟩
  simp only [List.mem_range]
  exact And.comm

/-! ## Lines -/

/-- A line that is not of the form of a string is processed as a numerical one. -/
theorem processConstraintLine_numerical {line : Text} {x op : Text} {rest : List Text}
    (hsplit : Text.splitString line ' ' = x :: op :: rest) (hop : op ≠ "is".toList) (bound : Nat) :
    t.processConstraintLine line bound =
      (t.processNumericalConstraint line).map fun t => (bound, t) := by
  unfold processConstraintLine
  split
  · rename_i heq
    rw [hsplit] at heq
    injection heq with _ heq
    injection heq with heq _
    rw [if_neg (heq ▸ hop)]
    cases t.processNumericalConstraint line with
    | error e => rfl
    | ok t => rfl
  · cases t.processNumericalConstraint line with
    | error e => rfl
    | ok t => rfl

theorem processNumericalConstraint_text {alternatives : Spaced (Spaced SingleConstraint)}
    (h : (SymbolicLine.numerical alternatives).WellFormed t) :
    ∃ t', t.processNumericalConstraint (SymbolicLine.numerical alternatives).text = .ok t' ∧
      Pushes t t' fun a => (SymbolicLine.numerical alternatives).Holds Literal.saturated t a := by
  obtain ⟨constraint, hfold, heval⟩ := foldlM_orOperand h
  refine ⟨{ t with constraints := t.constraints ++ [constraint] }, ?_, ?_⟩
  · unfold processNumericalConstraint SymbolicLine.text
    rw [hfold]
    rfl
  · have hnil : Pushes t t fun _ => True := .of_nil t fun _ => trivial
    exact hnil.snoc rfl rfl rfl heval fun a => by rw [true_and]; rfl

theorem splitString_numerical (alternatives : Spaced (Spaced SingleConstraint)) :
    ∃ x op rest, Text.splitString (SymbolicLine.numerical alternatives).text ' ' =
      x :: op :: rest ∧ op ≠ "is".toList := by
  let c := alternatives.head.head
  have helement : ' ' ∉ c.element.text := fun hmem => by
    simpa [Text.isspace] using (c.element.printed_text ' ' hmem).1
  have hop : ' ' ∉ c.op.text := fun hmem => by
    simpa [Text.isspace] using (c.op.printed_text ' ' hmem).1
  have htext : ∃ rest, (SymbolicLine.numerical alternatives).text =
      c.element.text ++ ' ' :: (c.op.text ++ ' ' :: rest) := by
    simp [SymbolicLine.text, Spaced.text, SingleConstraint.text, c]
  obtain ⟨rest, htext⟩ := htext
  refine ⟨c.element.text, c.op.text, Text.splitString rest ' ', ?_, ?_⟩
  · rw [htext, Text.splitString_append helement, Text.splitString_append hop]
  · cases c.op <;> decide

theorem splitString_string (e : Element) (variableLength : Bool) :
    Text.splitString (SymbolicLine.string e variableLength).text ' ' =
      [e.text, "is".toList, SymbolicLine.stringType variableLength] := by
  have helement : ' ' ∉ e.text := fun hmem => by
    simpa [Text.isspace] using (e.printed_text ' ' hmem).1
  rw [SymbolicLine.text, Text.splitString_append helement,
    Text.splitString_append (by decide), Text.splitString_last]
  · cases variableLength <;> decide
  · cases variableLength <;> decide

/-- A well-formed line is accepted, and adds what it says. -/
theorem processConstraintLine_text {line : SymbolicLine} (h : line.WellFormed t) (bound : Nat) :
    ∃ bound' t', t.processConstraintLine line.text bound = .ok (bound', t') ∧
      Pushes t t' fun a => line.Holds Literal.saturated t a := by
  cases line with
  | numerical alternatives =>
    obtain ⟨x, op, rest, hsplit, hop⟩ := splitString_numerical alternatives
    obtain ⟨t', hprocess, hpushes⟩ := processNumericalConstraint_text h
    refine ⟨bound, t', ?_, hpushes⟩
    rw [processConstraintLine_numerical hsplit hop, hprocess]
    rfl
  | string e variableLength =>
    obtain ⟨symbol, hdeclares, hi⟩ := h
    obtain ⟨bound', t', hstring, hpushes⟩ := addConstraintOfString_spec hdeclares
      (Nat.lt_of_le_of_lt (Nat.zero_le _) hi) variableLength bound
    refine ⟨bound', t', ?_, ?_⟩
    · unfold processConstraintLine
      rw [splitString_string]
      simp only [if_true]
      unfold processDefiningConstraint
      rw [findElement_text hdeclares hi]
      cases variableLength with
      | true => exact hstring
      | false => exact hstring
    · simpa only [SymbolicLine.Holds, hdeclares.valueOf_eq, hdeclares.sizeOf_eq] using hpushes

end LoaderTables

end Klc3
