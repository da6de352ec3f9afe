import Mathlib.Data.List.TakeWhile
import Klc3.Verification.Expr.Semantics
import Klc3.Verification.Loader.Fields

/-!
# Symbolic lines

A line of the command `SYMBOLIC` as it is meant, comparisons under AND and OR or a string, and
how the loader reads its fields.
-/

namespace Klc3

/-! ## Fields -/

/-- The characters of the fields: not blank, and no separator. -/
def Printed (c : Char) : Prop :=
  Text.isspace c = false ∧ c ≠ '&' ∧ c ≠ '|'

instance : DecidablePred Printed := fun _ => inferInstanceAs (Decidable (_ ∧ _))

theorem Printed.of_digit {base : Nat} (hbase : base ≤ 16) {c : Char}
    (h : (Text.digitValue base c).isSome) : Printed c :=
  ⟨(Text.digitValue_isSome hbase h).1, Text.ne_of_digitValue hbase h (by decide),
    Text.ne_of_digitValue hbase h (by decide)⟩

inductive Comparator where
  | eq | ne | lt | le | gt | ge

namespace Comparator

def text : Comparator → Text
  | eq => "==".toList
  | ne => "!=".toList
  | lt => "<".toList
  | le => "<=".toList
  | gt => ">".toList
  | ge => ">=".toList

/-- The relation of signed integers that an operator stands for. -/
def Holds : Comparator → Int → Int → Prop
  | eq, m, n => m = n
  | ne, m, n => m ≠ n
  | lt, m, n => m < n
  | le, m, n => m ≤ n
  | gt, m, n => n < m
  | ge, m, n => n ≤ m

theorem printed_text (op : Comparator) : ∀ c ∈ op.text, Printed c := by
  cases op <;> decide

theorem compareBy_text (op : Comparator) (left right : WordExpr) :
    ∃ constraint, LoaderTables.compareBy op.text left right = some constraint ∧
      ∀ a, constraint.eval a = true ↔ op.Holds (left.eval a).toInt (right.eval a).toInt := by
  cases op with
  | eq => exact ⟨_, rfl, fun a => by simp [Holds, BitVec.toInt_inj]⟩
  | ne => exact ⟨_, rfl, fun a => by simp [Holds, BitVec.toInt_inj]⟩
  | lt => exact ⟨_, rfl, fun a => by simp [Holds, BitVec.slt_iff_toInt_lt]⟩
  | le => exact ⟨_, rfl, fun a => by simp [Holds, BitVec.sle_iff_toInt_le]⟩
  | gt => exact ⟨_, rfl, fun a => by simp [Holds, BitVec.slt_iff_toInt_lt]⟩
  | ge => exact ⟨_, rfl, fun a => by simp [Holds, BitVec.sle_iff_toInt_le]⟩

end Comparator

/-- A number as it is written, in LC-3 syntax. -/
structure Literal where
  hexadecimal : Bool
  negative : Bool
  digits : Text
  digits_ne : digits ≠ []
  areDigits : ∀ c ∈ digits, (Text.digitValue (if hexadecimal then 16 else 10) c).isSome

namespace Literal

variable (l : Literal)

def base : Nat :=
  if l.hexadecimal then 16 else 10

def signed : Text :=
  if l.negative then '-' :: l.digits else l.digits

def text : Text :=
  (if l.hexadecimal then 'x' else '#') :: l.signed

def value : Int :=
  if l.negative then -(Text.digitsValue l.base l.digits : Int) else Text.digitsValue l.base l.digits

/-- The literal reduced modulo `2 ^ 16`. -/
def reduced : Word :=
  BitVec.ofInt 16 l.value

/-- The literal saturated at the bounds of `long`, and then reduced modulo `2 ^ 16`. -/
def saturated : Word :=
  BitVec.ofInt 16 (max (min l.value 0x7FFFFFFFFFFFFFFF) (-0x8000000000000000))

theorem saturated_eq_reduced (hle : -0x8000000000000000 ≤ l.value)
    (hlt : l.value < 0x8000000000000000) : l.saturated = l.reduced := by
  have hvalue : max (min l.value 0x7FFFFFFFFFFFFFFF) (-0x8000000000000000) = l.value := by
    omega
  rw [saturated, reduced, hvalue]

theorem base_le : l.base ≤ 16 := by
  unfold base
  split <;> omega

theorem digitValue_isSome {c : Char} (hc : c ∈ l.digits) :
    (Text.digitValue l.base c).isSome :=
  l.areDigits c hc

theorem strtol_signed : Text.strtol l.signed l.base =
    max (min l.value 0x7FFFFFFFFFFFFFFF) (-0x8000000000000000) := by
  have hsigned : l.signed = l.digits ∨ l.signed = '-' :: l.digits := by
    unfold signed
    split
    · exact .inr rfl
    · exact .inl rfl
  have hvalue : Text.signedValue l.base l.signed = l.value := by
    unfold signed value
    split
    · rfl
    · obtain ⟨d, ds, hds⟩ := List.exists_cons_of_ne_nil l.digits_ne
      have hd : d ∈ l.digits := hds ▸ List.mem_cons_self
      rw [hds, Text.signedValue_eq (Text.digitValue_isSome l.base_le (l.digitValue_isSome hd)).2.1]
  have hstrtol : Text.strtol (l.signed ++ []) l.base = _ :=
    Text.strtol_eq l.base_le hsigned l.digits_ne (fun c hc => l.digitValue_isSome hc) (by simp)
  rwa [List.append_nil, hvalue] at hstrtol

theorem strtolEnd_signed : Text.strtolEnd l.signed l.base = [] := by
  obtain ⟨d, ds, hds⟩ := List.exists_cons_of_ne_nil l.digits_ne
  have hd := Text.digitValue_isSome l.base_le (l.digitValue_isSome (hds ▸ List.mem_cons_self))
  have hdigits : (Text.splitSign (Text.skipSpace l.signed)).2 = l.digits := by
    unfold signed
    split
    · rfl
    · rw [hds, Text.skipSpace, List.dropWhile_cons_of_neg (by simp [hd.1]),
        Text.splitSign_eq hd.2.1 hd.2.2.1]
  have hsame : Text.skipHexPrefix l.digits = l.digits := by
    apply Text.skipHexPrefix_eq
    intro c hc
    have hmem : c ∈ l.digits := List.mem_of_mem_tail (List.mem_of_mem_head? hc)
    have hc := Text.digitValue_isSome l.base_le (l.digitValue_isSome hmem)
    exact ⟨hc.2.2.2.1, hc.2.2.2.2.1⟩
  have hrest : (l.digits.dropWhile fun c => (Text.digitValue l.base c).isSome) = [] :=
    List.dropWhile_eq_nil_iff.2 fun c hc => l.digitValue_isSome hc
  unfold Text.strtolEnd
  dsimp only
  rw [hdigits, hsame, ite_self, hrest, if_neg]
  exact (List.length_pos_iff.2 l.digits_ne).ne

theorem printed_text : ∀ c ∈ l.text, Printed c := by
  have hdigits : ∀ c ∈ l.digits, Printed c := fun c hc =>
    Printed.of_digit l.base_le (l.digitValue_isSome hc)
  have hmarks : Printed 'x' ∧ Printed '#' ∧ Printed '-' := by decide
  have hsigned : ∀ c ∈ l.signed, Printed c := by
    unfold signed
    split
    · exact List.forall_mem_cons.2 ⟨hmarks.2.2, hdigits⟩
    · exact hdigits
  unfold text
  refine List.forall_mem_cons.2 ⟨?_, hsigned⟩
  split
  · exact hmarks.1
  · exact hmarks.2.1

theorem processInteger_text : LoaderTables.processInteger l.text = .ok l.saturated := by
  have hvalue := l.strtol_signed
  have hend := l.strtolEnd_signed
  unfold text
  cases hhex : l.hexadecimal with
  | true =>
    have hbase : l.base = 16 := by simp [base, hhex]
    rw [hbase] at hvalue hend
    simp only [if_true, LoaderTables.processInteger, hend, hvalue]
    rfl
  | false =>
    have hbase : l.base = 10 := by simp [base, hhex]
    rw [hbase] at hvalue hend
    simp only [Bool.false_eq_true, if_false, LoaderTables.processInteger, hend, hvalue]
    rfl

end Literal

/-- A variable or an element of an array. -/
structure Element where
  name : Text
  index : Option Text
  name_ne : name ≠ []
  isName : ∀ c ∈ name, Text.isspace c = false ∧ c ∉ "[]&|".toList
  isIndex : ∀ digits ∈ index, digits ≠ [] ∧ ∀ c ∈ digits, (Text.digitValue 10 c).isSome

namespace Element

variable (e : Element)

def text : Text :=
  match e.index with
  | none => e.name
  | some digits => e.name ++ '[' :: (digits ++ [']'])

def position : Nat :=
  match e.index with
  | none => 0
  | some digits => Text.digitsValue 10 digits

/-- The digits of the index, which is 0 for a variable. -/
def indexDigits : Text :=
  e.index.getD ['0']

theorem indexDigits_spec : e.indexDigits ≠ [] ∧
    (∀ c ∈ e.indexDigits, (Text.digitValue 10 c).isSome) ∧
    Text.digitsValue 10 e.indexDigits = e.position := by
  unfold indexDigits position
  cases hindex : e.index with
  | none => exact ⟨by simp, by simp; decide, rfl⟩
  | some digits => exact ⟨(e.isIndex digits hindex).1, (e.isIndex digits hindex).2, rfl⟩

/-- With the index that is added to a variable. -/
theorem withIndex_text :
    (if e.text.getLast? = some ']' then e.text else e.text ++ "[0]".toList) =
      e.name ++ '[' :: (e.indexDigits ++ [']']) := by
  unfold text indexDigits
  cases e.index with
  | none =>
    have hlast : e.name.getLast? ≠ some ']' := by
      intro hlast
      exact (e.isName ']' (List.mem_of_mem_getLast? hlast)).2 (by decide)
    rw [if_neg hlast]
    rfl
  | some digits =>
    have hlast : (e.name ++ '[' :: (digits ++ [']'])).getLast? = some ']' := by
      rw [List.getLast?_append_of_ne_nil _ (List.cons_ne_nil _ _), ← List.cons_append]
      exact List.getLast?_concat
    rw [if_pos hlast]
    rfl

theorem stoi_indexDigits (h : e.position < 0x10000) :
    Text.stoi e.indexDigits = some (e.position : Int) := by
  obtain ⟨hne, hdigits, hvalue⟩ := e.indexDigits_spec
  obtain ⟨d, ds, hds⟩ := List.exists_cons_of_ne_nil hne
  have hfirst : d ∈ e.indexDigits := hds ▸ List.mem_cons_self
  have hd := Text.digitValue_isSome (by decide) (hdigits d hfirst)
  have hsigned : Text.signedValue 10 e.indexDigits = e.position := by
    rw [← hvalue, hds, Text.signedValue_eq hd.2.1]
  have hstrtol : Text.strtol (e.indexDigits ++ []) 10 = _ :=
    Text.strtol_eq (by decide) (.inl rfl) hne hdigits (by simp)
  rw [List.append_nil, hsigned] at hstrtol
  have hskip : Text.skipSpace e.indexDigits = e.indexDigits := by
    rw [hds, Text.skipSpace, List.dropWhile_cons_of_neg (by simp [hd.1])]
  have hhead : (e.indexDigits.head?.bind (Text.digitValue 10)).isSome := by
    rw [hds]
    exact hdigits d hfirst
  have hsign : (Text.splitSign e.indexDigits).2 = e.indexDigits := by
    rw [hds, Text.splitSign_eq hd.2.1 hd.2.2.1]
  unfold Text.stoi
  dsimp only
  rw [hskip, hsign, hstrtol, if_pos ⟨hhead, by omega, by omega⟩]
  congr 1
  omega

theorem splitNameAndSubscript_text (h : e.position < 0x10000) :
    Lexer.splitNameAndSubscript (e.name ++ '[' :: (e.indexDigits ++ [']'])) =
      .ok (e.name, Lexer.word e.position) := by
  have hname : '[' ∉ e.name := fun hmem => (e.isName '[' hmem).2 (by decide)
  have htake : (e.name ++ '[' :: (e.indexDigits ++ [']'])).takeWhile (· != '[') = e.name := by
    rw [List.takeWhile_append_of_pos]
    · simp
    · intro c hc
      have hne : c ≠ '[' := fun heq => hname (heq ▸ hc)
      simpa using hne
  unfold Lexer.splitNameAndSubscript
  rw [Text.strchr_append hname]
  simp only [List.length_cons, List.length_append, List.drop_succ_cons, List.drop_zero]
  simp [stoi_indexDigits e h, htake]

theorem printed_text : ∀ c ∈ e.text, Printed c := by
  have hname : ∀ c ∈ e.name, Printed c := fun c hc => by
    have hc := e.isName c hc
    refine ⟨hc.1, ?_, ?_⟩
    · rintro rfl
      exact hc.2 (by decide)
    · rintro rfl
      exact hc.2 (by decide)
  unfold text
  cases hindex : e.index with
  | none => exact hname
  | some digits =>
    have hdigits : ∀ c ∈ digits, Printed c := fun c hc =>
      Printed.of_digit (by decide) ((e.isIndex digits hindex).2 c hc)
    have hbrackets : Printed '[' ∧ Printed ']' := by decide
    simp only [List.forall_mem_append, List.forall_mem_cons, List.not_mem_nil, false_imp_iff,
      implies_true, and_true]
    exact ⟨hname, hbrackets.1, hdigits, hbrackets.2⟩

theorem text_ne : e.text ≠ [] := by
  unfold text
  split
  · exact e.name_ne
  · simp

end Element

/-- A comparison, with single blanks between its fields. -/
structure SingleConstraint where
  element : Element
  op : Comparator
  literal : Literal

namespace SingleConstraint

variable (c : SingleConstraint)

def text : Text :=
  c.element.text ++ ' ' :: (c.op.text ++ ' ' :: c.literal.text)

theorem splitString_text :
    Text.splitString c.text ' ' = [c.element.text, c.op.text, c.literal.text] := by
  have helement : ' ' ∉ c.element.text := fun hmem => by
    simpa [Text.isspace] using (c.element.printed_text ' ' hmem).1
  have hop : ' ' ∉ c.op.text := fun hmem => by
    simpa [Text.isspace] using (c.op.printed_text ' ' hmem).1
  have hliteral : ' ' ∉ c.literal.text := fun hmem => by
    simpa [Text.isspace] using (c.literal.printed_text ' ' hmem).1
  rw [text, Text.splitString_append helement, Text.splitString_append hop,
    Text.splitString_last hliteral (by simp [Literal.text])]

theorem solid_text : Text.Solid c.text := by
  have helement : Text.Solid c.element.text :=
    .of_forall c.element.text_ne fun d hd => (c.element.printed_text d hd).1
  have hliteral : Text.Solid c.literal.text :=
    .of_forall (by simp [Literal.text]) fun d hd => (c.literal.printed_text d hd).1
  have happend := helement.append hliteral (' ' :: (c.op.text ++ [' ']))
  simpa [text] using happend

theorem not_mem_text {d : Char} (hd : d = '&' ∨ d = '|') : d ∉ c.text := by
  have hnot : ¬Printed d := by rcases hd with rfl | rfl <;> decide
  have hblank : d ≠ ' ' := by rcases hd with rfl | rfl <;> decide
  have helement : d ∉ c.element.text := fun hmem => hnot (c.element.printed_text d hmem)
  have hop : d ∉ c.op.text := fun hmem => hnot (c.op.printed_text d hmem)
  have hliteral : d ∉ c.literal.text := fun hmem => hnot (c.literal.printed_text d hmem)
  simp [text, helement, hop, hliteral, hblank]

end SingleConstraint

/-! ## Lines -/

namespace LoaderTables

/-- A declared variable whose cells still hold it. -/
structure Declares (t : LoaderTables) (name : Text) (symbol : SymbolInfo) : Prop where
  lookup : t.symbols.lookup name = some symbol
  size_lt : symbol.array.size < 0x10000
  cells : ∀ i < symbol.array.size,
    (t.mem (symbol.startAddr + BitVec.ofNat 16 i)).bind MemValue.e = some (.read symbol.array i)

def sizeOf (t : LoaderTables) (name : Text) : Nat :=
  match t.symbols.lookup name with
  | none => 0
  | some symbol => symbol.array.size

/-- The value of an element of a variable. -/
def valueOf (t : LoaderTables) (a : Assignment) (name : Text) (i : Nat) : Word :=
  match t.symbols.lookup name with
  | none => 0
  | some symbol => a symbol.array i

end LoaderTables

/-- The element exists. -/
def Element.WellFormed (t : LoaderTables) (e : Element) : Prop :=
  ∃ symbol, t.Declares e.name symbol ∧ e.position < symbol.array.size

def SingleConstraint.Holds (read : Literal → Word) (t : LoaderTables) (a : Assignment)
    (c : SingleConstraint) : Prop :=
  c.op.Holds (t.valueOf a c.element.name c.element.position).toInt (read c.literal).toInt

/-- A printable character, or an early end of the string. -/
def IsCharacter (variableLength : Bool) (v : Word) : Prop :=
  (0x20 ≤ v.toInt ∧ v.toInt ≤ 0x7E) ∨ variableLength ∧ v = 0

/-- A line of the command `SYMBOLIC`. -/
inductive SymbolicLine where
  | numerical (alternatives : Spaced (Spaced SingleConstraint))
  | string (element : Element) (variableLength : Bool)

namespace SymbolicLine

def stringType (variableLength : Bool) : Text :=
  if variableLength then "var-length-string".toList else "fixed-length-string".toList

def text : SymbolicLine → Text
  | numerical alternatives => alternatives.text (Spaced.text SingleConstraint.text '&') '|'
  | string element variableLength =>
    element.text ++ ' ' :: ("is".toList ++ ' ' :: stringType variableLength)

/-- The variables are declared, and no index is out of range. -/
def WellFormed (t : LoaderTables) : SymbolicLine → Prop
  | numerical alternatives => ∀ g ∈ alternatives.all, ∀ c ∈ g.all, c.element.WellFormed t
  | string element _ => element.WellFormed t

/-- What a line says, when `read` is the value of a literal. -/
def Holds (read : Literal → Word) (t : LoaderTables) (a : Assignment) : SymbolicLine → Prop
  | numerical alternatives => ∃ g ∈ alternatives.all, ∀ c ∈ g.all, c.Holds read t a
  | string element variableLength =>
    t.valueOf a element.name (t.sizeOf element.name - 1) = 0 ∧
      ∀ i < t.sizeOf element.name - 1,
        IsCharacter variableLength (t.valueOf a element.name i)

end SymbolicLine

end Klc3
