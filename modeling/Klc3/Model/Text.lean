import Mathlib.Init

/-!
# C strings

The functions of the C library and of `Common.cpp` that the loader applies to text. A
character stands for a byte of the source file.
-/

namespace Klc3

/-- The text of a C string, without its terminator. -/
abbrev Text := List Char

namespace Text

/-- What holds of all characters of a text is decided without looking at any others. -/
instance (priority := 1100) decidableForallMem (s : Text) (p : Char → Prop) [DecidablePred p] :
    Decidable (∀ c ∈ s, p c) :=
  List.decidableBAll p s

instance (priority := 1100) decidableForallMemOption (o : Option Char) (p : Char → Prop)
    [DecidablePred p] : Decidable (∀ c ∈ o, p c) :=
  Option.decidableForallMem o

/-- `isspace` in the C locale. -/
def isspace (c : Char) : Bool :=
  c == ' ' || c == '\t' || c == '\n' || c == '\x0b' || c == '\x0c' || c == '\r'

def skipSpace (s : Text) : Text :=
  s.dropWhile isspace

/-- `strchr`: from the first occurrence on, `none` for a null pointer. -/
def strchr (s : Text) (c : Char) : Option Text :=
  match s.dropWhile (· != c) with
  | [] => none
  | s => some s

/-- `strip`. -/
def strip (s : Text) : Text :=
  ((s.dropWhile isspace).reverse.dropWhile isspace).reverse

/-- `matchStartAndTrim`; `none` when `s` does not start with the prefix. -/
def matchStartAndTrim (s start : Text) : Option Text :=
  if start.isPrefixOf s then some (strip (s.drop start.length)) else none

/-- A word that ends before the next blank, and the stripped rest. -/
def splitAtBlank (s : Text) : Text × Text :=
  let word := s.takeWhile (· != ' ')
  (word, strip (s.drop word.length))

/-! ## Numbers -/

/-- The value of a digit of `strtol`. -/
def digitValue (base : Nat) (c : Char) : Option Nat :=
  let d :=
    if '0' ≤ c ∧ c ≤ '9' then c.toNat - 48
    else if 'a' ≤ c ∧ c ≤ 'z' then c.toNat - 87
    else if 'A' ≤ c ∧ c ≤ 'Z' then c.toNat - 55
    else 36
  if d < base then some d else none

def readDigits (base : Nat) : Text → Nat → Nat
  | [], acc => acc
  | c :: s, acc =>
    match digitValue base c with
    | none => acc
    | some d => readDigits base s (acc * base + d)

/-- `strtol` skips the `0x` of a hexadecimal number. -/
def skipHexPrefix (s : Text) : Text :=
  match s with
  | '0' :: x :: d :: _ =>
    if (x = 'x' ∨ x = 'X') ∧ (digitValue 16 d).isSome then s.drop 2 else s
  | _ => s

/-- Whether a number has a minus sign, and what follows its sign. -/
def splitSign (s : Text) : Bool × Text :=
  match s with
  | '-' :: s => (true, s)
  | '+' :: s => (false, s)
  | s => (false, s)

/-- `strtol`, which saturates at the bounds of `long`. -/
def strtol (s : Text) (base : Nat) : Int :=
  let sign := (splitSign (skipSpace s)).1
  let s := (splitSign (skipSpace s)).2
  let n : Int := readDigits base (if base = 16 then skipHexPrefix s else s) 0
  if sign then max (-n) (-0x8000000000000000) else min n 0x7FFFFFFFFFFFFFFF

/-- `std::stoi`, `none` when it throws. -/
def stoi (s : Text) : Option Int :=
  let digits := (splitSign (skipSpace s)).2
  let n := strtol s 10
  if (digits.head?.bind (digitValue 10)).isSome ∧ -0x80000000 ≤ n ∧ n < 0x80000000 then some n
  else none

/-- `strcasecmp` finds no difference. -/
def sameIgnoringCase (s t : Text) : Bool :=
  s.map Char.toLower == t.map Char.toLower

end Text

end Klc3
