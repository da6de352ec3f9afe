import Klc3.Model.Scanner
import Klc3.Verification.Loader.Passes

/-!
# Operands in the text of a line

What the patterns `O_RRR` to `O_` allow between the opcode and the end of the line, and what
`generateInstruction` makes of it.
-/

namespace Klc3

/-! ## Patterns -/

namespace Pattern

variable {s : Text}

theorem matches_oneOf {ranges : List (Char × Char)} :
    Matches (oneOf ranges) s ↔ ∃ c, (∃ r ∈ ranges, r.1 ≤ c ∧ c ≤ r.2) ∧ s = [c] := by
  simp [Matches, oneOf, Regex.Matches, CharClass.mem]

theorem matches_star_oneOf {ranges : List (Char × Char)} :
    Matches (.star (oneOf ranges)) s ↔ ∀ c ∈ s, ∃ r ∈ ranges, r.1 ≤ c ∧ c ≤ r.2 := by
  refine (Regex.matches_star_cls _).trans ?_
  simp [CharClass.mem]

theorem matches_plus_oneOf {ranges : List (Char × Char)} :
    Matches (.plus (oneOf ranges)) s ↔
      s ≠ [] ∧ ∀ c ∈ s, ∃ r ∈ ranges, r.1 ≤ c ∧ c ≤ r.2 := by
  refine (Regex.matches_plus_cls _).trans ?_
  simp [CharClass.mem]

theorem ne_of_range {ranges : List (Char × Char)} {c d : Char}
    (hc : ∃ r ∈ ranges, r.1 ≤ c ∧ c ≤ r.2) (hd : ∀ r ∈ ranges, ¬(r.1 ≤ d ∧ d ≤ r.2)) : c ≠ d := by
  rintro rfl
  obtain ⟨r, hr, hle⟩ := hc
  exact hd r hr hle

theorem matches_opt {p : Pattern} : Matches (.opt p) s ↔ s = [] ∨ p.Matches s :=
  Iff.rfl

theorem matches_seq_cons {p : Pattern} {ps : List Pattern} :
    Matches (seq (p :: ps)) s ↔ ∃ u v, p.Matches u ∧ (seq ps).Matches v ∧ s = u ++ v :=
  Iff.rfl

theorem matches_seq_nil : Matches (seq []) s ↔ s = [] :=
  Iff.rfl

theorem matches_char {c : Char} : Matches (char c) s ↔ s = [c] := by
  rw [char, matches_oneOf]
  constructor
  · rintro ⟨d, ⟨r, hr, hle⟩, rfl⟩
    rw [List.mem_singleton.1 hr] at hle
    rw [Char.le_antisymm hle.2 hle.1]
  · rintro rfl
    exact ⟨c, ⟨(c, c), by simp, Char.le_refl c, Char.le_refl c⟩, rfl⟩

def IsBlank (c : Char) : Prop :=
  c = ' ' ∨ c = '\t'

theorem matches_SPACEs : Matches (.star SPACE) s ↔ ∀ c ∈ s, IsBlank c := by
  rw [SPACE, matches_star_oneOf]
  constructor
  · intro h c hc
    obtain ⟨r, hr, hle⟩ := h c hc
    simp only [List.mem_cons, List.not_mem_nil, or_false] at hr
    rcases hr with rfl | rfl
    · exact .inl (Char.le_antisymm hle.2 hle.1)
    · exact .inr (Char.le_antisymm hle.2 hle.1)
  · intro h c hc
    rcases h c hc with rfl | rfl
    · exact ⟨(' ', ' '), by simp, by decide⟩
    · exact ⟨('\t', '\t'), by simp, by decide⟩

theorem plus_SPACE_spec (h : Matches (.plus SPACE) s) : ∀ c ∈ s, IsBlank c :=
  matches_SPACEs.1 (matches_star_oneOf.2 (matches_plus_oneOf.1 h).2)

theorem OP_SEP_spec (h : Matches OP_SEP s) :
    ∃ u v, s = u ++ ',' :: v ∧ (∀ c ∈ u, IsBlank c) ∧ ∀ c ∈ v, IsBlank c := by
  obtain ⟨u, w, hu, ⟨w', v, hw', ⟨v', e, hv, he, rfl⟩, rfl⟩, rfl⟩ := h
  rw [matches_char.1 hw', (matches_seq_nil.1 he)]
  exact ⟨u, v', by simp, matches_SPACEs.1 hu, matches_SPACEs.1 hv⟩

/-- The first character of what may follow the last operand. -/
def EndsOperand (c : Char) : Prop :=
  IsBlank c ∨ c = ';' ∨ c = '\r' ∨ c = '\n'

theorem LINEFEED_head (h : Matches LINEFEED s) :
    ∃ c t, s = c :: t ∧ (c = '\r' ∨ c = '\n') := by
  obtain ⟨u, v, hu, ⟨u', v', hu', -, rfl⟩, rfl⟩ := h
  rw [matches_char.1 hu']
  rcases matches_opt.1 hu with rfl | hu
  · exact ⟨'\n', v', rfl, .inr rfl⟩
  · rw [matches_char.1 hu]
    exact ⟨'\r', '\n' :: v', rfl, .inl rfl⟩

theorem ENDLINE_head (h : Matches ENDLINE s) : ∃ c t, s = c :: t ∧ EndsOperand c := by
  obtain ⟨line, w, hline, ⟨feed, e, hfeed, he, rfl⟩, rfl⟩ := h
  rw [matches_seq_nil.1 he, List.append_nil]
  obtain ⟨blanks, w, hblanks, ⟨comment, e, hcomment, he, rfl⟩, rfl⟩ := hline
  rw [matches_seq_nil.1 he, List.append_nil]
  cases blanks with
  | cons c blanks =>
    exact ⟨c, _, rfl, .inl (matches_SPACEs.1 hblanks c List.mem_cons_self)⟩
  | nil =>
    rcases matches_opt.1 hcomment with rfl | hcomment
    · obtain ⟨c, t, rfl, hc⟩ := LINEFEED_head hfeed
      exact ⟨c, t, rfl, .inr (.inr hc)⟩
    · obtain ⟨u, v, hu, -, rfl⟩ := hcomment
      rw [matches_char.1 hu]
      exact ⟨';', _, rfl, .inr (.inl rfl)⟩

theorem matches_letter {c : Char} :
    Matches (letter c) s ↔ s = [c.toLower] ∨ s = [c.toUpper] := by
  rw [letter, matches_oneOf]
  constructor
  · rintro ⟨d, ⟨r, hr, hle⟩, rfl⟩
    simp only [List.mem_cons, List.not_mem_nil, or_false] at hr
    rcases hr with rfl | rfl
    · exact .inl (by rw [Char.le_antisymm hle.2 hle.1])
    · exact .inr (by rw [Char.le_antisymm hle.2 hle.1])
  · rintro (rfl | rfl)
    · exact ⟨_, ⟨_, List.mem_cons_self, Char.le_refl _, Char.le_refl _⟩, rfl⟩
    · exact ⟨_, ⟨_, List.mem_cons_of_mem _ List.mem_cons_self, Char.le_refl _, Char.le_refl _⟩, rfl⟩

end Pattern

/-! ## Numbers -/

namespace Text

/-- The value of a string of digits. -/
def digitsValue (base : Nat) (digits : Text) : Nat :=
  digits.foldl (fun n c => n * base + (digitValue base c).getD 0) 0

def signedValue (base : Nat) : Text → Int
  | '-' :: digits => -(digitsValue base digits : Int)
  | digits => digitsValue base digits

/-- The number that an immediate operand stands for. -/
def literal : Text → Int
  | 'x' :: s | 'X' :: s => signedValue 16 s
  | '#' :: s => signedValue 10 s
  | s => signedValue 10 s

theorem readDigits_eq {base : Nat} {digits rest : Text} (acc : Nat)
    (hdigits : ∀ c ∈ digits, (digitValue base c).isSome)
    (hrest : ∀ c ∈ rest.head?, digitValue base c = none) :
    readDigits base (digits ++ rest) acc =
      digits.foldl (fun n c => n * base + (digitValue base c).getD 0) acc := by
  induction digits generalizing acc with
  | nil =>
    cases rest with
    | nil => rfl
    | cons c rest =>
      have hc := hrest c rfl
      simp [readDigits, hc]
  | cons c digits ih =>
    obtain ⟨d, hd⟩ := Option.isSome_iff_exists.1 (hdigits c List.mem_cons_self)
    have hrec := ih (acc * base + d) fun b hb => hdigits b (List.mem_cons_of_mem c hb)
    simp only [List.cons_append, readDigits, hd, List.foldl_cons, Option.getD_some]
    exact hrec

theorem le_toNat {c d : Char} (h : c ≤ d) : c.toNat ≤ d.toNat :=
  h

theorem digitValue_isSome_of_decimal {c : Char} (h : '0' ≤ c ∧ c ≤ '9') {base : Nat}
    (hbase : 10 ≤ base) : (digitValue base c).isSome := by
  have hle : c.toNat ≤ 57 := le_toNat h.2
  unfold digitValue
  simp only [h, and_self, if_true]
  rw [if_pos (by omega)]
  rfl

theorem digitValue_isSome_of_hex {c : Char}
    (h : ('0' ≤ c ∧ c ≤ '9') ∨ ('a' ≤ c ∧ c ≤ 'f') ∨ ('A' ≤ c ∧ c ≤ 'F')) :
    (digitValue 16 c).isSome := by
  unfold digitValue
  have inRange : ∀ d, d < 16 → (if d < 16 then some d else none).isSome := by
    intro d hd
    simp [hd]
  apply inRange
  rcases h with h | h | h
  · have hle : c.toNat ≤ 57 := le_toNat h.2
    rw [if_pos h]
    omega
  · have hle : c.toNat ≤ 102 := le_toNat h.2
    have hge : 97 ≤ c.toNat := le_toNat h.1
    have hz : c ≤ 'z' := Char.le_trans h.2 (by decide)
    have h9 : ¬('0' ≤ c ∧ c ≤ '9') := by
      intro h9
      have hle9 : c.toNat ≤ 57 := le_toNat h9.2
      omega
    rw [if_neg h9, if_pos ⟨h.1, hz⟩]
    omega
  · have hle : c.toNat ≤ 70 := le_toNat h.2
    have hge : 65 ≤ c.toNat := le_toNat h.1
    have hZ : c ≤ 'Z' := Char.le_trans h.2 (by decide)
    have h9 : ¬('0' ≤ c ∧ c ≤ '9') := by
      intro h9
      have hle9 : c.toNat ≤ 57 := le_toNat h9.2
      omega
    have ha : ¬('a' ≤ c ∧ c ≤ 'z') := by
      intro ha
      have hgea : 97 ≤ c.toNat := le_toNat ha.1
      omega
    rw [if_neg h9, if_neg ha, if_pos ⟨h.1, hZ⟩]
    omega

theorem digitValue_isSome_mono {base base' : Nat} (hle : base ≤ base') {c : Char}
    (h : (digitValue base c).isSome) : (digitValue base' c).isSome := by
  unfold digitValue at h ⊢
  dsimp only at h ⊢
  generalize (if '0' ≤ c ∧ c ≤ '9' then c.toNat - 48 else _) = d at h ⊢
  by_cases hlt : d < base
  · rw [if_pos (Nat.lt_of_lt_of_le hlt hle)]
    rfl
  · rw [if_neg hlt] at h
    cases h

theorem ne_of_digitValue {base : Nat} (hbase : base ≤ 16) {c d : Char}
    (h : (digitValue base c).isSome) (hd : digitValue 16 d = none) : c ≠ d := by
  rintro rfl
  have hsome := digitValue_isSome_mono hbase h
  rw [hd] at hsome
  cases hsome

/-- A digit is neither a space nor a sign nor the mark of a number. -/
theorem digitValue_isSome {base : Nat} (hbase : base ≤ 16) {c : Char}
    (h : (digitValue base c).isSome) :
    isspace c = false ∧ c ≠ '-' ∧ c ≠ '+' ∧ c ≠ 'x' ∧ c ≠ 'X' ∧ c ≠ '#' := by
  have hnot : ∀ d, digitValue 16 d = none → c ≠ d := fun d => ne_of_digitValue hbase h
  refine ⟨?_, hnot _ (by decide), hnot _ (by decide), hnot _ (by decide), hnot _ (by decide),
    hnot _ (by decide)⟩
  have hspaces : c ≠ ' ' ∧ c ≠ '\t' ∧ c ≠ '\n' ∧ c ≠ '\x0b' ∧ c ≠ '\x0c' ∧ c ≠ '\r' :=
    ⟨hnot _ (by decide), hnot _ (by decide), hnot _ (by decide), hnot _ (by decide),
      hnot _ (by decide), hnot _ (by decide)⟩
  simpa [isspace, and_assoc] using hspaces

theorem digitValue_none_of_ends {base : Nat} (hbase : base ≤ 16) {c : Char}
    (h : Pattern.EndsOperand c) : digitValue base c = none := by
  have hnone : digitValue 16 c = none := by
    rcases h with (rfl | rfl) | rfl | rfl | rfl <;> decide
  cases hvalue : digitValue base c with
  | none => rfl
  | some d =>
    have hsome := digitValue_isSome_mono hbase (Option.isSome_of_eq_some hvalue)
    rw [hnone] at hsome
    cases hsome

theorem skipHexPrefix_eq {s : Text} (h : ∀ c ∈ s.tail.head?, c ≠ 'x' ∧ c ≠ 'X') :
    skipHexPrefix s = s := by
  unfold skipHexPrefix
  split
  · rename_i x d rest
    have hx := h x rfl
    simp [hx]
  · rfl

theorem splitSign_eq {c : Char} (hminus : c ≠ '-') (hplus : c ≠ '+') (s : Text) :
    splitSign (c :: s) = (false, c :: s) := by
  unfold splitSign
  split
  · rename_i heq
    exact absurd (List.cons.inj heq).1 hminus
  · rename_i heq
    exact absurd (List.cons.inj heq).1 hplus
  · rfl

theorem signedValue_eq {c : Char} (hminus : c ≠ '-') (base : Nat) (s : Text) :
    signedValue base (c :: s) = digitsValue base (c :: s) := by
  unfold signedValue
  split
  · rename_i heq
    exact absurd (List.cons.inj heq).1 hminus
  · rfl

/-- A number with an optional sign that ends at a character which is no digit. -/
theorem strtol_eq {base : Nat} (hbase : base ≤ 16) {s digits rest : Text}
    (hs : s = digits ∨ s = '-' :: digits) (hne : digits ≠ [])
    (hdigits : ∀ c ∈ digits, (digitValue base c).isSome)
    (hrest : ∀ c ∈ rest.head?, Pattern.EndsOperand c) :
    strtol (s ++ rest) base =
      max (min (signedValue base s) 0x7FFFFFFFFFFFFFFF) (-0x8000000000000000) := by
  have hend : ∀ c ∈ rest.head?, digitValue base c = none := fun c hc =>
    digitValue_none_of_ends hbase (hrest c hc)
  obtain ⟨d, ds, rfl⟩ := List.exists_cons_of_ne_nil hne
  have hd := digitValue_isSome hbase (hdigits d List.mem_cons_self)
  have hsame : (if base = 16 then skipHexPrefix (d :: ds ++ rest) else d :: ds ++ rest) =
      d :: ds ++ rest := by
    split
    · apply skipHexPrefix_eq
      intro c hc
      cases ds with
      | nil => rcases hrest c hc with (rfl | rfl) | rfl | rfl | rfl <;> decide
      | cons c' ds =>
        cases hc
        have hc := digitValue_isSome hbase (hdigits c (by simp))
        exact ⟨hc.2.2.2.1, hc.2.2.2.2.1⟩
    · rfl
  have hvalue : readDigits base (d :: ds ++ rest) 0 = digitsValue base (d :: ds) :=
    readDigits_eq 0 hdigits hend
  rcases hs with rfl | rfl
  · have hskip : skipSpace (d :: ds ++ rest) = d :: ds ++ rest := by
      simp [skipSpace, hd.1]
    have hsign : splitSign (d :: ds ++ rest) = (false, d :: ds ++ rest) :=
      splitSign_eq hd.2.1 hd.2.2.1 _
    unfold strtol
    dsimp only
    rw [hskip, hsign, hsame, hvalue, signedValue_eq hd.2.1, if_neg (by simp)]
    omega
  · have hskip : skipSpace ('-' :: d :: ds ++ rest) = '-' :: (d :: ds ++ rest) := by
      simp [skipSpace, isspace]
    have hsign : splitSign ('-' :: (d :: ds ++ rest)) = (true, d :: ds ++ rest) := rfl
    unfold strtol
    dsimp only
    rw [hskip, hsign, hsame, hvalue, if_pos rfl]
    simp only [signedValue]
    omega

theorem strchr_append {c : Char} {s : Text} (hs : c ∉ s) (t : Text) :
    strchr (s ++ c :: t) c = some (c :: t) := by
  unfold strchr
  have hdrop : (s ++ c :: t).dropWhile (· != c) = c :: t := by
    rw [List.dropWhile_append_of_pos]
    · simp
    · intro d hd
      have hne : d ≠ c := fun heq => hs (heq ▸ hd)
      simpa using hne
  rw [hdrop]

end Text

/-! ## Immediates -/

namespace Pattern

theorem IMMED_spec {s : Text} (h : Matches IMMED s) :
    (∃ c t digits, s = c :: t ∧ (c = 'x' ∨ c = 'X') ∧ (t = digits ∨ t = '-' :: digits) ∧
        digits ≠ [] ∧ ∀ d ∈ digits, (Text.digitValue 16 d).isSome) ∨
      ∃ t digits, (s = t ∨ s = '#' :: t) ∧ (t = digits ∨ t = '-' :: digits) ∧
        digits ≠ [] ∧ ∀ d ∈ digits, (Text.digitValue 10 d).isSome := by
  rcases h with h | h
  · left
    obtain ⟨x, w, hx, ⟨sign, w, hsign, ⟨digits, e, hdigits, he, rfl⟩, rfl⟩, rfl⟩ := h
    rw [matches_seq_nil.1 he, List.append_nil]
    obtain ⟨hne, hdigits⟩ := matches_plus_oneOf.1 hdigits
    have hall : ∀ d ∈ digits, (Text.digitValue 16 d).isSome := by
      intro d hd
      apply Text.digitValue_isSome_of_hex
      simpa using hdigits d hd
    have hletter : x = ['x'] ∨ x = ['X'] := matches_letter.1 hx
    have hrest : sign ++ digits = digits ∨ sign ++ digits = '-' :: digits := by
      rcases matches_opt.1 hsign with rfl | hsign
      · exact .inl rfl
      · rw [matches_char.1 hsign]
        exact .inr rfl
    rcases hletter with rfl | rfl
    · exact ⟨'x', _, digits, rfl, .inl rfl, hrest, hne, hall⟩
    · exact ⟨'X', _, digits, rfl, .inr rfl, hrest, hne, hall⟩
  · right
    obtain ⟨hash, w, hhash, ⟨sign, w, hsign, ⟨digits, e, hdigits, he, rfl⟩, rfl⟩, rfl⟩ := h
    rw [matches_seq_nil.1 he, List.append_nil]
    obtain ⟨hne, hdigits⟩ := matches_plus_oneOf.1 hdigits
    have hall : ∀ d ∈ digits, (Text.digitValue 10 d).isSome := by
      intro d hd
      refine Text.digitValue_isSome_of_decimal ?_ le_rfl
      simpa using hdigits d hd
    refine ⟨sign ++ digits, digits, ?_, ?_, hne, hall⟩
    · rcases matches_opt.1 hhash with rfl | hhash
      · exact .inl rfl
      · rw [matches_char.1 hhash]
        exact .inr rfl
    · rcases matches_opt.1 hsign with rfl | hsign
      · exact .inl rfl
      · rw [matches_char.1 hsign]
        exact .inr rfl

end Pattern

namespace Lexer

/-- The number that `readVal` starts from. -/
def rawValue (s : Text) : Int :=
  match s with
  | 'x' :: s | 'X' :: s => Text.strtol s 16
  | '#' :: s => Text.strtol s 10
  | s => Text.strtol s 10

section Plain

variable {c : Char} (hx : c ≠ 'x') (hX : c ≠ 'X') (hhash : c ≠ '#') (s : Text)

include hx hX hhash

theorem rawValue_eq : rawValue (c :: s) = Text.strtol (c :: s) 10 := by
  unfold rawValue
  split
  · rename_i heq
    exact absurd (List.cons.inj heq).1 hx
  · rename_i heq
    exact absurd (List.cons.inj heq).1 hX
  · rename_i heq
    exact absurd (List.cons.inj heq).1 hhash
  · rfl

theorem literal_eq : Text.literal (c :: s) = Text.signedValue 10 (c :: s) := by
  unfold Text.literal
  split
  · rename_i heq
    exact absurd (List.cons.inj heq).1 hx
  · rename_i heq
    exact absurd (List.cons.inj heq).1 hX
  · rename_i heq
    exact absurd (List.cons.inj heq).1 hhash
  · rfl

end Plain

/-- What `readVal` accepts is not far from the range of the field, and it is stored modulo
the width of the field. -/
theorem readVal_spec {s : Text} {bits : Nat} (hbits : bits ≤ 16) {v : Int}
    (hv : readVal s bits = some v) :
    (-0x8000 ≤ rawValue s ∧ rawValue s < 0x20000) ∧
      v % (2 : Int) ^ bits = rawValue s % (2 : Int) ^ bits := by
  have hdef : readVal s bits =
      (let w := if 0x8000 ≤ rawValue s ∧ rawValue s < 0x10000 then rawValue s - 0x10000
        else rawValue s
      if w < -(2 : Int) ^ (bits - 1) ∨ (2 : Int) ^ bits ≤ w then none
      else if (2 : Int) ^ (bits - 1) ≤ w % (2 : Int) ^ bits then
        some (w % (2 : Int) ^ bits - (2 : Int) ^ bits)
      else some w) := rfl
  rw [hdef] at hv
  generalize hw : (if 0x8000 ≤ rawValue s ∧ rawValue s < 0x10000 then rawValue s - 0x10000
    else rawValue s) = w at hv
  dsimp only at hv
  have hdvd : (2 : Int) ^ bits ∣ 0x10000 := pow_dvd_pow 2 hbits
  have hmod : w % (2 : Int) ^ bits = rawValue s % (2 : Int) ^ bits := by
    rw [← hw]
    split
    · exact Int.emod_eq_emod_iff_emod_sub_eq_zero.2 (by
        rw [show rawValue s - 0x10000 - rawValue s = -0x10000 by omega]
        exact Int.emod_eq_zero_of_dvd (Int.dvd_neg.2 hdvd))
    · rfl
  have hle : (2 : Int) ^ bits ≤ 0x10000 := Int.le_of_dvd (by decide) hdvd
  have hhalf : (2 : Int) ^ (bits - 1) ≤ 0x8000 :=
    Int.le_of_dvd (by decide) (pow_dvd_pow 2 (by omega : bits - 1 ≤ 15))
  split at hv
  · cases hv
  · rename_i hrange
    have hraw : -0x8000 ≤ rawValue s ∧ rawValue s < 0x20000 := by
      split at hw <;> omega
    refine ⟨hraw, ?_⟩
    split at hv
    · cases hv
      rw [Int.sub_emod_right, Int.emod_emod, hmod]
    · cases hv
      exact hmod

theorem rawValue_literal {s rest : Text} (h : Pattern.Matches Pattern.IMMED s)
    (hrest : ∃ c t, rest = c :: t ∧ Pattern.EndsOperand c) :
    rawValue (s ++ rest) =
      max (min (Text.literal s) 0x7FFFFFFFFFFFFFFF) (-0x8000000000000000) := by
  have hrest : ∀ c ∈ rest.head?, Pattern.EndsOperand c := by
    obtain ⟨c, t, rfl, hc⟩ := hrest
    rintro d ⟨⟩
    exact hc
  rcases Pattern.IMMED_spec h with ⟨c, t, digits, rfl, hc, ht, hne, hdigits⟩ |
    ⟨t, digits, hs, ht, hne, hdigits⟩
  · have hvalue := Text.strtol_eq le_rfl ht hne hdigits hrest
    rcases hc with rfl | rfl
    · exact hvalue
    · exact hvalue
  · have hvalue := Text.strtol_eq (by decide) ht hne hdigits hrest
    rcases hs with rfl | rfl
    · -- The first character is a digit or a sign.
      obtain ⟨c, t, rfl, hx, hX, hhash⟩ : ∃ c t', s = c :: t' ∧ c ≠ 'x' ∧ c ≠ 'X' ∧ c ≠ '#' := by
        rcases ht with rfl | rfl
        · obtain ⟨c, t, rfl⟩ := List.exists_cons_of_ne_nil hne
          have hc := Text.digitValue_isSome (by decide) (hdigits c List.mem_cons_self)
          exact ⟨c, t, rfl, hc.2.2.2⟩
        · exact ⟨'-', digits, rfl, by decide⟩
      rw [List.cons_append, rawValue_eq hx hX hhash, literal_eq hx hX hhash]
      exact hvalue
    · exact hvalue

/-- An accepted constant is the literal, modulo the width of the field. -/
theorem readVal_literal {s rest : Text} (h : Pattern.Matches Pattern.IMMED s)
    (hrest : ∃ c t, rest = c :: t ∧ Pattern.EndsOperand c) {bits : Nat} (hbits : bits ≤ 16)
    {v : Int} (hv : readVal (s ++ rest) bits = some v) :
    BitVec.ofInt bits v = BitVec.ofInt bits (Text.literal s) := by
  obtain ⟨hrange, hmod⟩ := readVal_spec hbits hv
  -- A saturated number is out of range.
  have hraw : rawValue (s ++ rest) = Text.literal s := by
    rw [rawValue_literal h hrest] at hrange ⊢
    omega
  rw [hraw] at hmod
  apply BitVec.eq_of_toNat_eq
  rw [BitVec.toNat_ofInt, BitVec.toNat_ofInt]
  push_cast
  rw [hmod]

end Lexer

/-! ## Operands -/

/-- An operand as it is written. -/
inductive Operand where
  | reg (r : Fin 8)
  | imm (s : Text)
  | label (s : Text)

/-- The formats without a string, by the operands that they take. -/
def OperandType.Fits : OperandType → List Operand → Prop
  | .RRR, [.reg _, .reg _, .reg _] => True
  | .RRI, [.reg _, .reg _, .imm _] => True
  | .RR, [.reg _, .reg _] => True
  | .RI, [.reg _, .imm _] => True
  | .RL, [.reg _, .label _] => True
  | .R, [.reg _] => True
  | .I, [.imm _] => True
  | .L, [.label _] => True
  | .none, [] => True
  | _, _ => False

namespace Operand

open Pattern

variable {o o' : Operand} {os : List Operand} {s t : Text} {r : Fin 8}

def Spelled : Operand → Text → Prop
  | .reg r, s => ∃ c, (c = 'r' ∨ c = 'R') ∧ s = [c, Char.ofNat (48 + r.val)]
  | .imm s', s => s = s' ∧ IMMED.Matches s
  | .label s', s => s = s' ∧ LABEL.Matches s

/-- Operands up to the end of the line. -/
inductive Listed : List Operand → Text → Prop where
  | last {o s e} : o.Spelled s → ENDLINE.Matches e → Listed [o] (s ++ e)
  | more {o s sep os t} : o.Spelled s → OP_SEP.Matches sep → Listed os t →
      Listed (o :: os) (s ++ (sep ++ t))

/-- The text of a line after its opcode. -/
def LineText : List Operand → Text → Prop
  | [], text => ENDLINE.Matches text
  | os, text => ∃ blanks t, Matches (.plus SPACE) blanks ∧ Listed os t ∧ text = blanks ++ t

theorem LABEL_spec (h : LABEL.Matches s) :
    s ≠ [] ∧ ∀ c ∈ s, c ≠ ',' ∧ c ≠ ';' ∧ c ≠ ':' ∧ Text.isspace c = false := by
  obtain ⟨first, w, hfirst, ⟨rest, e, hrest, he, rfl⟩, rfl⟩ := h
  rw [matches_seq_nil.1 he, List.append_nil]
  obtain ⟨c, hc, rfl⟩ := matches_oneOf.1 hfirst
  refine ⟨by simp, ?_⟩
  intro d hd
  have hrange : ∃ r ∈ [('A', 'Z'), ('a', 'z'), ('_', '_'), ('0', '9')], r.1 ≤ d ∧ d ≤ r.2 := by
    rcases List.mem_cons.1 hd with rfl | hd
    · obtain ⟨r, hr, hle⟩ := hc
      refine ⟨r, ?_, hle⟩
      simp only [List.mem_cons, List.not_mem_nil, or_false] at hr ⊢
      rcases hr with hr | hr
      · exact .inl hr
      · exact .inr (.inl hr)
    · exact matches_star_oneOf.1 hrest d hd
  have hspaces : d ≠ ' ' ∧ d ≠ '\t' ∧ d ≠ '\n' ∧ d ≠ '\x0b' ∧ d ≠ '\x0c' ∧ d ≠ '\r' :=
    ⟨ne_of_range hrange (by decide), ne_of_range hrange (by decide),
      ne_of_range hrange (by decide), ne_of_range hrange (by decide),
      ne_of_range hrange (by decide), ne_of_range hrange (by decide)⟩
  refine ⟨ne_of_range hrange (by decide), ne_of_range hrange (by decide),
    ne_of_range hrange (by decide), ?_⟩
  simpa [Text.isspace, and_assoc] using hspaces

/-- An immediate starts with no space and holds no comma. -/
theorem IMMED_head (h : IMMED.Matches s) :
    ∃ c t, s = c :: t ∧ Text.isspace c = false ∧ ',' ∉ s := by
  have noComma : ∀ {base : Nat} {digits : Text}, base ≤ 16 →
      (∀ d ∈ digits, (Text.digitValue base d).isSome) → ',' ∉ digits := by
    intro base digits hbase hdigits hmem
    exact Text.ne_of_digitValue hbase (hdigits ',' hmem) (by decide) rfl
  rcases IMMED_spec h with ⟨c, t, digits, rfl, hc, ht, hne, hdigits⟩ |
    ⟨t, digits, hs, ht, hne, hdigits⟩
  · have hcomma := noComma le_rfl hdigits
    refine ⟨c, t, rfl, ?_, ?_⟩
    · rcases hc with rfl | rfl <;> decide
    · rcases hc with rfl | rfl <;> rcases ht with rfl | rfl <;> simpa using hcomma
  · have hcomma := noComma (by decide) hdigits
    have hcomma' : ',' ∉ s := by
      rcases hs with rfl | rfl <;> rcases ht with rfl | rfl <;> simpa using hcomma
    obtain ⟨d, ds, rfl⟩ := List.exists_cons_of_ne_nil hne
    have hd := Text.digitValue_isSome (by decide) (hdigits d List.mem_cons_self)
    rcases hs with rfl | rfl
    · rcases ht with rfl | rfl
      · exact ⟨d, ds, rfl, hd.1, hcomma'⟩
      · exact ⟨'-', d :: ds, rfl, by decide, hcomma'⟩
    · exact ⟨'#', t, rfl, by decide, hcomma'⟩

/-- An operand starts with no space and holds no comma. -/
theorem Spelled.head (h : o.Spelled s) :
    ∃ c t, s = c :: t ∧ Text.isspace c = false ∧ ',' ∉ s := by
  cases o with
  | reg r =>
    obtain ⟨c, hc, rfl⟩ := h
    have hdigit : ∀ r : Fin 8, ',' ≠ Char.ofNat (48 + r.val) := by decide
    refine ⟨c, _, rfl, ?_, ?_⟩
    · rcases hc with rfl | rfl <;> decide
    · rcases hc with rfl | rfl <;> simp [hdigit r]
  | imm s' => exact IMMED_head h.2
  | label s' =>
    obtain ⟨hne, hall⟩ := LABEL_spec h.2
    obtain ⟨c, t, rfl⟩ := List.exists_cons_of_ne_nil hne
    exact ⟨c, t, rfl, (hall c List.mem_cons_self).2.2.2, fun hmem => (hall ',' hmem).1 rfl⟩

theorem Listed.head (h : Listed os t) : ∃ c u, t = c :: u ∧ Text.isspace c = false := by
  cases h with
  | last hs he =>
    obtain ⟨c, u, rfl, hc, -⟩ := hs.head
    exact ⟨c, _, rfl, hc⟩
  | more hs hsep hrest =>
    obtain ⟨c, u, rfl, hc, -⟩ := hs.head
    exact ⟨c, _, rfl, hc⟩

theorem isspace_of_blank {c : Char} (h : IsBlank c) : Text.isspace c = true := by
  rcases h with rfl | rfl <;> decide

theorem skipSpace_append {blanks : Text} (hblanks : ∀ c ∈ blanks, IsBlank c)
    (h : Listed os t) : Text.skipSpace (blanks ++ t) = t := by
  obtain ⟨c, u, rfl, hc⟩ := h.head
  unfold Text.skipSpace
  rw [List.dropWhile_append_of_pos fun c hc => isspace_of_blank (hblanks c hc)]
  simp [hc]

theorem LineText.skipSpace (h : LineText (o :: os) t) :
    Listed (o :: os) (Text.skipSpace t) := by
  obtain ⟨blanks, t, hblanks, hlist, rfl⟩ := h
  rw [skipSpace_append (plus_SPACE_spec hblanks) hlist]
  exact hlist

/-- The operand after a comma. -/
theorem Listed.next (h : Listed (o :: o' :: os) t) :
    ∃ t', Lexer.nextOperand t = some t' ∧ Listed (o' :: os) t' := by
  cases h with
  | more hs hsep hrest =>
    rename_i s sep t
    obtain ⟨c, u, hhead, -, hcomma⟩ := hs.head
    obtain ⟨u, v, rfl, hu, hv⟩ := OP_SEP_spec hsep
    refine ⟨t, ?_, hrest⟩
    have hbefore : ',' ∉ s ++ u := by
      intro hmem
      rcases List.mem_append.1 hmem with hmem | hmem
      · exact hcomma hmem
      · rcases hu ',' hmem with h | h <;> cases h
    have hassoc : s ++ (u ++ ',' :: v ++ t) = (s ++ u) ++ ',' :: (v ++ t) := by simp
    rw [Lexer.nextOperand, hassoc, Text.strchr_append hbefore]
    simp only [Option.map_some, List.drop_succ_cons, List.drop_zero]
    rw [skipSpace_append hv hrest]

theorem Listed.readReg (h : Listed (.reg r :: os) t) : Lexer.readReg (some t) = .ok (r.val : Int) := by
  have hval : ∀ r : Fin 8, (((Char.ofNat (48 + r.val)).toNat : Int) - 48) = (r.val : Int) := by decide
  cases h with
  | last hs he =>
    obtain ⟨c, -, rfl⟩ := hs
    exact congrArg Except.ok (hval r)
  | more hs hsep hrest =>
    obtain ⟨c, -, rfl⟩ := hs
    exact congrArg Except.ok (hval r)

theorem Listed.imm_spec (h : Listed [.imm s] t) :
    ∃ rest, t = s ++ rest ∧ IMMED.Matches s ∧ ∃ c u, rest = c :: u ∧ EndsOperand c := by
  cases h with
  | last hs he =>
    obtain ⟨rfl, himm⟩ := hs
    exact ⟨_, rfl, himm, ENDLINE_head he⟩
  | more hs hsep hrest => cases hrest

theorem Listed.label_spec (h : Listed [.label s] t) :
    ∃ rest, t = s ++ rest ∧ LABEL.Matches s ∧ ∃ c u, rest = c :: u ∧ EndsOperand c := by
  cases h with
  | last hs he =>
    obtain ⟨rfl, hlabel⟩ := hs
    exact ⟨_, rfl, hlabel, ENDLINE_head he⟩
  | more hs hsep hrest => cases hrest

/-! ## Every line has its operands -/

section Existence

variable {p : Pattern} {ps : List Pattern} {α β : Type} {f : α → Operand} {g : β → List Operand}

theorem REGISTER_spec (h : REGISTER.Matches s) : ∃ r, (Operand.reg r).Spelled s := by
  obtain ⟨x, w, hx, ⟨d, e, hd, he, rfl⟩, rfl⟩ := h
  rw [matches_seq_nil.1 he, List.append_nil]
  obtain ⟨d, ⟨range, hrange, hle⟩, rfl⟩ := matches_oneOf.1 hd
  rw [List.mem_singleton.1 hrange] at hle
  have hge : 48 ≤ d.toNat := Text.le_toNat hle.1
  have hlt : d.toNat ≤ 55 := Text.le_toNat hle.2
  have hchar : Char.ofNat (48 + (d.toNat - 48)) = d := by
    rw [Nat.add_sub_cancel' hge, Char.ofNat_toNat]
  have hletter : x = ['r'] ∨ x = ['R'] := matches_letter.1 hx
  refine ⟨⟨d.toNat - 48, by omega⟩, ?_⟩
  rcases hletter with rfl | rfl
  · exact ⟨'r', .inl rfl, by simp [hchar]⟩
  · exact ⟨'R', .inr rfl, by simp [hchar]⟩

theorem IMMED_spelled (h : IMMED.Matches s) : ∃ a, (Operand.imm a).Spelled s :=
  ⟨s, rfl, h⟩

theorem LABEL_spelled (h : LABEL.Matches s) : ∃ a, (Operand.label a).Spelled s :=
  ⟨s, rfl, h⟩

theorem listed_last (hp : ∀ {s}, p.Matches s → ∃ a, (f a).Spelled s)
    (h : (seq [p, ENDLINE]).Matches t) : ∃ a, Listed [f a] t := by
  obtain ⟨s, w, hs, ⟨e, n, he, hn, rfl⟩, rfl⟩ := h
  rw [matches_seq_nil.1 hn, List.append_nil]
  obtain ⟨a, ha⟩ := hp hs
  exact ⟨a, .last ha he⟩

theorem listed_more (hp : ∀ {s}, p.Matches s → ∃ a, (f a).Spelled s)
    (hps : ∀ {t}, (seq ps).Matches t → ∃ b, Listed (g b) t)
    (h : (seq (p :: OP_SEP :: ps)).Matches t) : ∃ a b, Listed (f a :: g b) t := by
  obtain ⟨s, w, hs, ⟨sep, t, hsep, ht, rfl⟩, rfl⟩ := h
  obtain ⟨a, ha⟩ := hp hs
  obtain ⟨b, hb⟩ := hps ht
  exact ⟨a, b, .more ha hsep hb⟩

theorem listed_two {q : Pattern} {k : β → Operand} (hp : ∀ {s}, p.Matches s → ∃ a, (f a).Spelled s)
    (hq : ∀ {s}, q.Matches s → ∃ b, (k b).Spelled s)
    (h : (seq [p, OP_SEP, p, OP_SEP, q, ENDLINE]).Matches t) :
    ∃ a a' b, Listed [f a, f a', k b] t := by
  have hrest : ∀ {t}, (seq [p, OP_SEP, q, ENDLINE]).Matches t →
      ∃ c : α × β, Listed [f c.1, k c.2] t := by
    intro t ht
    obtain ⟨a, b, hab⟩ := listed_more hp (listed_last hq) ht
    exact ⟨(a, b), hab⟩
  obtain ⟨a, c, hac⟩ := listed_more hp hrest h
  exact ⟨a, c.1, c.2, hac⟩

end Existence

theorem exists_lineText {type : OperandType} (hS : type ≠ .S)
    (h : (ofOperands type).Matches t) : ∃ os, type.Fits os ∧ LineText os t := by
  have line : ∀ {ops : List Pattern}, (operandLine ops).Matches t →
      ∃ blanks u, Matches (.plus SPACE) blanks ∧ (seq (ops ++ [ENDLINE])).Matches u ∧
        t = blanks ++ u := fun h => h
  cases type with
  | RRR =>
    obtain ⟨blanks, u, hblanks, hu, rfl⟩ := line h
    obtain ⟨r1, r2, r3, hlist⟩ := listed_two REGISTER_spec REGISTER_spec hu
    exact ⟨[.reg r1, .reg r2, .reg r3], trivial, blanks, u, hblanks, hlist, rfl⟩
  | RRI =>
    obtain ⟨blanks, u, hblanks, hu, rfl⟩ := line h
    obtain ⟨r1, r2, n, hlist⟩ := listed_two REGISTER_spec IMMED_spelled hu
    exact ⟨[.reg r1, .reg r2, .imm n], trivial, blanks, u, hblanks, hlist, rfl⟩
  | RR =>
    obtain ⟨blanks, u, hblanks, hu, rfl⟩ := line h
    obtain ⟨r1, r2, hlist⟩ := listed_more REGISTER_spec (listed_last REGISTER_spec) hu
    exact ⟨[.reg r1, .reg r2], trivial, blanks, u, hblanks, hlist, rfl⟩
  | RI =>
    obtain ⟨blanks, u, hblanks, hu, rfl⟩ := line h
    obtain ⟨r1, n, hlist⟩ := listed_more REGISTER_spec (listed_last IMMED_spelled) hu
    exact ⟨[.reg r1, .imm n], trivial, blanks, u, hblanks, hlist, rfl⟩
  | RL =>
    obtain ⟨blanks, u, hblanks, hu, rfl⟩ := line h
    obtain ⟨r1, n, hlist⟩ := listed_more REGISTER_spec (listed_last LABEL_spelled) hu
    exact ⟨[.reg r1, .label n], trivial, blanks, u, hblanks, hlist, rfl⟩
  | R =>
    obtain ⟨blanks, u, hblanks, hu, rfl⟩ := line h
    obtain ⟨r1, hlist⟩ := listed_last REGISTER_spec hu
    exact ⟨[.reg r1], trivial, blanks, u, hblanks, hlist, rfl⟩
  | I =>
    obtain ⟨blanks, u, hblanks, hu, rfl⟩ := line h
    obtain ⟨n, hlist⟩ := listed_last IMMED_spelled hu
    exact ⟨[.imm n], trivial, blanks, u, hblanks, hlist, rfl⟩
  | L =>
    obtain ⟨blanks, u, hblanks, hu, rfl⟩ := line h
    obtain ⟨n, hlist⟩ := listed_last LABEL_spelled hu
    exact ⟨[.label n], trivial, blanks, u, hblanks, hlist, rfl⟩
  | S => exact absurd rfl hS
  | none => exact ⟨[], trivial, h⟩

end Operand

end Klc3
