import Klc3.Verification.Loader.Operands

/-!
# String literals

The pattern of a string lets any quote after a backslash go on, and `writeSTRINGZ` reads
pairs of a backslash and a character. Both agree on the strings without a quote or a
backslash outside such a pair.
-/

namespace Klc3

/-- The content of a string: characters other than quotes and backslashes, and pairs of a
backslash and any character. -/
inductive Escaped : Text → Prop where
  | nil : Escaped []
  | plain {c : Char} {s : Text} (hquote : c ≠ '"') (hslash : c ≠ '\\') (h : Escaped s) :
      Escaped (c :: s)
  | pair (c : Char) {s : Text} (h : Escaped s) : Escaped ('\\' :: c :: s)

namespace Pattern

/-- A string whose content is escaped. -/
def ESCAPED_STRING : Pattern :=
  seq [char '"', .star (.alt (noneOf [('"', '"'), ('\\', '\\')]) (seq [char '\\', noneOf []])),
    char '"']

/-- All characters but a few. -/
theorem matches_noneOf (cs : List Char) {s : Text} :
    Matches (noneOf (cs.map fun c => (c, c))) s ↔ ∃ c, c ∉ cs ∧ s = [c] := by
  constructor
  · rintro ⟨c, hc, rfl⟩
    refine ⟨c, ?_, rfl⟩
    intro hmem
    have hin : (cs.map fun c => (c, c)).any (fun r => r.1 ≤ c && c ≤ r.2) = true :=
      List.any_eq_true.2 ⟨(c, c), List.mem_map.2 ⟨c, hmem, rfl⟩, by simp⟩
    unfold CharClass.mem at hc
    rw [hin] at hc
    cases hc
  · rintro ⟨c, hc, rfl⟩
    refine ⟨c, ?_, rfl⟩
    have hout : (cs.map fun c => (c, c)).any (fun r => r.1 ≤ c && c ≤ r.2) = false := by
      apply List.any_eq_false.2
      intro r hr hle
      obtain ⟨d, hd, rfl⟩ := List.mem_map.1 hr
      simp only [Bool.and_eq_true, decide_eq_true_eq] at hle
      exact hc (Char.le_antisymm hle.2 hle.1 ▸ hd)
    unfold CharClass.mem
    rw [hout]
    rfl

theorem matches_unquoted {s : Text} :
    Matches (noneOf [('"', '"')]) s ↔ ∃ c, c ≠ '"' ∧ s = [c] := by
  simpa using matches_noneOf ['"']

theorem matches_plain {s : Text} :
    Matches (noneOf [('"', '"'), ('\\', '\\')]) s ↔ ∃ c, (c ≠ '"' ∧ c ≠ '\\') ∧ s = [c] := by
  simpa using matches_noneOf ['"', '\\']

theorem matches_pair {s : Text} :
    Matches (seq [char '\\', noneOf []]) s ↔ ∃ c, s = ['\\', c] := by
  have hany : ∀ {u : Text}, Matches (noneOf []) u ↔ ∃ c, u = [c] := by
    simpa using fun {u : Text} => matches_noneOf [] (s := u)
  simp only [matches_seq_cons, matches_seq_nil, matches_char, hany]
  constructor
  · rintro ⟨u, v, rfl, ⟨u', v', ⟨c, rfl⟩, rfl, rfl⟩, rfl⟩
    exact ⟨c, rfl⟩
  · rintro ⟨c, rfl⟩
    exact ⟨_, _, rfl, ⟨_, _, ⟨c, rfl⟩, rfl, rfl⟩, rfl⟩

theorem matches_content {s : Text} :
    Matches (.star (.alt (noneOf [('"', '"'), ('\\', '\\')]) (seq [char '\\', noneOf []]))) s ↔
      Escaped s := by
  constructor
  · rintro ⟨parts, hparts, rfl⟩
    induction parts with
    | nil => exact .nil
    | cons part parts ih =>
      have hrest := ih fun p hp => hparts p (List.mem_cons_of_mem part hp)
      rcases hparts part List.mem_cons_self with hplain | hpair
      · obtain ⟨c, ⟨hquote, hslash⟩, rfl⟩ := matches_plain.1 hplain
        exact .plain hquote hslash hrest
      · obtain ⟨c, rfl⟩ := matches_pair.1 hpair
        exact .pair c hrest
  · intro h
    induction h with
    | nil => exact Regex.matches_star_nil _ _
    | @plain c s hquote hslash h ih =>
      exact Regex.matches_star_append _ (u := [c])
        (.inl (matches_plain.2 ⟨c, ⟨hquote, hslash⟩, rfl⟩)) ih
    | @pair c s h ih =>
      exact Regex.matches_star_append _ (u := ['\\', c]) (.inr (matches_pair.2 ⟨c, rfl⟩)) ih

/-- A string in quotes. -/
theorem matches_quoted {p : Pattern} {s : Text} :
    Matches (seq [char '"', p, char '"']) s ↔
      ∃ content, p.Matches content ∧ s = '"' :: (content ++ ['"']) := by
  simp only [matches_seq_cons, matches_seq_nil, matches_char]
  constructor
  · rintro ⟨u, v, rfl, ⟨content, w, hcontent, ⟨q, e, rfl, rfl, rfl⟩, rfl⟩, rfl⟩
    exact ⟨content, hcontent, rfl⟩
  · rintro ⟨content, hcontent, rfl⟩
    exact ⟨_, _, rfl, ⟨content, _, hcontent, ⟨_, _, rfl, rfl, rfl⟩, rfl⟩, rfl⟩

/-- Every string with escaped content is a string. -/
theorem STRING_of_escaped {content : Text} (h : Escaped content) :
    STRING.Matches ('"' :: (content ++ ['"'])) := by
  refine matches_quoted.2 ⟨content, ?_, rfl⟩
  induction h with
  | nil => exact Regex.matches_star_nil _ _
  | @plain c s hquote hslash h ih =>
    refine Regex.matches_star_append _ (u := [c]) (.inl ?_) ih
    exact Regex.matches_star_append _ (u := [c]) (matches_unquoted.2 ⟨c, hquote, rfl⟩)
      (Regex.matches_star_nil _ _)
  | @pair c s h ih =>
    refine Regex.matches_star_append _ (u := ['\\', c]) ?_ ih
    by_cases hquote : c = '"'
    · rw [hquote]
      exact .inr (by decide)
    · left
      refine Regex.matches_star_append _ (u := ['\\']) (matches_unquoted.2 ⟨'\\', by decide, rfl⟩) ?_
      exact Regex.matches_star_append _ (u := [c]) (matches_unquoted.2 ⟨c, hquote, rfl⟩)
        (Regex.matches_star_nil _ _)

end Pattern

namespace Lexer

/-! ## The scan -/

/-- Where the loop of `writeSTRINGZ` stops: the text from the closing quote on. -/
def scanEnd : Text → Option Text
  | [] => none
  | ['\\'] => none
  | '"' :: s => some ('"' :: s)
  | '\\' :: _ :: s => scanEnd s
  | _ :: s => scanEnd s

/-- The words of the content of a string. -/
def contentWords : Text → List Word
  | [] => []
  | '\\' :: c :: s => unescape c :: contentWords s
  | c :: s => charValue c :: contentWords s

theorem scanEnd_plain {c : Char} (hquote : c ≠ '"') (hslash : c ≠ '\\') (s : Text) :
    scanEnd (c :: s) = scanEnd s := by
  simp [scanEnd, hslash]

theorem scanEnd_length {s t : Text} (h : scanEnd s = some t) : t.length ≤ s.length := by
  induction s using scanEnd.induct with
  | case1 | case2 => cases h
  | case3 s =>
    cases h
    exact Nat.le_refl _
  | case4 c s ih =>
    have hle := ih h
    simp only [List.length_cons]
    omega
  | case5 c s hend hquote hpair ih =>
    have hslash : c ≠ '\\' := by
      rintro rfl
      cases s with
      | nil => exact hend rfl rfl
      | cons d s => exact hpair d s rfl rfl
    rw [scanEnd_plain hquote hslash] at h
    exact (ih h).trans (Nat.le_succ _)

/-- The scan of escaped content stops right after it. -/
theorem scanEnd_escaped {content : Text} (h : Escaped content) (rest : Text) :
    scanEnd (content ++ '"' :: rest) = some ('"' :: rest) := by
  induction h with
  | nil => rfl
  | plain hquote hslash h ih => exact (scanEnd_plain hquote hslash _).trans ih
  | pair c h ih => exact ih

theorem scanString_escaped {content : Text} (h : Escaped content) (rest : Text) :
    ∃ lines, scanString (content ++ '"' :: rest) = .ok (contentWords content, lines) := by
  induction h with
  | nil => exact ⟨0, rfl⟩
  | @plain c s hquote hslash h ih =>
    obtain ⟨lines, hlines⟩ := ih
    refine ⟨if c = '\n' then lines + 1 else lines, ?_⟩
    simp [scanString, contentWords, hslash, hlines]
  | @pair c s h ih =>
    obtain ⟨lines, hlines⟩ := ih
    refine ⟨lines, ?_⟩
    simp [scanString, contentWords, hlines]

/-- Content that the scan reads up to its end is escaped. -/
theorem escaped_of_scanEnd {content rest : Text}
    (h : scanEnd (content ++ '"' :: rest) = some ('"' :: rest)) : Escaped content := by
  induction content using scanEnd.induct with
  | case1 => exact .nil
  | case2 =>
    have hle := scanEnd_length (s := rest) h
    simp only [List.length_cons] at hle
    omega
  | case3 s =>
    have hlength := congrArg List.length (Option.some.inj h)
    simp at hlength
    omega
  | case4 c s ih => exact .pair c (ih h)
  | case5 c s hend hquote hpair ih =>
    have hslash : c ≠ '\\' := by
      rintro rfl
      cases s with
      | nil => exact hend rfl rfl
      | cons d s => exact hpair d s rfl rfl
    rw [List.cons_append, scanEnd_plain hquote hslash] at h
    exact .plain hquote hslash (ih h)

/-! ## Lines -/

/-- The words are written from the address of the lexer on. The first pass only counts them. -/
def Writes (L L' : Lexer) (words : List Word) : Prop :=
  if L.curPass = 2 then ∃ K o, K.curAddr = L.curAddr ∧ L' = words.foldl (writeCell o) K
  else L' = { L with curLine := L'.curLine, curAddr := (L.curAddr + words.length) % 0x10000 }

theorem writeSTRINGZ_writes {L L' : Lexer} {o1 : Text} {values : List Word} {lines : Nat}
    (hscan : scanString (o1.drop 1) = .ok (values, lines)) (h : L.writeSTRINGZ o1 = .ok L') :
    Writes L L' (values ++ [0]) := by
  unfold writeSTRINGZ at h
  rw [hscan] at h
  unfold Writes
  by_cases hpass : L.curPass = 2
  · rw [if_pos hpass]
    obtain ⟨⟨K, o⟩, hline, h⟩ := Except.bind_eq_ok_iff.1 ((if_pos hpass).symm.trans h)
    dsimp only at h
    split at h
    · cases h
      refine ⟨_, o, ?_, rfl⟩
      have haddr := (addFixedVariable_core K o true (values ++ [0])).trans
        (preProcessDataLine_core hline)
      exact congrArg Core.curAddr haddr
    · cases h
  · rw [if_neg hpass]
    cases (if_neg hpass).symm.trans h
    rfl

/-- The line consists of blanks, a string with this content and the end of the line. The scan
stops at the closing quote of the string, and the words are those of the content and a 0. -/
structure ScansToken (text blanks content eol : Text) : Prop where
  text_eq : text = blanks ++ '"' :: (content ++ '"' :: eol)
  blanks : Pattern.Matches (.plus Pattern.SPACE) blanks
  token : Pattern.STRING.Matches ('"' :: (content ++ ['"']))
  endline : Pattern.ENDLINE.Matches eol
  stops : scanEnd ((Text.skipSpace text).drop 1) = some ('"' :: eol)
  scans : ∃ lines, scanString ((Text.skipSpace text).drop 1) = .ok (contentWords content, lines)
  writes : ∀ L L' : Lexer, L.writeSTRINGZ (Text.skipSpace text) = .ok L' →
    Writes L L' (contentWords content ++ [0])

theorem skipSpace_line {blanks content eol : Text}
    (hblanks : Pattern.Matches (.plus Pattern.SPACE) blanks) :
    (Text.skipSpace (blanks ++ '"' :: (content ++ '"' :: eol))).drop 1 =
      content ++ '"' :: eol := by
  have hspace : ∀ c ∈ blanks, Text.isspace c = true := fun c hc =>
    Operand.isspace_of_blank (Pattern.plus_SPACE_spec hblanks c hc)
  unfold Text.skipSpace
  rw [List.dropWhile_append_of_pos hspace, List.dropWhile_cons_of_neg (by decide)]
  rfl

theorem ScansToken.matches {text blanks content eol : Text}
    (h : ScansToken text blanks content eol) :
    (Pattern.operandLine [Pattern.ESCAPED_STRING]).Matches text := by
  have hstops := h.stops
  rw [h.text_eq, skipSpace_line h.blanks] at hstops
  have hescaped := Pattern.matches_quoted.2
    ⟨content, Pattern.matches_content.2 (escaped_of_scanEnd hstops), rfl⟩
  refine ⟨blanks, _, h.blanks, ⟨_, _, hescaped, ⟨eol, [], h.endline, rfl, rfl⟩, rfl⟩, ?_⟩
  rw [h.text_eq]
  simp

/-- The scan of a line with the operand of `.STRINGZ` agrees with its string exactly when
the string has escaped content. -/
theorem scansToken_iff (text : Text) :
    (∃ blanks content eol, ScansToken text blanks content eol) ↔
      (Pattern.operandLine [Pattern.ESCAPED_STRING]).Matches text := by
  constructor
  · rintro ⟨blanks, content, eol, h⟩
    exact h.matches
  · rintro ⟨blanks, rest, hblanks, ⟨string, eol', hstring, ⟨eol, e, heol, rfl, rfl⟩, rfl⟩, rfl⟩
    obtain ⟨content, hcontent, rfl⟩ := Pattern.matches_quoted.1 hstring
    have hescaped := Pattern.matches_content.1 hcontent
    have htext : blanks ++ ('"' :: (content ++ ['"']) ++ (eol ++ [])) =
        blanks ++ '"' :: (content ++ '"' :: eol) := by simp
    rw [htext]
    obtain ⟨lines, hscan⟩ := scanString_escaped hescaped eol
    refine ⟨blanks, content, eol, rfl, hblanks, Pattern.STRING_of_escaped hescaped, heol, ?_, ?_, ?_⟩
    · rw [skipSpace_line hblanks]
      exact scanEnd_escaped hescaped eol
    · rw [skipSpace_line hblanks]
      exact ⟨lines, hscan⟩
    · intro L L' h
      rw [← skipSpace_line hblanks] at hscan
      exact writeSTRINGZ_writes hscan h

/-- A string that ends in a backslash and a quote: the scan goes on past its end. And a
string that ends in two backslashes: the pattern takes the next line into it. -/
theorem slash_before_quote :
    (.operands .S " \"\\\"\n".toList ∈ scanFile ".STRINGZ \"\\\"\n".toList ∧
      scanString ((Text.skipSpace " \"\\\"\n".toList).drop 1) = .error .readPastEnd ∧
      ¬∃ blanks content eol, ScansToken " \"\\\"\n".toList blanks content eol) ∧
    (.operands .S " \"\\\\\"\nRET ;\"\n".toList ∈
        scanFile ".STRINGZ \"\\\\\"\nRET ;\"\n".toList ∧
      ¬∃ blanks content eol,
        ScansToken " \"\\\\\"\nRET ;\"\n".toList blanks content eol) := by
  refine ⟨⟨?_, rfl, ?_⟩, ?_, ?_⟩
  · decide
  · rintro ⟨blanks, content, eol, h⟩
    exact absurd h.matches (by decide)
  · decide
  · rintro ⟨blanks, content, eol, h⟩
    exact absurd h.matches (by decide)

end Lexer

end Klc3
