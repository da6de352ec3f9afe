import Klc3.Verification.Loader.Fields

/-!
# The options of data

Where the comment of a line begins, and the flags that the options in it give.
-/

namespace Klc3

/-! ## Comments -/

namespace Text

/-- The text after the first semicolon outside of a string literal. The first argument tells
whether the text starts inside one. -/
def commentOutside : Bool → Text → Option Text
  | _, [] => none
  | true, '\\' :: _ :: s => commentOutside true s
  | true, c :: s => commentOutside (c ≠ '"') s
  | false, c :: s => if c = ';' then some s else commentOutside (c = '"') s

theorem matchStartAndTrim_append (start s : Text) :
    matchStartAndTrim (start ++ s) start = some (strip s) := by
  unfold matchStartAndTrim
  rw [if_pos (by simp), List.drop_left]

end Text

/-- The read-only flag and the flag of uninitialized data. -/
abbrev DataFlags := Bool × Bool

/-- The flags that a comment gives, `none` when it gives none. -/
def explicitFlags (comment : Text) : Option DataFlags :=
  match Text.matchStartAndTrim (Text.strip comment) "KLC3: ".toList with
  | none => none
  | some s =>
    match Lexer.parseDataOptions (s.length + 1) s ⟨false, false, [], []⟩ false with
    | .ok (o, true) => some (o.readOnly, o.uninitialized)
    | _ => none

/-- An option in the comment of a line of data. -/
inductive DataOption where
  | readOnly
  | uninitialized
  | symbolicAs (name : Text)
  | input (name : Text)
deriving DecidableEq

namespace DataOption

def text : DataOption → Text
  | readOnly => "READ_ONLY".toList
  | uninitialized => "UNINITIALIZED".toList
  | symbolicAs name => "SYMBOLIC as ".toList ++ name
  | input name => "INPUT ".toList ++ name

/-- A name is not empty and has no blanks. -/
def WellFormed : DataOption → Prop
  | symbolicAs name | input name => name ≠ [] ∧ ∀ c ∈ name, Text.isspace c = false
  | readOnly | uninitialized => True

/-- Options, each after a blank. -/
def listText (os : List DataOption) : Text :=
  os.flatMap fun o => ' ' :: o.text

theorem solid_text {o : DataOption} (h : o.WellFormed) : Text.Solid o.text := by
  have hnamed : ∀ {keyword name : Text}, name ≠ [] → (∀ c ∈ name, Text.isspace c = false) →
      (∀ c ∈ keyword.head?, Text.isspace c = false) → keyword ≠ [] →
      Text.Solid (keyword ++ name) := by
    intro keyword name hne hname hkeyword hkeyne
    obtain ⟨c, keyword, rfl⟩ := List.exists_cons_of_ne_nil hkeyne
    refine ⟨by simp, fun d hd => hkeyword d hd, fun d hd => ?_⟩
    rw [List.getLast?_append_of_ne_nil _ hne] at hd
    exact hname d (List.mem_of_mem_getLast? hd)
  cases o with
  | readOnly => exact ⟨by decide, by decide, by decide⟩
  | uninitialized => exact ⟨by decide, by decide, by decide⟩
  | symbolicAs name => exact hnamed h.1 h.2 (by decide) (by decide)
  | input name => exact hnamed h.1 h.2 (by decide) (by decide)

/-- Text that starts with a solid word and goes on with options has no blank at an end. -/
theorem solid_append_listText {s : Text} (hs : Text.Solid s) {os : List DataOption}
    (h : ∀ o ∈ os, o.WellFormed) : Text.Solid (s ++ listText os) := by
  induction os generalizing s with
  | nil => simpa [listText] using hs
  | cons o os ih =>
    have ho := solid_text (h o List.mem_cons_self)
    have happend := ih (hs.append ho [' ']) fun o' ho' => h o' (List.mem_cons_of_mem o ho')
    simpa [listText] using happend

theorem strip_listText {os : List DataOption} (h : ∀ o ∈ os, o.WellFormed) :
    Text.strip (listText os) = (listText os).drop 1 := by
  cases os with
  | nil => rfl
  | cons o os =>
    have hsolid := solid_append_listText (solid_text (h o List.mem_cons_self))
      fun o' ho' => h o' (List.mem_cons_of_mem o ho')
    have hstrip : Text.strip ([' '] ++ ((o.text ++ listText os) ++ [])) = o.text ++ listText os :=
      Text.strip_padded hsolid (by decide) (by simp)
    simpa [listText] using hstrip

theorem length_le_listText {os : List DataOption} (h : ∀ o ∈ os, o.WellFormed) :
    os.length ≤ ((listText os).drop 1).length := by
  have hlength : 2 * os.length ≤ (listText os).length := by
    induction os with
    | nil => simp
    | cons o os ih =>
      have ho : 0 < o.text.length :=
        List.length_pos_iff.2 (solid_text (h o List.mem_cons_self)).nonempty
      have hrest := ih fun o' ho' => h o' (List.mem_cons_of_mem o ho')
      simp only [listText, List.flatMap_cons, List.length_append, List.length_cons] at hrest ⊢
      omega
  rw [List.length_drop]
  omega

/-- An option matches its keyword, and no keyword that is tried before. -/
theorem parseDataOptions_cons {o : DataOption} (ho : o.WellFormed) {os : List DataOption}
    (hos : ∀ o ∈ os, o.WellFormed) (fuel : Nat) (acc : Lexer.DataOptions) (seen : Bool) :
    ∃ acc', Lexer.parseDataOptions (fuel + 1) (o.text ++ listText os) acc seen =
        Lexer.parseDataOptions fuel ((listText os).drop 1) acc'
          (seen || (readOnly = o || uninitialized = o)) ∧
      acc'.readOnly = (acc.readOnly || readOnly = o) ∧
      acc'.uninitialized = (acc.uninitialized || uninitialized = o) := by
  have hstrip := strip_listText hos
  have hnamed : ∀ name : Text, name ≠ [] → (∀ c ∈ name, Text.isspace c = false) →
      Text.splitAtBlank (Text.strip (name ++ listText os)) = (name, (listText os).drop 1) := by
    intro name hne hname
    have hword : (name ++ listText os).takeWhile (· != ' ') = name := by
      rw [List.takeWhile_append_of_pos]
      · cases os with
        | nil => simp [listText]
        | cons o' os => simp [listText]
      · intro c hc
        have hspace := hname c hc
        have hblank : c ≠ ' ' := by
          rintro rfl
          simp [Text.isspace] at hspace
        simpa using hblank
    have hsolid := solid_append_listText (.of_forall hne hname) hos
    rw [hsolid.strip_eq, Text.splitAtBlank]
    simp only [hword, List.drop_left, hstrip]
  have hne : ¬(o.text ++ listText os).isEmpty = true := by
    simp [(solid_text ho).nonempty]
  rw [Lexer.parseDataOptions.eq_2, if_neg hne]
  cases o with
  | readOnly =>
    refine ⟨{ acc with readOnly := true }, ?_, (Bool.or_true _).symm, (Bool.or_false _).symm⟩
    have hmatch : Text.matchStartAndTrim (readOnly.text ++ listText os) "READ_ONLY".toList =
        some (Text.strip (listText os)) := Text.matchStartAndTrim_append _ _
    rw [hmatch, hstrip]
    cases seen <;> rfl
  | uninitialized =>
    refine ⟨{ acc with uninitialized := true }, ?_, (Bool.or_false _).symm, (Bool.or_true _).symm⟩
    have hother : Text.matchStartAndTrim (uninitialized.text ++ listText os) "READ_ONLY".toList =
        none := rfl
    have hmatch : Text.matchStartAndTrim (uninitialized.text ++ listText os)
        "UNINITIALIZED".toList = some (Text.strip (listText os)) :=
      Text.matchStartAndTrim_append _ _
    rw [hother, hmatch, hstrip]
    cases seen <;> rfl
  | symbolicAs name =>
    refine ⟨{ acc with asSymbolic := name }, ?_, (Bool.or_false _).symm, (Bool.or_false _).symm⟩
    have hreadOnly : Text.matchStartAndTrim ((symbolicAs name).text ++ listText os)
        "READ_ONLY".toList = none := rfl
    have huninitialized : Text.matchStartAndTrim ((symbolicAs name).text ++ listText os)
        "UNINITIALIZED".toList = none := rfl
    have hmatch : Text.matchStartAndTrim ((symbolicAs name).text ++ listText os)
        "SYMBOLIC as ".toList = some (Text.strip (name ++ listText os)) := by
      have htext : (symbolicAs name).text ++ listText os =
          "SYMBOLIC as ".toList ++ (name ++ listText os) := List.append_assoc _ _ _
      rw [htext, Text.matchStartAndTrim_append]
    rw [hreadOnly, huninitialized, hmatch]
    dsimp only
    rw [hnamed name ho.1 ho.2]
    cases seen <;> rfl
  | input name =>
    refine ⟨{ acc with asInput := name }, ?_, (Bool.or_false _).symm, (Bool.or_false _).symm⟩
    have hreadOnly : Text.matchStartAndTrim ((input name).text ++ listText os)
        "READ_ONLY".toList = none := rfl
    have huninitialized : Text.matchStartAndTrim ((input name).text ++ listText os)
        "UNINITIALIZED".toList = none := rfl
    have hsymbolic : Text.matchStartAndTrim ((input name).text ++ listText os)
        "SYMBOLIC as ".toList = none := rfl
    have hmatch : Text.matchStartAndTrim ((input name).text ++ listText os) "INPUT ".toList =
        some (Text.strip (name ++ listText os)) := by
      have htext : (input name).text ++ listText os =
          "INPUT ".toList ++ (name ++ listText os) := List.append_assoc _ _ _
      rw [htext, Text.matchStartAndTrim_append]
    rw [hreadOnly, huninitialized, hsymbolic, hmatch]
    dsimp only
    rw [hnamed name ho.1 ho.2]
    cases seen <;> rfl

theorem parseDataOptions_listText {os : List DataOption} (h : ∀ o ∈ os, o.WellFormed)
    {fuel : Nat} (hfuel : os.length < fuel) (acc : Lexer.DataOptions) (seen : Bool) :
    ∃ acc', Lexer.parseDataOptions fuel ((listText os).drop 1) acc seen =
        .ok (acc', seen || (readOnly ∈ os || uninitialized ∈ os)) ∧
      acc'.readOnly = (acc.readOnly || readOnly ∈ os) ∧
      acc'.uninitialized = (acc.uninitialized || uninitialized ∈ os) := by
  induction os generalizing fuel acc seen with
  | nil =>
    obtain ⟨fuel, rfl⟩ := Nat.exists_eq_succ_of_ne_zero (Nat.ne_of_gt hfuel)
    exact ⟨acc, by simp [listText, Lexer.parseDataOptions], by simp, by simp⟩
  | cons o os ih =>
    obtain ⟨fuel, rfl⟩ := Nat.exists_eq_succ_of_ne_zero (Nat.ne_of_gt (Nat.zero_lt_of_lt hfuel))
    have hos : ∀ o ∈ os, o.WellFormed := fun o' ho' => h o' (List.mem_cons_of_mem o ho')
    obtain ⟨acc₁, hparse₁, hreadOnly₁, huninitialized₁⟩ :=
      parseDataOptions_cons (h o List.mem_cons_self) hos fuel acc seen
    obtain ⟨acc₂, hparse₂, hreadOnly₂, huninitialized₂⟩ :=
      ih hos (Nat.lt_of_succ_lt_succ hfuel) acc₁ (seen || (readOnly = o || uninitialized = o))
    have htext : (listText (o :: os)).drop 1 = o.text ++ listText os := rfl
    refine ⟨acc₂, ?_, ?_, ?_⟩
    · rw [htext, hparse₁, hparse₂]
      simp only [List.mem_cons, Bool.decide_or]
      congr 2
      ac_rfl
    · rw [hreadOnly₂, hreadOnly₁]
      simp only [List.mem_cons, Bool.decide_or, Bool.or_assoc]
    · rw [huninitialized₂, huninitialized₁]
      simp only [List.mem_cons, Bool.decide_or, Bool.or_assoc]

/-- A comment gives the flags among its options, in any order. -/
theorem explicitFlags_comment {os : List DataOption} (hne : os ≠ [])
    (h : ∀ o ∈ os, o.WellFormed) :
    explicitFlags (' ' :: ("KLC3:".toList ++ listText os)) =
      if readOnly ∈ os ∨ uninitialized ∈ os then
        some (decide (readOnly ∈ os), decide (uninitialized ∈ os))
      else none := by
  obtain ⟨acc, hparse, hreadOnly, huninitialized⟩ := parseDataOptions_listText h
    (Nat.lt_succ_of_le (length_le_listText h)) ⟨false, false, [], []⟩ false
  have hsolid : Text.Solid ("KLC3:".toList ++ listText os) :=
    solid_append_listText ⟨by decide, by decide, by decide⟩ h
  have hstrip : Text.strip ([' '] ++ (("KLC3:".toList ++ listText os) ++ [])) =
      "KLC3:".toList ++ listText os := Text.strip_padded hsolid (by decide) (by simp)
  have hmatch : Text.matchStartAndTrim ("KLC3:".toList ++ listText os) "KLC3: ".toList =
      some ((listText os).drop 1) := by
    obtain ⟨o, os, rfl⟩ := List.exists_cons_of_ne_nil hne
    have htext : "KLC3:".toList ++ listText (o :: os) =
        "KLC3: ".toList ++ (o.text ++ listText os) := rfl
    rw [htext, Text.matchStartAndTrim_append, (solid_append_listText
      (solid_text (h o List.mem_cons_self)) fun o' ho' => h o' (List.mem_cons_of_mem o ho')).strip_eq]
    rfl
  rw [List.append_nil] at hstrip
  unfold explicitFlags
  rw [← List.singleton_append, hstrip, hmatch]
  dsimp only
  rw [hparse]
  by_cases hseen : readOnly ∈ os ∨ uninitialized ∈ os
  · rw [if_pos hseen, ← Bool.decide_or, decide_eq_true hseen]
    simp only [Bool.false_or] at hreadOnly huninitialized ⊢
    rw [hreadOnly, huninitialized]
  · rw [if_neg hseen, ← Bool.decide_or, decide_eq_false hseen]
    rfl

end DataOption

end Klc3
