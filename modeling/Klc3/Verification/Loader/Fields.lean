import Klc3.Model.SymbolicCommand
import Klc3.Verification.Loader.Operands

/-!
# The fields of a line

How `splitString` and `strip` take a line apart that was put together from its fields, and
how `processInteger` and `splitNameAndSubscript` read a field.
-/

namespace Klc3

namespace Text

variable {delimiter : Char} {s t token : Text}

/-! ## Tokens -/

theorem splitFrom_append (h : delimiter ∉ token) (read : Text) :
    splitFrom delimiter (token ++ delimiter :: s) read =
      (read.reverse ++ token) :: splitString s delimiter := by
  induction token generalizing read with
  | nil => simp [splitFrom, splitString]
  | cons c token ih =>
    rw [List.mem_cons, not_or] at h
    rw [List.cons_append, splitFrom.eq_3, if_neg (Ne.symm h.1), ih h.2]
    simp

theorem splitString_append (h : delimiter ∉ token) :
    splitString (token ++ delimiter :: s) delimiter = token :: splitString s delimiter :=
  splitFrom_append h []

theorem splitFrom_last (h : delimiter ∉ token) (hne : token ≠ []) (read : Text) :
    splitFrom delimiter token read = [read.reverse ++ token] := by
  induction token generalizing read with
  | nil => exact absurd rfl hne
  | cons c token ih =>
    rw [List.mem_cons, not_or] at h
    rw [splitFrom.eq_3, if_neg (Ne.symm h.1)]
    cases token with
    | nil => simp [splitFrom]
    | cons d token =>
      rw [ih h.2 (List.cons_ne_nil d token)]
      simp

theorem splitString_last (h : delimiter ∉ token) (hne : token ≠ []) :
    splitString token delimiter = [token] :=
  splitFrom_last h hne []

/-! ## Blanks -/

/-- Text that `strip` leaves as it is. -/
structure Solid (s : Text) : Prop where
  nonempty : s ≠ []
  head : ∀ c ∈ s.head?, isspace c = false
  last : ∀ c ∈ s.getLast?, isspace c = false

theorem Solid.of_forall (hne : s ≠ []) (h : ∀ c ∈ s, isspace c = false) : Solid s where
  nonempty := hne
  head := fun c hc => h c (List.mem_of_mem_head? hc)
  last := fun c hc => h c (List.mem_of_mem_getLast? hc)

theorem Solid.append (hs : Solid s) (ht : Solid t) (middle : Text) :
    Solid (s ++ (middle ++ t)) := by
  obtain ⟨c, s, rfl⟩ := List.exists_cons_of_ne_nil hs.nonempty
  refine ⟨by simp, fun d hd => hs.head d (by simpa using hd), fun d hd => ht.last d ?_⟩
  rwa [← List.append_assoc, List.getLast?_append_of_ne_nil _ ht.nonempty] at hd

theorem not_mem_blanks {c : Char} (hc : isspace c = false) {blanks : Text}
    (hblanks : ∀ d ∈ blanks, isspace d) : c ∉ blanks := by
  intro hmem
  have hspace := hblanks c hmem
  rw [hc] at hspace
  cases hspace

theorem dropWhile_blanks {blanks : Text} (hblanks : ∀ c ∈ blanks, isspace c)
    (hs : ∀ c ∈ s.head?, isspace c = false) : (blanks ++ s).dropWhile isspace = s := by
  rw [List.dropWhile_append_of_pos hblanks]
  cases s with
  | nil => rfl
  | cons c s => simp [hs c rfl]

theorem strip_padded {before after : Text} (hs : Solid s) (hbefore : ∀ c ∈ before, isspace c)
    (hafter : ∀ c ∈ after, isspace c) : strip (before ++ (s ++ after)) = s := by
  have hhead : ∀ c ∈ (s ++ after).head?, isspace c = false := by
    obtain ⟨c, s, rfl⟩ := List.exists_cons_of_ne_nil hs.nonempty
    exact hs.head
  rw [strip, dropWhile_blanks hbefore hhead, List.reverse_append, dropWhile_blanks]
  · rw [List.reverse_reverse]
  · intro c hc
    exact hafter c (List.mem_reverse.1 hc)
  · intro c hc
    exact hs.last c (by simpa using hc)

theorem Solid.strip_eq (hs : Solid s) : strip s = s := by
  have hstrip : strip ([] ++ (s ++ [])) = s := strip_padded hs (by simp) (by simp)
  rwa [List.nil_append, List.append_nil] at hstrip

/-- A fold whose step strips its token. -/
theorem foldlM_congr_strip {ε : Type} {β : Type} {f : β → Text → Except ε β}
    (hf : ∀ acc s t, strip s = strip t → f acc s = f acc t) {tokens words : List Text}
    (h : tokens.map strip = words.map strip) (init : β) :
    tokens.foldlM f init = words.foldlM f init := by
  induction tokens generalizing words init with
  | nil => rw [List.map_eq_nil_iff.1 h.symm]
  | cons token tokens ih =>
    obtain ⟨word, words, rfl, hword, hwords⟩ := List.map_eq_cons_iff.1 h.symm
    rw [List.foldlM_cons, List.foldlM_cons, hf init token word hword.symm]
    congr 1
    funext acc
    exact ih hwords.symm acc

end Text

/-! ## Lists of operands -/

/-- The blanks on both sides of a separator. -/
structure Gap where
  before : Text
  after : Text
  before_blank : ∀ c ∈ before, Text.isspace c
  after_blank : ∀ c ∈ after, Text.isspace c

/-- Operands with a separator between them. -/
structure Spaced (α : Type) where
  head : α
  tail : List (Gap × α)

namespace Spaced

variable {α : Type} {render : α → Text} {separator : Char}

def all (x : Spaced α) : List α :=
  x.head :: x.tail.map Prod.snd

def text (render : α → Text) (separator : Char) (x : Spaced α) : Text :=
  render x.head ++ x.tail.flatMap fun y => y.1.before ++ separator :: (y.1.after ++ render y.2)

theorem text_cons (x : α) (g : Gap) (y : α) (ys : List (Gap × α)) :
    text render separator ⟨x, (g, y) :: ys⟩ =
      render x ++ g.before ++ separator :: (g.after ++ text render separator ⟨y, ys⟩) := by
  simp [text]

/-- Taking the text apart gives the operands back. -/
theorem map_strip_splitString (hblank : Text.isspace separator = false) (x : Spaced α)
    (hsolid : ∀ y ∈ x.all, Text.Solid (render y)) (hfree : ∀ y ∈ x.all, separator ∉ render y) :
    (Text.splitString (x.text render separator) separator).map Text.strip =
      x.all.map render := by
  suffices aux : ∀ (ys : List (Gap × α)) (y : α) (blanks : Text), (∀ c ∈ blanks, Text.isspace c) →
      (∀ z ∈ (⟨y, ys⟩ : Spaced α).all, Text.Solid (render z) ∧ separator ∉ render z) →
      (Text.splitString (blanks ++ text render separator ⟨y, ys⟩) separator).map Text.strip =
        (⟨y, ys⟩ : Spaced α).all.map render from
    aux x.tail x.head [] (by simp) fun z hz => ⟨hsolid z hz, hfree z hz⟩
  intro ys
  induction ys with
  | nil =>
    intro y blanks hblanks hall
    obtain ⟨hy, hmem⟩ := hall y List.mem_cons_self
    have htext : text render separator ⟨y, []⟩ = render y := by simp [text]
    rw [htext, Text.splitString_last]
    · have hstrip : Text.strip (blanks ++ (render y ++ [])) = render y :=
        Text.strip_padded hy hblanks (by simp)
      rw [List.append_nil] at hstrip
      simp [all, hstrip]
    · simp [Text.not_mem_blanks hblank hblanks, hmem]
    · simp [hy.nonempty]
  | cons gz ys ih =>
    intro y blanks hblanks hall
    obtain ⟨g, z⟩ := gz
    obtain ⟨hy, hmem⟩ := hall y List.mem_cons_self
    have hrest := ih z g.after g.after_blank fun z hz => hall z (List.mem_cons_of_mem y hz)
    rw [text_cons, ← List.append_assoc, ← List.append_assoc, Text.splitString_append]
    · rw [List.map_cons, hrest, List.append_assoc, Text.strip_padded hy hblanks g.before_blank]
      rfl
    · simp [Text.not_mem_blanks hblank hblanks, Text.not_mem_blanks hblank g.before_blank, hmem]

/-- A fold over the tokens is a fold over the operands. -/
theorem foldlM_splitString {ε : Type} {β : Type} {f : β → Text → Except ε β}
    (hf : ∀ acc s t, Text.strip s = Text.strip t → f acc s = f acc t)
    (hblank : Text.isspace separator = false) (x : Spaced α)
    (hsolid : ∀ y ∈ x.all, Text.Solid (render y)) (hfree : ∀ y ∈ x.all, separator ∉ render y)
    (init : β) :
    (Text.splitString (x.text render separator) separator).foldlM f init =
      x.all.foldlM (fun acc y => f acc (render y)) init := by
  have hwords : (Text.splitString (x.text render separator) separator).map Text.strip =
      (x.all.map render).map Text.strip := by
    rw [x.map_strip_splitString hblank hsolid hfree, List.map_map]
    exact List.map_congr_left fun y hy => (hsolid y hy).strip_eq.symm
  rw [Text.foldlM_congr_strip hf hwords, List.foldlM_map]

theorem solid_text (x : Spaced α) (hsolid : ∀ y ∈ x.all, Text.Solid (render y)) :
    Text.Solid (x.text render separator) := by
  obtain ⟨x, ys⟩ := x
  induction ys generalizing x with
  | nil => simpa [text] using hsolid x List.mem_cons_self
  | cons gy ys ih =>
    have hrest := ih gy.2 fun z hz => hsolid z (List.mem_cons_of_mem x hz)
    have happend := (hsolid x List.mem_cons_self).append hrest
      (gy.1.before ++ separator :: gy.1.after)
    rw [text_cons]
    simpa using happend

theorem not_mem_text {c : Char} (hc : Text.isspace c = false) (hne : c ≠ separator)
    (x : Spaced α) (hfree : ∀ y ∈ x.all, c ∉ render y) : c ∉ x.text render separator := by
  obtain ⟨x, ys⟩ := x
  induction ys generalizing x with
  | nil => simpa [text] using hfree x List.mem_cons_self
  | cons gy ys ih =>
    have hrest := ih gy.2 fun z hz => hfree z (List.mem_cons_of_mem x hz)
    rw [text_cons]
    simp [hfree x List.mem_cons_self, Text.not_mem_blanks hc gy.1.before_blank,
      Text.not_mem_blanks hc gy.1.after_blank, hrest, hne]

end Spaced

end Klc3
