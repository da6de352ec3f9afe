import Klc3.Model.Scanner
import Klc3.Verification.Loader.Operands

/-!
# Token sequences

Every token that the scanner finds belongs to a rule of its start condition, and its text
matches the pattern of the rule.
-/

namespace Klc3

namespace Rule

theorem best_spec {condition : StartCondition} {s : Text} {rs : List Rule} {n : Nat} {rule : Rule}
    (h : best condition s rs = some (n, rule)) :
    rule ∈ rs ∧ rule.matchLength condition s = some n := by
  induction rs with
  | nil => cases h
  | cons r rs ih =>
    unfold best at h
    cases hlength : r.matchLength condition s with
    | none =>
      rw [hlength] at h
      obtain ⟨hmem, hmatch⟩ := ih h
      exact ⟨List.mem_cons_of_mem r hmem, hmatch⟩
    | some k =>
      rw [hlength] at h
      cases hbest : best condition s rs with
      | none =>
        rw [hbest] at h
        cases h
        exact ⟨List.mem_cons_self, hlength⟩
      | some other =>
        rw [hbest] at h
        dsimp only at h
        split at h
        · obtain ⟨hmem, hmatch⟩ := ih (hbest.trans h)
          exact ⟨List.mem_cons_of_mem r hmem, hmatch⟩
        · cases h
          exact ⟨List.mem_cons_self, hlength⟩

theorem matchLength_spec {rule : Rule} {condition : StartCondition} {s : Text} {n : Nat}
    (h : rule.matchLength condition s = some n) :
    rule.condition = condition ∧ rule.pattern.Matches (s.take n) := by
  unfold matchLength at h
  split at h
  · rename_i hcondition
    obtain ⟨hlongest, -⟩ := Option.filter_eq_some_iff.1 h
    exact ⟨hcondition, (Regex.longest_eq_some CharClass.mem hlongest).2.1⟩
  · cases h

end Rule

/-- Tokens that rules of the right start condition account for. -/
inductive Scanned : StartCondition → List Token → Prop where
  | nil {c} : Scanned c []
  | echo {c ts} : Scanned c ts → Scanned c (.ignored :: ts)
  | rule {c r text ts} : r ∈ Rule.rules → r.condition = c → r.pattern.Matches text →
      Scanned r.next ts → Scanned c (r.token text :: ts)

theorem scan_scanned (fuel : Nat) (c : StartCondition) (s : Text) :
    Scanned c (scan fuel c s) := by
  induction fuel generalizing c s with
  | zero => exact .nil
  | succ fuel ih =>
    cases s with
    | nil => exact .nil
    | cons a s =>
      unfold scan
      cases hbest : Rule.best c (a :: s) Rule.rules with
      | none => exact .echo (ih c s)
      | some found =>
        obtain ⟨n, r⟩ := found
        obtain ⟨hmem, hlength⟩ := Rule.best_spec hbest
        obtain ⟨hcondition, hmatch⟩ := Rule.matchLength_spec hlength
        refine .rule hmem hcondition hmatch ?_
        split
        · exact .nil
        · exact ih _ _

theorem scanFile_scanned (s : Text) : Scanned .initial (scanFile s) :=
  scan_scanned _ _ _

namespace Rule

/-- What the token of a rule says about the rule. -/
def Explains (r : Rule) (text : Text) : Token → Prop
  | .opcode op t => t = text ∧ r.condition = .initial ∧ r.next = .ls_operands ∧
      (op = .BR → r.pattern = .cat (Pattern.lit "BR") Pattern.CCODE)
  | .operands type t => t = text ∧ r.condition = .ls_operands ∧
      r.pattern = Pattern.ofOperands type
  | .label t => t = text ∧ r.condition = .initial ∧
      (r.pattern = Pattern.LABEL ∨
        r.pattern = Pattern.seq [Pattern.LABEL, .star Pattern.SPACE, Pattern.char ':'])
  | .endDirective _ | .ignored => r.condition ≠ .ls_operands
  | _ => True

theorem explains {r : Rule} (h : r ∈ rules) (text : Text) : r.Explains text (r.token text) := by
  have hopcode : ∀ {op : OPCode} {p : Pattern},
      (op = .BR → p = .cat (Pattern.lit "BR") Pattern.CCODE) →
        (ofOpcode op p).Explains text (.opcode op text) := fun hp => ⟨rfl, rfl, rfl, hp⟩
  have hoperands : ∀ {type : OperandType},
      (ofOperands type).Explains text (.operands type text) := ⟨rfl, rfl, rfl⟩
  unfold rules at h
  repeat' (rcases List.mem_cons.1 h with rfl | h)
  all_goals first
    | exact hopcode (fun _ => rfl)
    | exact hopcode (fun h => by cases h)
    | exact hoperands
    | exact ⟨rfl, rfl, .inl rfl⟩
    | exact ⟨rfl, rfl, .inr rfl⟩
    | exact (by decide : StartCondition.initial ≠ .ls_operands)
    | exact (by decide : StartCondition.ls_finished ≠ .ls_operands)
    | exact trivial
    | cases h

end Rule

namespace Scanned

variable {c : StartCondition} {t : Token} {ts : List Token}

theorem uncons (h : Scanned c (t :: ts)) :
    (t = .ignored ∧ Scanned c ts) ∨
      ∃ (r : Rule) (text : Text), r.Explains text t ∧ r.condition = c ∧ r.pattern.Matches text ∧
        Scanned r.next ts := by
  cases h with
  | echo hts => exact .inl ⟨rfl, hts⟩
  | rule hr hc hmatch hts => exact .inr ⟨_, _, Rule.explains hr _, hc, hmatch, hts⟩

/-- The scanner goes on in some start condition after any of its tokens. -/
theorem drop {before after : List Token} (h : Scanned c (before ++ after)) :
    ∃ c', Scanned c' after := by
  induction before generalizing c with
  | nil => exact ⟨c, h⟩
  | cons t before ih =>
    rcases h.uncons with ⟨-, hts⟩ | ⟨r, text, -, -, -, hts⟩
    · exact ih hts
    · exact ih hts

theorem explained {t : Token} (h : Scanned c ts) (ht : t ∈ ts) (hne : t ≠ .ignored) :
    ∃ (r : Rule) (text : Text), r.Explains text t ∧ r.pattern.Matches text := by
  obtain ⟨before, after, rfl⟩ := List.append_of_mem ht
  obtain ⟨c', h'⟩ := h.drop
  rcases h'.uncons with ⟨heq, -⟩ | ⟨r, text, hexplains, -, hmatch, -⟩
  · exact absurd heq hne
  · exact ⟨r, text, hexplains, hmatch⟩

theorem operands {type : OperandType} {text : Text} (h : Scanned c ts)
    (ht : .operands type text ∈ ts) : (Pattern.ofOperands type).Matches text := by
  obtain ⟨r, text', ⟨rfl, -, hpattern⟩, hmatch⟩ := h.explained ht (by simp)
  rw [hpattern] at hmatch
  exact hmatch

theorem branch {text : Text} (h : Scanned c ts) (ht : .opcode .BR text ∈ ts) :
    Pattern.Matches (.cat (Pattern.lit "BR") Pattern.CCODE) text := by
  obtain ⟨r, text', ⟨rfl, -, -, hpattern⟩, hmatch⟩ := h.explained ht (by simp)
  rw [hpattern rfl] at hmatch
  exact hmatch

/-- A label holds no semicolon. -/
theorem label {text : Text} (h : Scanned c ts) (ht : .label text ∈ ts) : ';' ∉ text := by
  obtain ⟨r, text', ⟨rfl, -, hpattern⟩, hmatch⟩ := h.explained ht (by simp)
  have hlabel : ∀ {s : Text}, Pattern.LABEL.Matches s → ';' ∉ s := fun hs hmem =>
    ((Operand.LABEL_spec hs).2 ';' hmem).2.1 rfl
  rcases hpattern with hpattern | hpattern
  · rw [hpattern] at hmatch
    exact hlabel hmatch
  · rw [hpattern] at hmatch
    obtain ⟨name, w, hname, ⟨blanks, w, hblanks, ⟨colon, e, hcolon, he, rfl⟩, rfl⟩, rfl⟩ := hmatch
    rw [Pattern.matches_seq_nil.1 he, Pattern.matches_char.1 hcolon]
    intro hmem
    rcases List.mem_append.1 hmem with hmem | hmem
    · exact hlabel hname hmem
    · rcases List.mem_append.1 hmem with hmem | hmem
      · rcases Pattern.matches_SPACEs.1 hblanks ';' hmem with h | h <;> cases h
      · simp at hmem

end Scanned

/-! ## Condition codes between lines -/

namespace Lexer

variable {L L' P : Lexer}

theorem generateInstruction_ccode {operands : OperandType} {opstr : Text}
    (h : L.generateInstruction operands opstr = .ok L') : L'.ccode = 0 := by
  unfold generateInstruction at h
  split at h
  · cases h
    rfl
  · dsimp only at h
    split at h
    · obtain ⟨K, -, h⟩ := Except.bind_eq_ok_iff.1 h
      cases h
      rfl
    · split at h
      · cases h
        rfl
      · obtain ⟨⟨K, p⟩, -, h⟩ := Except.bind_eq_ok_iff.1 h
        obtain ⟨K', -, h⟩ := Except.bind_eq_ok_iff.1 h
        cases h
        rfl

theorem foundLabel_ccode (L : Lexer) (s : Text) : (L.foundLabel s).ccode = L.ccode := by
  unfold foundLabel
  dsimp only
  split
  · split
    · rfl
    · cases hadd : L.addSymbol (symName s) with
      | none => rfl
      | some K =>
        unfold addSymbol at hadd
        split at hadd
        · cases hadd
        · cases hadd
          rfl
  · rfl

/-- All tokens but those of the opcode and of what follows it before the operands leave no
condition code behind. -/
theorem act_ccode {t : Token} {r : Rule} {text : Text} (hr : r.Explains text t)
    (h0 : r.condition ≠ .ls_operands → L.ccode = 0) (hnext : r.next ≠ .ls_operands)
    (h : L.act t = .ok L') : L'.ccode = 0 := by
  cases t with
  | opcode op text' => exact absurd hr.2.2.1 hnext
  | operands type text' => exact generateInstruction_ccode h
  | commentLine text' =>
    obtain ⟨K, -, h⟩ := Except.bind_eq_ok_iff.1 h
    cases h
    rfl
  | label text' =>
    cases h
    rw [foundLabel_ccode]
    exact h0 (by rw [hr.2.1]; decide)
  | endDirective text' =>
    cases h
    exact h0 hr
  | ignored =>
    cases h
    exact h0 hr
  | unterminatedString | badOperands | badLine | blankLine | blankAfterEnd =>
    cases h
    rfl

theorem ccode_of_scanned {c : StartCondition} {before after : List Token} {op : OPCode} {text : Text}
    (h : Scanned c (before ++ .opcode op text :: after)) (h0 : c ≠ .ls_operands → L.ccode = 0)
    (hrun : before.foldlM act L = .ok P) : P.ccode = 0 := by
  induction before generalizing c L with
  | nil =>
    cases hrun
    rcases h.uncons with ⟨heq, -⟩ | ⟨r, text', hr, hc, -, -⟩
    · cases heq
    · exact h0 (by rw [← hc, hr.2.1]; decide)
  | cons t before ih =>
    obtain ⟨K, hact, hrest⟩ := Except.bind_eq_ok_iff.1 hrun
    rcases h.uncons with ⟨rfl, hts⟩ | ⟨r, text', hr, hc, -, hts⟩
    · cases hact
      exact ih hts h0 hrest
    · refine ih hts (fun hnext => act_ccode hr ?_ hnext hact) hrest
      rw [hc]
      exact h0

end Lexer

end Klc3
