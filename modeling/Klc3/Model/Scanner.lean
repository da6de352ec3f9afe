import Klc3.Lib.Regex
import Klc3.Model.Lexer

/-!
# The scanner

The patterns and rules of `Lexer.f`, and the scanner that flex makes of them: the longest
match counts, and of the rules with a longest match the first. The scanner is generated with
the option `-i`, so letters match in either case.
-/

namespace Klc3

/-- A character class: the characters in the ranges, or all others. -/
structure CharClass where
  negated : Bool
  ranges : List (Char × Char)
deriving DecidableEq

def CharClass.mem (k : CharClass) (c : Char) : Bool :=
  k.negated != k.ranges.any fun r => r.1 ≤ c && c ≤ r.2

abbrev Pattern := Regex CharClass

namespace Pattern

/-- The pattern matches a text. -/
abbrev Matches (p : Pattern) (s : Text) : Prop :=
  Regex.Matches CharClass.mem p s

def oneOf (ranges : List (Char × Char)) : Pattern :=
  .cls ⟨false, ranges⟩

def noneOf (ranges : List (Char × Char)) : Pattern :=
  .cls ⟨true, ranges⟩

def char (c : Char) : Pattern :=
  oneOf [(c, c)]

/-- A letter in either case. -/
def letter (c : Char) : Pattern :=
  oneOf [(c.toLower, c.toLower), (c.toUpper, c.toUpper)]

def lit (s : String) : Pattern :=
  s.toList.foldr (fun c p => .cat (letter c) p) .eps

def seq (ps : List Pattern) : Pattern :=
  ps.foldr .cat .eps

def CCODE : Pattern :=
  seq [.opt (letter 'n'), .opt (letter 'z'), .opt (letter 'p')]

def REGISTER : Pattern :=
  seq [letter 'r', oneOf [('0', '7')]]

def HEX : Pattern :=
  seq [letter 'x', .opt (char '-'), .plus (oneOf [('0', '9'), ('a', 'f'), ('A', 'F')])]

def DECIMAL : Pattern :=
  seq [.opt (char '#'), .opt (char '-'), .plus (oneOf [('0', '9')])]

def IMMED : Pattern :=
  .alt HEX DECIMAL

def LABEL : Pattern :=
  seq [oneOf [('A', 'Z'), ('a', 'z')],
    .star (oneOf [('A', 'Z'), ('a', 'z'), ('_', '_'), ('0', '9')])]

def STRING : Pattern :=
  seq [char '"', .star (.alt (.star (noneOf [('"', '"')])) (seq [char '\\', char '"'])), char '"']

def UTSTRING : Pattern :=
  seq [char '"', .star (noneOf [('\n', '\n'), ('\r', '\r')])]

def SPACE : Pattern :=
  oneOf [(' ', ' '), ('\t', '\t')]

def OP_SEP : Pattern :=
  seq [.star SPACE, char ',', .star SPACE]

def COMMENT : Pattern :=
  seq [char ';', .star (noneOf [('\n', '\n'), ('\r', '\r')])]

def EMPTYLINE : Pattern :=
  seq [.star SPACE, .opt COMMENT]

def LINEFEED : Pattern :=
  seq [.opt (char '\r'), char '\n', .opt (char '\r')]

def ENDLINE : Pattern :=
  seq [EMPTYLINE, LINEFEED]

/-- Spaces, operands and the end of the line. -/
def operandLine (operands : List Pattern) : Pattern :=
  seq (.plus SPACE :: operands ++ [ENDLINE])

/-- The patterns `O_RRR` to `O_`. -/
def ofOperands : OperandType → Pattern
  | .RRR => operandLine [REGISTER, OP_SEP, REGISTER, OP_SEP, REGISTER]
  | .RRI => operandLine [REGISTER, OP_SEP, REGISTER, OP_SEP, IMMED]
  | .RR => operandLine [REGISTER, OP_SEP, REGISTER]
  | .RI => operandLine [REGISTER, OP_SEP, IMMED]
  | .RL => operandLine [REGISTER, OP_SEP, LABEL]
  | .R => operandLine [REGISTER]
  | .I => operandLine [IMMED]
  | .L => operandLine [LABEL]
  | .S => operandLine [STRING]
  | .none => ENDLINE

def O_UTS : Pattern :=
  operandLine [UTSTRING]

/-- Anything up to the end of the line. -/
def anyLine : Pattern :=
  seq [.star (noneOf [('\n', '\n'), ('\r', '\r')]), ENDLINE]

end Pattern

/-! ## Rules -/

/-- The start conditions. All but the first are exclusive. -/
inductive StartCondition where
  | initial
  | ls_operands
  | ls_garbage
  | ls_finished
deriving DecidableEq, Repr

structure Rule where
  condition : StartCondition
  pattern : Pattern
  token : Text → Token
  next : StartCondition
  /-- The action returns, so the pass ends here. -/
  stops : Bool

namespace Rule

open Pattern

def ofOpcode (op : OPCode) (pattern : Pattern) : Rule :=
  ⟨.initial, pattern, .opcode op, .ls_operands, false⟩

def ofOperands (type : OperandType) : Rule :=
  ⟨.ls_operands, Pattern.ofOperands type, .operands type, .initial, false⟩

def rules : List Rule :=
  [ofOpcode .ADD (lit "ADD"),
   ofOpcode .AND (lit "AND"),
   ofOpcode .BR (.cat (lit "BR") CCODE),
   ofOpcode .JMP (lit "JMP"),
   ofOpcode .JSRR (lit "JSRR"),
   ofOpcode .JSR (lit "JSR"),
   ofOpcode .LDI (lit "LDI"),
   ofOpcode .LDR (lit "LDR"),
   ofOpcode .LD (lit "LD"),
   ofOpcode .LEA (lit "LEA"),
   ofOpcode .NOT (lit "NOT"),
   ofOpcode .RTI (lit "RTI"),
   ofOpcode .STI (lit "STI"),
   ofOpcode .STR (lit "STR"),
   ofOpcode .ST (lit "ST"),
   ofOpcode .TRAP (lit "TRAP"),
   ofOpcode .GETC (lit "GETC"),
   ofOpcode .HALT (lit "HALT"),
   ofOpcode .IN (lit "IN"),
   ofOpcode .OUT (lit "OUT"),
   ofOpcode .PUTS (lit "PUTS"),
   ofOpcode .PUTSP (lit "PUTSP"),
   ofOpcode .FILL (lit ".FILL"),
   ofOpcode .RET (lit "RET"),
   ofOpcode .STRINGZ (lit ".STRINGZ"),
   ofOpcode .BLKW (lit ".BLKW"),
   ⟨.initial, lit ".END", .endDirective, .ls_finished, false⟩,
   ofOpcode .ORIG (lit ".ORIG"),
   ofOperands .RRR,
   ofOperands .RRI,
   ofOperands .RR,
   ofOperands .RI,
   ofOperands .RL,
   ofOperands .R,
   ofOperands .I,
   ofOperands .L,
   ofOperands .S,
   ofOperands .none,
   ⟨.initial, .plus SPACE, fun _ => .ignored, .initial, false⟩,
   ⟨.initial, .cat COMMENT LINEFEED, .commentLine, .initial, false⟩,
   ⟨.initial, LINEFEED, fun _ => .blankLine, .initial, false⟩,
   ⟨.initial, LABEL, .label, .initial, false⟩,
   ⟨.initial, seq [LABEL, .star SPACE, char ':'], .label, .initial, false⟩,
   ⟨.ls_operands, O_UTS, fun _ => .unterminatedString, .initial, false⟩,
   ⟨.ls_operands, anyLine, fun _ => .badOperands, .initial, false⟩,
   ⟨.initial, .alt (Pattern.ofOperands .RRR) (.alt (Pattern.ofOperands .RRI)
      (.alt (Pattern.ofOperands .RR) (.alt (Pattern.ofOperands .RI) (.alt (Pattern.ofOperands .RL)
      (.alt (Pattern.ofOperands .R) (.alt (Pattern.ofOperands .I)
      (.alt (Pattern.ofOperands .S) O_UTS))))))),
      fun _ => .badOperands, .initial, false⟩,
   ⟨.initial, noneOf [('\n', '\n')], fun _ => .ignored, .ls_garbage, false⟩,
   ⟨.ls_garbage, anyLine, fun _ => .badLine, .initial, false⟩,
   ⟨.ls_finished, .alt ENDLINE EMPTYLINE, fun _ => .blankAfterEnd, .ls_finished, false⟩,
   ⟨.ls_finished, .cat (.star (noneOf [('\n', '\n')])) (.alt ENDLINE EMPTYLINE),
      fun _ => .ignored, .ls_finished, true⟩]

/-- The length of the longest match of a rule, if it is not empty. -/
def matchLength (rule : Rule) (condition : StartCondition) (s : Text) : Option Nat :=
  if rule.condition = condition then
    (rule.pattern.longest CharClass.mem s).filter (0 < ·)
  else none

/-- The first rule with the longest match. -/
def best (condition : StartCondition) (s : Text) : List Rule → Option (Nat × Rule)
  | [] => none
  | rule :: rules =>
    match rule.matchLength condition s, best condition s rules with
    | none, other => other
    | some n, none => some (n, rule)
    | some n, some (m, other) => if n < m then some (m, other) else some (n, rule)

end Rule

/-- `yylex`. A character that no rule matches is echoed. -/
def scan : Nat → StartCondition → Text → List Token
  | 0, _, _ => []
  | _, _, [] => []
  | fuel + 1, condition, c :: s =>
    match Rule.best condition (c :: s) Rule.rules with
    | none => .ignored :: scan fuel condition s
    | some (n, rule) =>
      rule.token ((c :: s).take n) ::
        if rule.stops then [] else scan fuel rule.next ((c :: s).drop n)

/-- The tokens of a file. Each of them takes a character at least. -/
def scanFile (s : Text) : List Token :=
  scan s.length .initial s

end Klc3
