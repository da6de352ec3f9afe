import Mathlib.Data.List.TakeWhile
import Klc3.Verification.Loader.CommandLog
import Klc3.Verification.Loader.DataOptions

/-!
# The flags of data

A line of data gives the same two flags to every value that it stores. They are to be those
of its comment or, without one, the defaults of the file.
-/

namespace Klc3

/-! ## Flags of a line -/

namespace Lexer

variable {L L' K : Lexer} {o : DataOptions}

def defaultFlags (L : Lexer) : DataFlags :=
  (L.dataDefaultReadOnly, L.dataDefaultUninitialized)

/-- The flags that the loader takes from a line with this content. -/
def flagsFound (ignoreKLC3Extension : Bool) (defaults : DataFlags) (content : Text) : DataFlags :=
  match Text.strchr content ';' with
  | none => (false, false)
  | some s => if ignoreKLC3Extension then (false, false) else (explicitFlags (s.drop 1)).getD defaults

theorem parseDataComment_flags {comment : Text} (h : L.parseDataComment comment = .ok (L', o)) :
    (o.readOnly, o.uninitialized) = if L.ignoreKLC3Extension then (false, false)
      else (explicitFlags comment).getD L.defaultFlags := by
  unfold parseDataComment at h
  unfold explicitFlags
  split at h
  · cases h
    rename_i hignore
    rw [if_pos hignore]
  · rename_i hignore
    rw [if_neg hignore]
    cases hkey : Text.matchStartAndTrim (Text.strip comment) "KLC3: ".toList with
    | none =>
      rw [hkey] at h
      cases h
      rfl
    | some s =>
      rw [hkey] at h
      obtain ⟨⟨o', seen⟩, hparse, h⟩ := Except.bind_eq_ok_iff.1 h
      cases h
      dsimp only
      rw [hparse]
      cases seen <;> rfl

theorem preProcessDataLine_flags (h : L.preProcessDataLine = .ok (K, o)) :
    (o.readOnly, o.uninitialized) =
      flagsFound L.ignoreKLC3Extension L.defaultFlags L.curLineContent := by
  unfold preProcessDataLine splitComment at h
  unfold flagsFound
  cases hcomment : Text.strchr L.curLineContent ';' with
  | none =>
    rw [hcomment] at h
    obtain ⟨⟨K', o'⟩, hnone, h⟩ := Except.bind_eq_ok_iff.1 h
    cases hnone
    dsimp only at h
    split at h
    · cases h
    · cases h
      rfl
  | some s =>
    rw [hcomment] at h
    obtain ⟨⟨K', o'⟩, hparse, h⟩ := Except.bind_eq_ok_iff.1 h
    dsimp only at h
    split at h
    · cases h
    · cases h
      exact parseDataComment_flags hparse

/-! ## Cells of a line -/

/-- A value with the given flags is stored at the address. -/
def HasFlags (mem : Word → Option MemValue) (addr : Word) (flags : DataFlags) : Prop :=
  ∃ e, mem addr = some (.data ⟨some e, flags.1, flags.2⟩)

theorem writeCells_flags (o : DataOptions) (values : List Word) (L : Lexer) {addr : Word}
    (h : HasFlags L.tables.mem addr (o.readOnly, o.uninitialized) ∨
      ∃ i < values.length, addr = word L.curAddr + BitVec.ofNat 16 i) :
    HasFlags (values.foldl (writeCell o) L).tables.mem addr (o.readOnly, o.uninitialized) := by
  induction values generalizing L with
  | nil =>
    rcases h with h | ⟨i, hi, -⟩
    · exact h
    · exact absurd hi (Nat.not_lt_zero i)
  | cons value values ih =>
    refine ih (writeCell o L value) ?_
    have hmem : (writeCell o L value).tables.mem addr =
        if addr = word L.curAddr then
          some (.data ⟨some (.const value), o.readOnly, o.uninitialized⟩)
        else L.tables.mem addr := rfl
    by_cases hhere : addr = word L.curAddr
    · exact .inl ⟨.const value, by rw [hmem, if_pos hhere]⟩
    · rcases h with ⟨e, he⟩ | ⟨i, hi, haddr⟩
      · exact .inl ⟨e, by rw [hmem, if_neg hhere, he]⟩
      · cases i with
        | zero => exact absurd (haddr.trans (BitVec.add_zero _)) hhere
        | succ i =>
          refine .inr ⟨i, Nat.lt_of_succ_lt_succ hi, ?_⟩
          have hnext : word (writeCell o L value).curAddr = word L.curAddr + 1 :=
            (word_emod _).trans (word_add _ _)
          rw [haddr, hnext, BitVec.add_assoc]
          congr 1
          rw [Nat.add_comm, BitVec.ofNat_add]
          rfl

/-- A cell without a value gets one. -/
theorem defineCells_flags {array : SymArray} {start : Word} {forRead forWrite : Bool}
    {offsets : List Nat} {mem mem' : Word → Option MemValue}
    (h : defineCells array start forRead forWrite offsets mem = .ok mem') {addr : Word}
    (haddr : HasFlags mem addr (forRead, forWrite) ∨
      mem addr = none ∧ ∃ i ∈ offsets, addr = start + BitVec.ofNat 16 i) :
    HasFlags mem' addr (forRead, forWrite) := by
  induction offsets generalizing mem with
  | nil =>
    cases h
    rcases haddr with haddr | ⟨-, i, hi, -⟩
    · exact haddr
    · exact absurd hi List.not_mem_nil
  | cons i offsets ih =>
    unfold defineCells at h
    dsimp only at h
    split at h
    · rename_i hfree
      refine ih h ?_
      by_cases hhere : addr = start + BitVec.ofNat 16 i
      · exact .inl ⟨.read array i, if_pos hhere⟩
      · rcases haddr with ⟨e, he⟩ | ⟨hnone, j, hj, haddr⟩
        · exact .inl ⟨e, (if_neg hhere).trans he⟩
        · rcases List.mem_cons.1 hj with rfl | hj
          · exact absurd haddr hhere
          · exact .inr ⟨(if_neg hhere).trans hnone, j, hj, haddr⟩
    · cases h
    · rename_i d hdata
      split at h
      · cases h
      · cases h
      · refine ih h ?_
        rcases haddr with haddr | ⟨hnone, j, hj, haddr⟩
        · exact .inl haddr
        · rcases List.mem_cons.1 hj with rfl | hj
          · rw [haddr, hdata] at hnone
            cases hnone
          · exact .inr ⟨hnone, j, hj, haddr⟩

/-- The cells of a line that stores `n` words. A symbolic variable leaves a cell alone that
has a value. -/
def Stores (L L' : Lexer) (n : Nat) (addr : Word) : Prop :=
  (∃ i < n, addr = word L.curAddr + BitVec.ofNat 16 i) ∧
    (L'.tables.symbols = L.tables.symbols ∨ L.tables.mem addr = none)

/-- Every cell that a line stores has the given flags. -/
def StoresFlags (L L' : Lexer) (n : Nat) (flags : DataFlags) : Prop :=
  ∀ addr, Stores L L' n addr → HasFlags L'.tables.mem addr flags

theorem preProcessDataLine_eq (h : L.preProcessDataLine = .ok (K, o)) :
    ∃ seen, K = { L with sawKLC3Command := seen } := by
  unfold preProcessDataLine at h
  split at h
  · obtain ⟨⟨K', o'⟩, hnone, h⟩ := Except.bind_eq_ok_iff.1 h
    cases hnone
    dsimp only at h
    split at h
    · cases h
    · cases h
      exact ⟨L.sawKLC3Command, rfl⟩
  · obtain ⟨⟨K', o'⟩, hcomment, h⟩ := Except.bind_eq_ok_iff.1 h
    dsimp only at h
    split at h
    · cases h
    · cases h
      unfold parseDataComment at hcomment
      split at hcomment
      · cases hcomment
        exact ⟨L.sawKLC3Command, rfl⟩
      · split at hcomment
        · cases hcomment
          exact ⟨L.sawKLC3Command, rfl⟩
        · obtain ⟨⟨o', seen⟩, -, hcomment⟩ := Except.bind_eq_ok_iff.1 hcomment
          cases hcomment
          exact ⟨true, rfl⟩

theorem writeFixed_flags (L : Lexer) (o : DataOptions) (isString : Bool) (values : List Word) :
    StoresFlags L (values.foldl (writeCell o) (L.addFixedVariable o isString values))
      values.length (o.readOnly, o.uninitialized) := by
  rintro addr ⟨⟨i, hi, haddr⟩, -⟩
  have hcurAddr : (L.addFixedVariable o isString values).curAddr = L.curAddr := by
    unfold addFixedVariable
    split <;> rfl
  exact writeCells_flags o values _ (.inr ⟨i, hi, by rw [hcurAddr, haddr]⟩)

theorem writeSymbolic_flags {count : Nat} (h : L.writeSymbolic o count = .ok L') :
    StoresFlags L L' count (o.readOnly, o.uninitialized) := by
  unfold writeSymbolic defineMemSymbol at h
  obtain ⟨⟨K, info⟩, hdefine, h⟩ := Except.bind_eq_ok_iff.1 h
  obtain ⟨⟨name, size⟩, -, hdefine⟩ := Except.bind_eq_ok_iff.1 hdefine
  dsimp only at hdefine h
  split at hdefine
  · cases hdefine
  · obtain ⟨mem, hcells, hdefine⟩ := Except.bind_eq_ok_iff.1 hdefine
    cases hdefine
    dsimp only at h
    split at h
    · cases h
    · rename_i hsize
      cases h
      have hcount : size.toNat = count := Int.ofNat_inj.1 (not_not.1 hsize)
      rintro addr ⟨⟨i, hi, haddr⟩, hstored⟩
      refine defineCells_flags hcells (.inr ⟨?_, i, ?_, haddr⟩)
      · rcases hstored with hsymbols | hfree
        · -- The variable is a new symbol.
          have hlength : (L.tables.symbols ++ [(name, _)]).length = L.tables.symbols.length :=
            congrArg List.length hsymbols
          rw [List.length_append, List.length_singleton] at hlength
          omega
        · exact hfree
      · rw [hcount]
        exact List.mem_range.2 hi

theorem writeFILL_flags {value : Word} (hpass : L.curPass = 2) (h : L.writeFILL value = .ok L') :
    StoresFlags L L' 1 (flagsFound L.ignoreKLC3Extension L.defaultFlags L.curLineContent) := by
  unfold writeFILL at h
  rw [if_pos hpass] at h
  obtain ⟨⟨K, o⟩, hline, h⟩ := Except.bind_eq_ok_iff.1 h
  rw [← preProcessDataLine_flags hline]
  obtain ⟨seen, rfl⟩ := preProcessDataLine_eq hline
  dsimp only at h
  split at h
  · cases h
    exact writeFixed_flags { L with sawKLC3Command := seen } o false [value]
  · obtain ⟨K', hsymbolic, h⟩ := Except.bind_eq_ok_iff.1 h
    cases h
    have hsymbolic : Lexer.writeSymbolic { L with sawKLC3Command := seen } o ((1 : Nat) : Int) =
        .ok K' := hsymbolic
    have hflags := writeSymbolic_flags hsymbolic
    exact hflags

theorem writeBLKW_flags {count : Nat} (hpass : L.curPass = 2) (h : L.writeBLKW count = .ok L') :
    StoresFlags L L' count (flagsFound L.ignoreKLC3Extension L.defaultFlags L.curLineContent) := by
  unfold writeBLKW at h
  rw [if_pos hpass] at h
  obtain ⟨⟨K, o⟩, hline, h⟩ := Except.bind_eq_ok_iff.1 h
  rw [← preProcessDataLine_flags hline]
  obtain ⟨seen, rfl⟩ := preProcessDataLine_eq hline
  dsimp only at h
  split at h
  · cases h
    have hflags := writeFixed_flags { L with sawKLC3Command := seen } o false
      (List.replicate count 0)
    rw [List.length_replicate] at hflags
    exact hflags
  · obtain ⟨K', hsymbolic, h⟩ := Except.bind_eq_ok_iff.1 h
    cases h
    have hflags := writeSymbolic_flags hsymbolic
    exact hflags

theorem writeSTRINGZ_flags {o1 : Text} {values : List Word} {lines : Nat} (hpass : L.curPass = 2)
    (hscan : scanString (o1.drop 1) = .ok (values, lines)) (h : L.writeSTRINGZ o1 = .ok L') :
    StoresFlags L L' (values.length + 1)
      (flagsFound L.ignoreKLC3Extension L.defaultFlags L.curLineContent) := by
  unfold writeSTRINGZ at h
  rw [hscan] at h
  dsimp only [Except.ok_bind'] at h
  rw [if_pos hpass] at h
  obtain ⟨⟨K, o⟩, hline, h⟩ := Except.bind_eq_ok_iff.1 h
  have hflags := preProcessDataLine_flags hline
  obtain ⟨seen, rfl⟩ := preProcessDataLine_eq hline
  dsimp only at h
  split at h
  · cases h
    have hstores := writeFixed_flags
      { L with curLine := L.curLine + lines, sawKLC3Command := seen } o true (values ++ [0])
    rw [List.length_append, List.length_singleton, hflags] at hstores
    exact hstores
  · cases h

/-! ## Lines of data -/

def isData : OPCode → Bool
  | .FILL | .STRINGZ | .BLKW => true
  | _ => false

/-- How many words a line of data occupies. -/
def dataCount (op : OPCode) (opstr : Text) : Nat :=
  match op with
  | .FILL => 1
  | .STRINGZ =>
    match scanString ((Text.skipSpace opstr).drop 1) with
    | .ok (values, _) => values.length + 1
    | .error _ => 0
  | .BLKW => (word ((readVal (Text.skipSpace opstr) 16).getD 0)).toNat
  | _ => 0

/-- Data has no operand that is read before the directive is known. -/
theorem preParse_data {op : OPCode} {type : OperandType} (hop : isData op = true)
    (haccepts : op.accepts type = true) : type.preParse = [] := by
  cases type with
  | I | L | S | none => rfl
  | _ =>
    cases op <;> first
      | (cases hop; done)
      | exact absurd haccepts (by decide)

theorem readInto_eq {s : Text} {bits : Nat} {v : Int}
    (h : L.readInto (some s) bits = .ok (L', v)) :
    v = (readVal s bits).getD 0 ∧
      ∃ errors errCount, L' = { L with errors := errors, errCount := errCount } := by
  unfold readInto at h
  dsimp only at h
  cases hval : readVal s bits with
  | some w =>
    rw [hval] at h
    cases h
    exact ⟨rfl, L.errors, L.errCount, rfl⟩
  | none =>
    rw [hval] at h
    cases h
    exact ⟨rfl, _, _, rfl⟩

theorem readTarget_eq {operands : OperandType} {o1 : Text} {bits : Nat} {v : Int}
    (h : L.readTarget operands o1 bits = .ok (L', v)) :
    ∃ errors errCount, L' = { L with errors := errors, errCount := errCount } := by
  unfold readTarget at h
  split at h
  · exact (readInto_eq h).2
  · unfold findLabel at h
    dsimp only at h
    repeat' split at h
    all_goals
      cases h
      exact ⟨_, _, rfl⟩

theorem generateInstruction_flags {type : OperandType} {opstr : Text} (hpass : L.curPass = 2)
    (hop : isData L.op = true) (haccepts : L.op.accepts type = true) (horig : L.sawORIG ≠ 0)
    (h : L.generateInstruction type opstr = .ok L') :
    StoresFlags L L' (dataCount L.op opstr)
      (flagsFound L.ignoreKLC3Extension L.defaultFlags L.curLineContent) := by
  have hnone := preParse_data hop haccepts
  have hnotORIG : L.op ≠ .ORIG := by
    intro heq
    rw [heq] at hop
    cases hop
  unfold generateInstruction at h
  rw [haccepts, if_neg (by decide)] at h
  dsimp only at h
  rw [if_neg hnotORIG, if_neg horig] at h
  obtain ⟨⟨K, p⟩, hparse, h⟩ := Except.bind_eq_ok_iff.1 h
  obtain ⟨K', hgenerate, h⟩ := Except.bind_eq_ok_iff.1 h
  cases h
  have hK : K = L := by
    have hval := preParse_val hparse
    unfold preParseVal at hval
    rw [hnone, if_neg List.not_mem_nil, if_neg List.not_mem_nil] at hval
    exact (Prod.mk.inj (Except.ok.inj hval)).1.symm
  subst hK
  suffices hflags : StoresFlags K K' (dataCount K.op opstr)
      (flagsFound K.ignoreKLC3Extension K.defaultFlags K.curLineContent) from hflags
  unfold generate at hgenerate
  cases hopcode : K.op with
  | FILL =>
    rw [hopcode] at hgenerate
    obtain ⟨⟨K₁, v⟩, hread, hwrite⟩ := Except.bind_eq_ok_iff.1 hgenerate
    obtain ⟨errors, errCount, rfl⟩ := readTarget_eq hread
    exact writeFILL_flags (L := { K with errors := errors, errCount := errCount }) hpass hwrite
  | STRINGZ =>
    rw [hopcode] at hgenerate
    unfold dataCount
    dsimp only
    cases hscan : scanString ((Text.skipSpace opstr).drop 1) with
    | error e =>
      rintro addr ⟨⟨i, hi, -⟩, -⟩
      exact absurd hi (Nat.not_lt_zero i)
    | ok scanned =>
      obtain ⟨values, lines⟩ := scanned
      exact writeSTRINGZ_flags hpass hscan hgenerate
  | BLKW =>
    rw [hopcode] at hgenerate
    obtain ⟨⟨K₁, v⟩, hread, hwrite⟩ := Except.bind_eq_ok_iff.1 hgenerate
    obtain ⟨rfl, errors, errCount, rfl⟩ := readInto_eq hread
    exact writeBLKW_flags (L := { K with errors := errors, errCount := errCount }) hpass hwrite
  | _ =>
    rw [hopcode] at hop
    cases hop

/-! ## The flags that a line is to have -/

theorem HasFlags.eq {mem : Word → Option MemValue} {addr : Word} {flags flags' : DataFlags}
    (h : HasFlags mem addr flags) (h' : HasFlags mem addr flags') : flags = flags' := by
  obtain ⟨e, he⟩ := h
  obtain ⟨e', he'⟩ := h'
  have hdata := Option.some.inj (he.symm.trans he')
  injection hdata with hdata
  injection hdata with _ hread hwrite
  exact Prod.ext hread hwrite

/-- The flags of a comment, or else the defaults. -/
def flagsGiven (ignoreKLC3Extension : Bool) (defaults : DataFlags) (comment : Text) : DataFlags :=
  (if ignoreKLC3Extension then none else explicitFlags comment).getD defaults

/-- The flags that a line with this content is to have. -/
def lineFlags (ignoreKLC3Extension : Bool) (defaults : DataFlags) (content : Text) : DataFlags :=
  match Text.commentOutside false content with
  | none => defaults
  | some comment => flagsGiven ignoreKLC3Extension defaults comment

/-- A line without a semicolon has no defaults to miss, and a semicolon inside the string
literal leads to the same flags as the comment. -/
structure FindsFlags (ignoreKLC3Extension : Bool) (defaults : DataFlags) (content : Text) :
    Prop where
  unset : Text.strchr content ';' = none → defaults = (false, false)
  inside : ∀ s, Text.strchr content ';' = some s →
    Text.commentOutside false content ≠ some (s.drop 1) →
    flagsGiven ignoreKLC3Extension defaults (s.drop 1) =
      lineFlags ignoreKLC3Extension defaults content

theorem commentOutside_none {inside : Bool} {s : Text} (h : ';' ∉ s) :
    Text.commentOutside inside s = none := by
  fun_induction Text.commentOutside inside s with
  | case1 => rfl
  | case2 c s ih => exact ih fun hmem => h (by simp [hmem])
  | case3 c s hne ih => exact ih fun hmem => h (by simp [hmem])
  | case4 s => exact absurd List.mem_cons_self h
  | case5 c s hne ih => exact ih fun hmem => h (by simp [hmem])

theorem strchr_none {s : Text} {c : Char} (h : Text.strchr s c = none) : c ∉ s := by
  intro hmem
  obtain ⟨u, v, rfl⟩ := List.append_of_mem hmem
  unfold Text.strchr at h
  split at h
  · rename_i hdrop
    have hall := List.dropWhile_eq_nil_iff.1 hdrop c (by simp)
    simp at hall
  · cases h

theorem flagsFound_eq_iff {ignore : Bool} {defaults : DataFlags} {content : Text}
    (hdefaults : ignore = true → defaults = (false, false)) :
    flagsFound ignore defaults content = lineFlags ignore defaults content ↔
      FindsFlags ignore defaults content := by
  unfold flagsFound
  cases hcomment : Text.strchr content ';' with
  | none =>
    have hnone : Text.commentOutside false content = none :=
      commentOutside_none (strchr_none hcomment)
    have hline : lineFlags ignore defaults content = defaults := by
      unfold lineFlags
      rw [hnone]
    rw [hline]
    constructor
    · intro h
      refine ⟨fun _ => h.symm, fun s hs => ?_⟩
      rw [hcomment] at hs
      cases hs
    · exact fun h => (h.unset hcomment).symm
  | some s =>
    have hgiven : (if ignore then (false, false) else (explicitFlags (s.drop 1)).getD defaults) =
        flagsGiven ignore defaults (s.drop 1) := by
      unfold flagsGiven
      cases ignore with
      | true => exact (hdefaults rfl).symm
      | false => rfl
    dsimp only
    rw [hgiven]
    constructor
    · intro h
      refine ⟨fun hnone => ?_, fun s' hs' _ => ?_⟩
      · rw [hcomment] at hnone
        cases hnone
      · rw [hcomment] at hs'
        obtain rfl := Option.some.inj hs'
        exact h
    · intro h
      by_cases hsame : Text.commentOutside false content = some (s.drop 1)
      · unfold lineFlags
        rw [hsame]
      · exact h.inside s hcomment hsame

/-- The default flags of data that the commands of a log set. -/
def loggedDefaults (log : List Command) : DataFlags :=
  (log.any Command.setsReadOnly, log.any Command.setsUninitialized)

/-- A line of data gets its flags exactly when `FindsFlags` holds of its content and of the
defaults that earlier commands of the file have set. A comment gives the flags among its
options, in any order. -/
theorem data_flags_iff {c : IssueCommands} {t : LoaderTables} {f : SourceFile}
    {before after : List Token} {type : OperandType} {text : Text} {L P P' : Lexer}
    (hfirst : (f.lexer c t).runPass 1 (before ++ .operands type text :: after) = .ok L)
    (hsecond : L.checkFirstPass.runPass 2 before = .ok P)
    (hact : P.act (.operands type text) = .ok P') (hop : isData P.op = true)
    (haccepts : P.op.accepts type = true) (horig : P.sawORIG ≠ 0)
    (hstores : ∃ addr, Stores P P' (dataCount P.op text) addr) :
    (StoresFlags P P' (dataCount P.op text)
        (lineFlags f.ignoreKLC3Extension
          (loggedDefaults ((L.checkFirstPass.startPass 2).commandLog before))
          (P.appendLineContent text).curLineContent) ↔
      FindsFlags f.ignoreKLC3Extension
        (loggedDefaults ((L.checkFirstPass.startPass 2).commandLog before))
        (P.appendLineContent text).curLineContent) ∧
    ∀ os : List DataOption, os ≠ [] → (∀ o ∈ os, o.WellFormed) →
      explicitFlags (' ' :: ("KLC3:".toList ++ DataOption.listText os)) =
        if .readOnly ∈ os ∨ .uninitialized ∈ os then
          some (decide (.readOnly ∈ os), decide (.uninitialized ∈ os))
        else none := by
  refine ⟨?_, fun os hne hos => DataOption.explicitFlags_comment hne hos⟩
  have hlogged := runPass_logged hfirst hsecond
  have hpass : P.curPass = 2 := (acts_grow hsecond).curPass
  have hignore : P.ignoreKLC3Extension = f.ignoreKLC3Extension := hlogged.ignoreKLC3Extension
  have hdefaults : P.defaultFlags =
      loggedDefaults ((L.checkFirstPass.startPass 2).commandLog before) :=
    Prod.ext hlogged.readOnly hlogged.uninitialized
  have hunset : f.ignoreKLC3Extension = true →
      loggedDefaults ((L.checkFirstPass.startPass 2).commandLog before) = (false, false) := by
    intro hset
    have hcheck := checkFirstPass_settings L
    have hrun := acts_logged rfl hfirst
    rw [commandLog_ignored (c := c)]
    · rfl
    · exact (congrArg Settings.commands hcheck).trans hrun.commands
    · exact (congrArg Settings.ignoreKLC3Extension hcheck).trans
        (hrun.ignoreKLC3Extension.trans hset)
  rw [← flagsFound_eq_iff hunset]
  have hfound := generateInstruction_flags (L := P.appendLineContent text) hpass hop haccepts horig
    hact
  have hflags : (P.appendLineContent text).defaultFlags = P.defaultFlags := rfl
  rw [hflags, hdefaults,
    show (P.appendLineContent text).ignoreKLC3Extension = f.ignoreKLC3Extension from hignore]
    at hfound
  constructor
  · intro hline
    obtain ⟨addr, haddr⟩ := hstores
    exact (hfound addr haddr).eq (hline addr haddr)
  · intro heq
    rw [← heq]
    exact hfound

/-! ## A file of read-only data -/

namespace ReadOnlyFile

def file : SourceFile where
  filename := "read_only.asm"
  isLC3OS := false
  allowInputFile := false
  collectCompileIssues := true
  ignoreKLC3Extension := false
  tokens := []

/-- The tokens up to a line with the directive `.FILL`. -/
def before : List Token :=
  [.commentLine "; KLC3: SET_DATA_DEFAULT_FLAG READ_ONLY\n".toList, .opcode .ORIG ".ORIG".toList,
    .operands .I " x3000\n".toList, .opcode .FILL ".FILL".toList]

/-- A line with a comment gets the default flag. -/
theorem commented_flags : ∃ L P P',
    (file.lexer issueCommands emptyTables).runPass 1
        (before ++ .operands .I " #1 ; one\n".toList :: [.endDirective ".END".toList]) = .ok L ∧
      L.checkFirstPass.runPass 2 before = .ok P ∧
      P.act (.operands .I " #1 ; one\n".toList) = .ok P' ∧
      StoresFlags P P' 1 (true, false) := by
  have hfirst : (file.lexer issueCommands emptyTables).runPass 1
      (before ++ .operands .I " #1 ; one\n".toList :: [.endDirective ".END".toList]) = .ok _ := rfl
  refine ⟨_, _, _, hfirst, rfl, rfl, ?_⟩
  refine (data_flags_iff hfirst rfl rfl rfl rfl Nat.one_ne_zero
    ⟨0x3000, ⟨0, Nat.one_pos, rfl⟩, .inl rfl⟩).1.2 ⟨fun h => ?_, fun s hs hne => ?_⟩
  · cases h
  · cases hs
    exact absurd rfl hne

/-- A line without a comment does not. -/
theorem uncommented_flags : ∃ L P P',
    (file.lexer issueCommands emptyTables).runPass 1
        (before ++ .operands .I " #1\n".toList :: [.endDirective ".END".toList]) = .ok L ∧
      L.checkFirstPass.runPass 2 before = .ok P ∧
      P.act (.operands .I " #1\n".toList) = .ok P' ∧
      ¬StoresFlags P P' (dataCount P.op " #1\n".toList)
        (lineFlags file.ignoreKLC3Extension
          (loggedDefaults ((L.checkFirstPass.startPass 2).commandLog before))
          (P.appendLineContent " #1\n".toList).curLineContent) := by
  refine ⟨_, _, _, rfl, rfl, rfl, fun h => ?_⟩
  obtain ⟨e, he⟩ := h 0x3000 ⟨⟨0, Nat.one_pos, rfl⟩, .inl rfl⟩
  have hstored : some (MemValue.data ⟨some (.const 1), false, false⟩) =
      some (MemValue.data ⟨some e, true, false⟩) := he
  cases hstored

-- A semicolon in a string hides the comment.
example : Text.commentOutside false ".STRINGZ \"a;b\" ; KLC3: READ_ONLY".toList =
      some " KLC3: READ_ONLY".toList ∧
    lineFlags false (false, false) ".STRINGZ \"a;b\" ; KLC3: READ_ONLY".toList = (true, false) ∧
    flagsFound false (false, false) ".STRINGZ \"a;b\" ; KLC3: READ_ONLY".toList =
      (false, false) := by
  decide

end ReadOnlyFile

end Lexer

end Klc3
