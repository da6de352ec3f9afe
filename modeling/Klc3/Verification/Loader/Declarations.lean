import Klc3.Verification.Loader.DataFlags
import Klc3.Verification.Loader.Initial

/-!
# Declared symbols

What a line with the option `SYMBOLIC as` does to the memory of the loader. A cell with
concrete data keeps its value, so a declaration takes effect exactly when its cells are free.
-/

namespace Klc3

/-- The addresses of `count` cells. -/
def cellsFrom (start : Word) (count : Nat) : List Word :=
  (List.range count).map fun i => start + BitVec.ofNat 16 i

def SymbolInfo.cells (info : SymbolInfo) : List Word :=
  cellsFrom info.startAddr info.size.toNat

/-- Each cell of a symbol holds its element of the array, with the flags of the line. -/
def SymbolInfo.Placed (info : SymbolInfo) (o : Lexer.DataOptions) (mem : Word → Option MemValue) :
    Prop :=
  ∀ i < info.size.toNat, mem (info.startAddr + BitVec.ofNat 16 i) =
    some (.data ⟨some (.read info.array i), o.readOnly, o.uninitialized⟩)

/-- The text that `defineMemSymbol` splits into the name and the size. -/
def Lexer.DataOptions.nameAndSize (o : Lexer.DataOptions) : Text :=
  if o.asSymbolic.getLast? = some ']' then o.asSymbolic else o.asSymbolic ++ "[1]".toList

/-- The symbol that `SYMBOLIC as` names, with an array of its name and size. -/
structure SymbolInfo.NamedBy (info : SymbolInfo) (o : Lexer.DataOptions) : Prop where
  name : info.name = o.asSymbolic.takeWhile (· != '[')
  size : Lexer.splitNameAndSubscript o.nameAndSize = .ok (info.name, info.size)
  array : info.array = ⟨String.ofList info.name, info.size.toNat⟩

theorem Lexer.DataOptions.takeWhile_nameAndSize (o : Lexer.DataOptions) :
    o.nameAndSize.takeWhile (· != '[') = o.asSymbolic.takeWhile (· != '[') := by
  unfold nameAndSize
  split
  · rfl
  · rw [List.takeWhile_append]
    split
    · rename_i hall
      have hsame : o.asSymbolic.takeWhile (· != '[') = o.asSymbolic :=
        (List.takeWhile_prefix _).eq_of_length hall
      rw [hsame]
      exact List.append_nil _
    · rfl

theorem Lexer.splitNameAndSubscript_name {s name : Text} {size : Word}
    (h : splitNameAndSubscript s = .ok (name, size)) : name = s.takeWhile (· != '[') := by
  unfold splitNameAndSubscript at h
  split at h
  · cases h
  · split at h
    · cases h
    · cases h
      rfl

theorem mem_cellsFrom {start addr : Word} {count : Nat} :
    addr ∈ cellsFrom start count ↔ ∃ i < count, addr = start + BitVec.ofNat 16 i := by
  simp only [cellsFrom, List.mem_map, List.mem_range, eq_comm]

namespace LoaderTables

/-- The symbols of both tables are the same, and no cell is freed. -/
structure Retains (t t' : LoaderTables) : Prop where
  symbols : t'.symbols = t.symbols
  mem : ∀ addr, (t.mem addr).isSome → (t'.mem addr).isSome

theorem Retains.refl (t : LoaderTables) : Retains t t :=
  ⟨rfl, fun _ => id⟩

theorem Retains.trans {t t' t'' : LoaderTables} (h : Retains t t') (h' : Retains t' t'') :
    Retains t t'' :=
  ⟨h'.symbols.trans h.symbols, fun addr haddr => h'.mem addr (h.mem addr haddr)⟩

/-- Tables with the same symbols and the same memory. -/
theorem Retains.of_eq {t t' : LoaderTables} (hsymbols : t'.symbols = t.symbols)
    (hmem : t'.mem = t.mem) : Retains t t' :=
  ⟨hsymbols, fun addr haddr => by rw [hmem]; exact haddr⟩

/-- A symbol is declared. It takes effect only where the memory was free. -/
structure Introduces (t t' : LoaderTables) (info : SymbolInfo) (o : Lexer.DataOptions) :
    Prop where
  named : info.NamedBy o
  symbols : t'.symbols = t.symbols ++ [(info.name, info)]
  mem : ∀ addr, (t.mem addr).isSome → (t'.mem addr).isSome
  filled : ∀ addr ∈ info.cells, (t'.mem addr).isSome
  placed : info.Placed o t'.mem ↔ ∀ addr ∈ info.cells, t.mem addr = none

end LoaderTables

theorem IssueCommands.issue_retains {c : IssueCommands} {s s' : Text} {t t' : LoaderTables}
    (h : c.commands.issue s t = .ok (s', t')) : t.Retains t' := by
  obtain ⟨⟨s₁, command⟩, -, h⟩ := Except.bind_eq_ok_iff.1 h
  obtain ⟨t₁, hrun, h⟩ := Except.bind_eq_ok_iff.1 h
  cases h
  obtain ⟨pkg, checker, rfl⟩ := IssueCommand.run_eq hrun
  exact .of_eq rfl rfl

theorem IssueCommands.check_retains {c : IssueCommands} {s s' : Text} {t t' : LoaderTables}
    (h : c.commands.check s t = .ok (s', t')) : t.Retains t' := by
  obtain ⟨⟨s₁, issue, thing⟩, -, h⟩ := Except.bind_eq_ok_iff.1 h
  cases h
  exact .of_eq rfl rfl

namespace Lexer

variable {L L' K : Lexer} {o : DataOptions}

/-! ## The cells of a symbol -/

section

variable {array : SymArray} {start : Word} {forRead forWrite : Bool} {offsets : List Nat}
  {mem mem' : Word → Option MemValue}

theorem defineCells_keeps (h : defineCells array start forRead forWrite offsets mem = .ok mem')
    {addr : Word} {v : MemValue} (hv : mem addr = some v) : mem' addr = some v := by
  induction offsets generalizing mem with
  | nil =>
    cases h
    exact hv
  | cons i offsets ih =>
    unfold defineCells at h
    dsimp only at h
    split at h
    · rename_i hnone
      apply ih h
      by_cases haddr : addr = start + BitVec.ofNat 16 i
      · rw [haddr, hnone] at hv
        cases hv
      · rw [if_neg haddr, hv]
    · cases h
    · split at h
      · cases h
      · cases h
      · exact ih h hv

theorem defineCells_filled (h : defineCells array start forRead forWrite offsets mem = .ok mem') :
    ∀ i ∈ offsets, (mem' (start + BitVec.ofNat 16 i)).isSome := by
  induction offsets generalizing mem with
  | nil => simp
  | cons i offsets ih =>
    unfold defineCells at h
    dsimp only at h
    refine List.forall_mem_cons.2 ?_
    split at h
    · refine ⟨?_, ih h⟩
      rw [defineCells_keeps h (if_pos rfl)]
      rfl
    · cases h
    · rename_i d hd
      split at h
      · cases h
      · cases h
      · refine ⟨?_, ih h⟩
        rw [defineCells_keeps h hd]
        rfl

/-- A cell that is not free holds no element of an array, or the program exits. -/
theorem defineCells_concrete (h : defineCells array start forRead forWrite offsets mem = .ok mem')
    {i : Nat} (hi : i ∈ offsets) {d : DataValue} {a : SymArray} {j : Nat}
    (hread : d.e = some (.read a j)) : mem (start + BitVec.ofNat 16 i) ≠ some (.data d) := by
  induction offsets generalizing mem with
  | nil => cases hi
  | cons k offsets ih =>
    intro hmem
    unfold defineCells at h
    dsimp only at h
    split at h
    · rename_i hnone
      rcases List.mem_cons.1 hi with rfl | hi
      · rw [hnone] at hmem
        cases hmem
      · apply ih h hi
        by_cases haddr : start + BitVec.ofNat 16 i = start + BitVec.ofNat 16 k
        · rw [haddr, hnone] at hmem
          cases hmem
        · rw [if_neg haddr, hmem]
    · cases h
    · rename_i d' hd'
      rcases List.mem_cons.1 hi with rfl | hi
      · obtain rfl : d' = d := MemValue.data.inj (Option.some.inj (hd'.symm.trans hmem))
        rw [hread] at h
        cases h
      · split at h
        · cases h
        · cases h
        · exact ih h hi hmem

end

/-- The options of a data line. -/
def lineOptions (L : Lexer) : Except Abort DataOptions :=
  L.preProcessDataLine.map Prod.snd

theorem lineOptions_errors (L : Lexer) (errors : List CompileErr) (errCount curLine : Nat) :
    ({ L with errors := errors, errCount := errCount, curLine := curLine } : Lexer).lineOptions =
      L.lineOptions := by
  unfold lineOptions preProcessDataLine parseDataComment
  dsimp only
  cases (splitComment L.curLineContent).2 with
  | none => rfl
  | some comment =>
    dsimp only
    by_cases hignore : L.ignoreKLC3Extension = true
    · rw [if_pos hignore, if_pos hignore]
      rfl
    · rw [if_neg hignore, if_neg hignore]
      cases Text.matchStartAndTrim (Text.strip comment) "KLC3: ".toList with
      | none => rfl
      | some s =>
        dsimp only
        cases parseDataOptions (s.length + 1) s ⟨false, false, [], []⟩ false with
        | error e => rfl
        | ok p =>
          obtain ⟨o, seen⟩ := p
          simp only [Except.ok_bind', pure_bind]
          split <;> split <;> rfl

theorem writeSymbolic_introduces {count : Nat} (h : L.writeSymbolic o count = .ok L') :
    ∃ info, info.cells = cellsFrom (word L.curAddr) count ∧
      L.tables.Introduces L'.tables info o := by
  obtain ⟨⟨K, info⟩, hdefine, h⟩ := Except.bind_eq_ok_iff.1 h
  dsimp only at h
  split at h
  · cases h
  rename_i hcount
  cases h
  unfold defineMemSymbol at hdefine
  obtain ⟨⟨name, size⟩, hsplit, hdefine⟩ := Except.bind_eq_ok_iff.1 hdefine
  dsimp only at hdefine
  split at hdefine
  · cases hdefine
  obtain ⟨mem, hcells, hdefine⟩ := Except.bind_eq_ok_iff.1 hdefine
  cases hdefine
  obtain rfl : size.toNat = count := Nat.cast_injective (not_not.1 hcount)
  have hsplit : splitNameAndSubscript o.nameAndSize = .ok (name, size) := hsplit
  have hname : name = o.asSymbolic.takeWhile (· != '[') :=
    (splitNameAndSubscript_name hsplit).trans o.takeWhile_nameAndSize
  refine ⟨⟨name, size, word L.curAddr, ⟨String.ofList name, size.toNat⟩⟩, rfl,
    ⟨hname, hsplit, rfl⟩, rfl, fun addr haddr => ?_, ?_, ?_⟩
  · obtain ⟨v, hv⟩ := Option.isSome_iff_exists.1 haddr
    exact Option.isSome_iff_exists.2 ⟨v, defineCells_keeps hcells hv⟩
  · intro addr haddr
    obtain ⟨i, hi, rfl⟩ := mem_cellsFrom.1 haddr
    exact defineCells_filled hcells i (List.mem_range.2 hi)
  · constructor
    · intro hplaced addr haddr
      obtain ⟨i, hi, rfl⟩ := mem_cellsFrom.1 haddr
      apply Option.eq_none_iff_forall_ne_some.2
      intro v hv
      have hread := (defineCells_keeps hcells hv).symm.trans (hplaced i hi)
      cases hread
      exact defineCells_concrete hcells (List.mem_range.2 hi) rfl hv
    · intro hfree
      obtain ⟨hspec, -⟩ := defineCells_spec hcells List.nodup_range
        (fun i hi => Nat.lt_trans (List.mem_range.1 hi) size.isLt)
        fun i hi => hfree _ (mem_cellsFrom.2 ⟨i, List.mem_range.1 hi, rfl⟩)
      exact fun i hi => hspec i (List.mem_range.2 hi)

/-! ## Data lines -/

/-- A symbol that a line declares: the options of the line, and the cells. -/
structure Declaration where
  options : DataOptions
  cells : List Word

/-- What a data line with `count` cells declares. -/
def dataDeclaration (L : Lexer) (count : Nat) : Option Declaration :=
  if L.curPass = 2 then
    match L.lineOptions with
    | .ok o => if o.asSymbolic.isEmpty then none else some ⟨o, cellsFrom (word L.curAddr) count⟩
    | .error _ => none
  else none

/-- What a line does to the symbols and the memory, given what it declares. -/
def Declares (t t' : LoaderTables) : Option Declaration → Prop
  | none => t.Retains t'
  | some d => ∃ info, info.cells = d.cells ∧ t.Introduces t' info d.options

theorem dataDeclaration_errors (L : Lexer) (errors : List CompileErr) (errCount curLine : Nat)
    (count : Nat) :
    ({ L with errors := errors, errCount := errCount, curLine := curLine } : Lexer).dataDeclaration
      count = L.dataDeclaration count := by
  unfold dataDeclaration
  rw [lineOptions_errors]

theorem dataDeclaration_none (hpass : L.curPass ≠ 2) (count : Nat) :
    L.dataDeclaration count = none :=
  if_neg hpass

theorem dataDeclaration_eq (hpass : L.curPass = 2) (h : L.preProcessDataLine = .ok (K, o))
    (count : Nat) : L.dataDeclaration count =
      if o.asSymbolic.isEmpty then none
      else some ⟨o, cellsFrom (word L.curAddr) count⟩ := by
  unfold dataDeclaration lineOptions
  rw [if_pos hpass, h]
  rfl

/-- A line without the option `SYMBOLIC as`. -/
theorem fixedLine_declares (hpass : L.curPass = 2) (hline : L.preProcessDataLine = .ok (K, o))
    (hempty : o.asSymbolic.isEmpty) {t : LoaderTables} (h : K.tables.Retains t) (count : Nat) :
    Declares L.tables t (L.dataDeclaration count) := by
  obtain ⟨seen, rfl⟩ := preProcessDataLine_eq hline
  rw [dataDeclaration_eq hpass hline, if_pos hempty]
  exact h

/-- A line with that option. -/
theorem symbolicLine_declares (hpass : L.curPass = 2) (hline : L.preProcessDataLine = .ok (K, o))
    (hname : ¬o.asSymbolic.isEmpty) {count : Nat} (h : K.writeSymbolic o count = .ok L') :
    Declares L.tables L'.tables (L.dataDeclaration count) := by
  obtain ⟨info, hcells, hinfo⟩ := writeSymbolic_introduces h
  obtain ⟨seen, rfl⟩ := preProcessDataLine_eq hline
  rw [dataDeclaration_eq hpass hline, if_neg hname]
  exact ⟨info, hcells, hinfo⟩

theorem addMemValue_retains (L : Lexer) (value : MemValue) :
    L.tables.Retains (L.addMemValue value).tables := by
  refine ⟨rfl, fun addr haddr => ?_⟩
  unfold addMemValue
  dsimp only
  split
  · rfl
  · exact haddr

theorem addFixedVariable_retains (L : Lexer) (o : DataOptions) (isString : Bool)
    (values : List Word) : L.tables.Retains (L.addFixedVariable o isString values).tables := by
  unfold addFixedVariable
  split
  · exact .of_eq rfl rfl
  · exact .refl _

theorem writeCells_retains (o : DataOptions) (values : List Word) (L : Lexer) :
    L.tables.Retains (values.foldl (writeCell o) L).tables := by
  induction values generalizing L with
  | nil => exact .refl _
  | cons value values ih =>
    have hcell : L.tables.Retains (writeCell o L value).tables := addMemValue_retains L _
    exact hcell.trans (ih _)

theorem writeFixed_retains (L : Lexer) (o : DataOptions) (isString : Bool) (values : List Word) :
    L.tables.Retains (values.foldl (writeCell o) (L.addFixedVariable o isString values)).tables :=
  (addFixedVariable_retains L o isString values).trans (writeCells_retains o values _)

theorem writeFILL_declares {value : Word} (h : L.writeFILL value = .ok L') :
    Declares L.tables L'.tables (L.dataDeclaration 1) := by
  unfold writeFILL at h
  split at h
  · rename_i hpass
    obtain ⟨⟨K, o⟩, hline, h⟩ := Except.bind_eq_ok_iff.1 h
    dsimp only at h
    split at h
    · rename_i hempty
      cases h
      exact fixedLine_declares hpass hline hempty (writeFixed_retains K o false [value]) 1
    · rename_i hname
      obtain ⟨K', hsymbolic, h⟩ := Except.bind_eq_ok_iff.1 h
      cases h
      have hdeclares : Declares L.tables K'.tables (L.dataDeclaration 1) :=
        symbolicLine_declares hpass hline hname hsymbolic
      exact hdeclares
  · rename_i hpass
    cases h
    rw [dataDeclaration_none hpass]
    exact .refl _

theorem writeBLKW_declares {count : Nat} (h : L.writeBLKW count = .ok L') :
    Declares L.tables L'.tables (L.dataDeclaration count) := by
  unfold writeBLKW at h
  split at h
  · rename_i hpass
    obtain ⟨⟨K, o⟩, hline, h⟩ := Except.bind_eq_ok_iff.1 h
    dsimp only at h
    split at h
    · rename_i hempty
      cases h
      exact fixedLine_declares hpass hline hempty (writeFixed_retains K o false _) count
    · rename_i hname
      obtain ⟨K', hsymbolic, h⟩ := Except.bind_eq_ok_iff.1 h
      cases h
      have hdeclares : Declares L.tables K'.tables (L.dataDeclaration count) :=
        symbolicLine_declares hpass hline hname hsymbolic
      exact hdeclares
  · rename_i hpass
    cases h
    rw [dataDeclaration_none hpass]
    exact .refl _

/-- A string with the option `SYMBOLIC as` ends the program. -/
theorem writeSTRINGZ_declares {o1 : Text} (h : L.writeSTRINGZ o1 = .ok L') (count : Nat) :
    Declares L.tables L'.tables (L.dataDeclaration count) := by
  unfold writeSTRINGZ at h
  obtain ⟨⟨values, lines⟩, hscan, h⟩ := Except.bind_eq_ok_iff.1 h
  dsimp only at h
  split at h
  · rename_i hpass
    obtain ⟨⟨K, o⟩, hline, h⟩ := Except.bind_eq_ok_iff.1 h
    dsimp only at h
    split at h
    · rename_i hempty
      cases h
      have hfixed := fixedLine_declares (L := { L with curLine := L.curLine + lines }) hpass hline
        hempty (writeFixed_retains K o true (values ++ [0])) count
      rw [dataDeclaration_errors L L.errors L.errCount] at hfixed
      exact hfixed
    · cases h
  · rename_i hpass
    cases h
    rw [dataDeclaration_none hpass]
    exact .refl _

/-! ## Instructions -/

theorem writeInst_retains {raw : Word} (h : L.writeInst raw = .ok L') :
    L.tables.Retains L'.tables := by
  unfold writeInst at h
  split at h
  · dsimp only at h
    have emit : ∀ {K : Lexer} {asked : Text}, K.tables = L.tables →
        (do let i ← K.allocInst raw (if asked.isEmpty then (splitComment L.curLineContent).1
              else asked)
            let K := K.addMemValue (.inst i)
            let K := if K.loadingInputFile then
                K.addVariable ⟨i.sourceContent.toList, word K.curAddr, 1, false, false, [raw], none⟩
              else K
            return K.advance 1) = .ok L' → L.tables.Retains L'.tables := by
      intro K asked hK h
      obtain ⟨i, -, h⟩ := Except.bind_eq_ok_iff.1 h
      rw [← hK]
      refine (addMemValue_retains K (.inst i)).trans ?_
      dsimp only at h
      split at h
      · cases h
        exact .of_eq rfl rfl
      · cases h
        exact .refl _
    split at h
    · exact emit rfl h
    · obtain ⟨⟨K, asked⟩, hcomment, h⟩ := Except.bind_eq_ok_iff.1 h
      refine emit ?_ h
      unfold parseInstComment at hcomment
      split at hcomment
      · cases hcomment
        rfl
      · obtain ⟨content, -, hcomment⟩ := Except.bind_eq_ok_iff.1 hcomment
        cases hcomment
        rfl
  · cases h
    exact .refl _

section

variable {s o1 o2 o3 : Option Text} {bits : Nat} {v : Int} {operands : OperandType} {p : Parsed}

theorem readInto_tables (h : L.readInto s bits = .ok (L', v)) : L'.tables = L.tables := by
  unfold readInto at h
  split at h
  · cases h
  · split at h <;> (cases h; rfl)

theorem preParseVal_eq (h : L.preParseVal operands o2 = .ok (L', v)) :
    ∃ errors errCount, L' = { L with errors := errors, errCount := errCount } := by
  unfold preParseVal at h
  split at h
  · cases o2 with
    | none => cases h
    | some s => exact (readInto_eq h).2
  · split at h
    · unfold findLabel at h
      dsimp only at h
      repeat' split at h
      all_goals
        cases h
        try exact ⟨_, _, rfl⟩
    · cases h
      exact ⟨_, _, rfl⟩

/-- Only data lines declare symbols. -/
theorem generate_retains {o1 : Text} (hop : isData L.op = false)
    (h : L.generate operands o1 o3 p = .ok L') : L.tables.Retains L'.tables := by
  have target : ∀ {K : Lexer} {bits : Nat} {v : Int} {raw : Word},
      L.readTarget operands o1 bits = .ok (K, v) → K.writeInst raw = .ok L' →
        L.tables.Retains L'.tables := by
    intro K bits v raw hread hwrite
    have hK : K.tables = L.tables := by
      obtain ⟨errors, errCount, rfl⟩ := readTarget_eq hread
      rfl
    rw [← hK]
    exact writeInst_retains hwrite
  have immediate : ∀ {K : Lexer} {o : Option Text} {bits : Nat} {v : Int} {raw : Word},
      L.readInto o bits = .ok (K, v) → K.writeInst raw = .ok L' → L.tables.Retains L'.tables := by
    intro K o bits v raw hread hwrite
    rw [← readInto_tables hread]
    exact writeInst_retains hwrite
  unfold generate at h
  dsimp only at h
  cases hopcode : L.op <;> rw [hopcode] at h hop
  case FILL | STRINGZ | BLKW => cases hop
  case ADD | AND =>
    dsimp only at h
    split at h
    · obtain ⟨⟨K, v⟩, hread, h⟩ := Except.bind_eq_ok_iff.1 h
      exact immediate hread h
    · exact writeInst_retains h
  case BR | JSR =>
    obtain ⟨⟨K, v⟩, hread, h⟩ := Except.bind_eq_ok_iff.1 h
    exact target hread h
  case LDR | STR | TRAP =>
    obtain ⟨⟨K, v⟩, hread, h⟩ := Except.bind_eq_ok_iff.1 h
    exact immediate hread h
  case NONE | ORIG | END =>
    cases h
    exact .refl _
  all_goals exact writeInst_retains h

theorem generateORIG_retains {o1 : Text} (h : L.generateORIG o1 = .ok L') :
    L.tables.Retains L'.tables := by
  unfold generateORIG at h
  split at h
  · obtain ⟨⟨K, addr⟩, hread, h⟩ := Except.bind_eq_ok_iff.1 h
    cases h
    have hK : K.tables = L.tables := readInto_tables hread
    exact .of_eq (congrArg LoaderTables.symbols hK) (congrArg LoaderTables.mem hK)
  · split at h
    · cases h
      exact .of_eq rfl rfl
    · cases h
      exact .refl _

/-- What a line of the source declares. -/
def lineDeclaration (L : Lexer) (type : OperandType) (opstr : Text) : Option Declaration :=
  if isData L.op ∧ L.op.accepts type ∧ L.sawORIG ≠ 0 then
    L.dataDeclaration (dataCount L.op opstr)
  else none

theorem generate_declares {opstr : Text} (hop : isData L.op = true)
    (h : L.generate operands (Text.skipSpace opstr) o3 p = .ok L') :
    Declares L.tables L'.tables (L.dataDeclaration (dataCount L.op opstr)) := by
  unfold generate at h
  dsimp only at h
  cases hopcode : L.op with
  | FILL =>
    rw [hopcode] at h
    obtain ⟨⟨K, v⟩, hread, hwrite⟩ := Except.bind_eq_ok_iff.1 h
    obtain ⟨errors, errCount, rfl⟩ := readTarget_eq hread
    have hdeclares := writeFILL_declares hwrite
    rw [dataDeclaration_errors L errors errCount L.curLine] at hdeclares
    exact hdeclares
  | STRINGZ =>
    rw [hopcode] at h
    exact writeSTRINGZ_declares h _
  | BLKW =>
    rw [hopcode] at h
    obtain ⟨⟨K, v⟩, hread, hwrite⟩ := Except.bind_eq_ok_iff.1 h
    obtain ⟨rfl, errors, errCount, rfl⟩ := readInto_eq hread
    have hdeclares := writeBLKW_declares hwrite
    rw [dataDeclaration_errors L errors errCount L.curLine] at hdeclares
    exact hdeclares
  | _ =>
    rw [hopcode] at hop
    cases hop

theorem generateInstruction_declares {opstr : Text}
    (h : L.generateInstruction operands opstr = .ok L') :
    Declares L.tables L'.tables (L.lineDeclaration operands opstr) := by
  unfold lineDeclaration
  by_cases haccepts : L.op.accepts operands = true
  · unfold generateInstruction at h
    rw [haccepts, if_neg (by decide)] at h
    dsimp only at h
    by_cases hORIG : L.op = .ORIG
    · rw [if_pos hORIG] at h
      obtain ⟨K, hgenerate, h⟩ := Except.bind_eq_ok_iff.1 h
      cases h
      rw [if_neg (by rw [hORIG]; rintro ⟨hop, -⟩; cases hop)]
      have hretains : L.tables.Retains K.tables := generateORIG_retains hgenerate
      exact hretains
    · rw [if_neg hORIG] at h
      by_cases horig : L.sawORIG = 0
      · rw [if_pos horig] at h
        cases h
        rw [if_neg fun hline => hline.2.2 horig]
        exact .of_eq rfl rfl
      · rw [if_neg horig] at h
        obtain ⟨⟨K, p⟩, hparse, h⟩ := Except.bind_eq_ok_iff.1 h
        obtain ⟨K', hgenerate, h⟩ := Except.bind_eq_ok_iff.1 h
        cases h
        have hval := preParse_val hparse
        by_cases hop : isData L.op = true
        · unfold preParseVal at hval
          rw [preParse_data hop haccepts, if_neg List.not_mem_nil, if_neg List.not_mem_nil] at hval
          obtain rfl : L = K := (Prod.mk.inj (Except.ok.inj hval)).1
          rw [if_pos ⟨hop, haccepts, horig⟩]
          have hdeclares : Declares L.tables K'.tables
              (L.dataDeclaration (dataCount L.op opstr)) := generate_declares hop hgenerate
          exact hdeclares
        · rw [if_neg fun hline => hop hline.1]
          obtain ⟨errors, errCount, rfl⟩ := preParseVal_eq hval
          have hretains : L.tables.Retains K'.tables :=
            generate_retains (L := { L with errors := errors, errCount := errCount })
              (Bool.eq_false_iff.2 hop) hgenerate
          exact hretains
  · unfold generateInstruction at h
    rw [Bool.not_eq_true] at haccepts
    rw [haccepts, if_pos (by rfl)] at h
    cases h
    rw [if_neg (by rw [haccepts]; rintro ⟨-, hfalse, -⟩; cases hfalse)]
    exact .of_eq rfl rfl

end

/-! ## Comments -/

theorem parseCommands_retains {c : IssueCommands} (hc : L.commands = c.commands) {fuel : Nat}
    {s : Text} (h : parseCommands fuel s L = .ok L') :
    L'.commands = L.commands ∧ L.tables.Retains L'.tables := by
  induction fuel generalizing s L with
  | zero => cases h
  | succ fuel ih =>
    have next : ∀ {K : Lexer} {s : Text}, parseCommands fuel s K = .ok L' →
        K.commands = L.commands → L.tables.Retains K.tables →
          L'.commands = L.commands ∧ L.tables.Retains L'.tables := by
      intro K s h hcommands hretains
      obtain ⟨hcommands', hretains'⟩ := ih (hcommands.trans hc) h
      exact ⟨hcommands'.trans hcommands, hretains.trans hretains'⟩
    unfold parseCommands at h
    repeat' split at h
    all_goals first
      | (cases h; done)
      | (cases h; exact ⟨rfl, .of_eq rfl rfl⟩)
      | exact next h rfl (.of_eq rfl rfl)
      | (obtain ⟨⟨x, tables⟩, hrun, h⟩ := Except.bind_eq_ok_iff.1 h
         rw [hc] at hrun
         first
           | exact next h rfl (IssueCommands.issue_retains hrun)
           | exact next h rfl (IssueCommands.check_retains hrun)
           | (cases h
              obtain ⟨cs, ps, files, rfl⟩ := LoaderTables.processConstraintLine_eq hrun
              exact ⟨rfl, .of_eq rfl rfl⟩))

theorem parseComment_retains {c : IssueCommands} (hc : L.commands = c.commands) {comment : Text}
    (h : L.parseComment comment = .ok L') :
    L'.commands = L.commands ∧ L.tables.Retains L'.tables := by
  unfold parseComment at h
  split at h
  · cases h
    exact ⟨rfl, .refl _⟩
  · split at h
    · cases h
      exact ⟨rfl, .refl _⟩
    · dsimp only at h
      split at h
      · cases h
        exact ⟨rfl, .refl _⟩
      · exact parseCommands_retains (L := { L with sawKLC3Command := true }) hc h

theorem foundLabel_tables (L : Lexer) (s : Text) : (L.foundLabel s).tables = L.tables := by
  unfold foundLabel
  dsimp only
  split
  · split
    · rfl
    · unfold addSymbol
      split
      · rfl
      · rename_i K hadd
        split at hadd
        · cases hadd
        · cases hadd
          rfl
  · rfl

/-- What a token declares. -/
def declaration (L : Lexer) : Token → Option Declaration
  | .operands type text => (L.appendLineContent text).lineDeclaration type text
  | _ => none

/-- A step of a pass declares at most one symbol. -/
theorem act_declares {c : IssueCommands} (hc : L.commands = c.commands) {token : Token}
    (h : L.act token = .ok L') :
    L'.commands = L.commands ∧ Declares L.tables L'.tables (L.declaration token) := by
  cases token with
  | operands type text =>
    exact ⟨(congrArg Settings.commands (generateInstruction_settings h) : _),
      generateInstruction_declares h⟩
  | commentLine text =>
    obtain ⟨K, hcomment, h⟩ := Except.bind_eq_ok_iff.1 h
    cases h
    have hretains : K.commands = L.commands ∧ L.tables.Retains K.tables :=
      parseComment_retains (L := L.appendLineContent text) hc hcomment
    exact hretains
  | opcode op text =>
    cases h
    split <;> exact ⟨rfl, .of_eq rfl rfl⟩
  | label text =>
    cases h
    refine ⟨congrArg Settings.commands (foundLabel_settings L text), ?_⟩
    have htables : (L.foundLabel text).tables = L.tables := foundLabel_tables L text
    exact .of_eq (congrArg LoaderTables.symbols htables) (congrArg LoaderTables.mem htables)
  | endDirective _ | blankLine | unterminatedString | badOperands | badLine | blankAfterEnd |
    ignored =>
    cases h
    exact ⟨rfl, .of_eq rfl rfl⟩

end Lexer

end Klc3
