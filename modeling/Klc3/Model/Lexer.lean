import Klc3.Model.CrossChecker
import Klc3.Model.Text

/-!
# The assembler

`KLC3Loader::Lexer`. A pass runs over the tokens that the scanner finds in a source file.
The first pass records the labels, the second one emits instructions and data.
-/

namespace Klc3

/-- `Lexer::OPCode`. -/
inductive OPCode where
  | NONE
  | ADD | AND | BR | JMP | JSR | JSRR | LD | LDI | LDR | LEA | NOT | RTI | ST | STI | STR | TRAP
  | GETC | HALT | IN | OUT | PUTS | PUTSP
  | FILL | RET | STRINGZ
  | BLKW | END | ORIG
deriving DecidableEq, Repr

/-- `Lexer::OperandType`. -/
inductive OperandType where
  | RRR | RRI | RR | RI | RL | R | I | L | S | none
deriving DecidableEq, Repr

def OperandType.index : OperandType → Nat
  | RRR => 0 | RRI => 1 | RR => 2 | RI => 3 | RL => 4 | R => 5 | I => 6 | L => 7 | S => 8 | none => 9

/-- `Lexer::OPNAMES`. -/
def OPCode.name : OPCode → String
  | NONE => "missing opcode"
  | ADD => "ADD" | AND => "AND" | BR => "BR" | JMP => "JMP" | JSR => "JSR" | JSRR => "JSRR"
  | LD => "LD" | LDI => "LDI" | LDR => "LDR" | LEA => "LEA" | NOT => "NOT" | RTI => "RTI"
  | ST => "ST" | STI => "STI" | STR => "STR" | TRAP => "TRAP"
  | GETC => "GETC" | HALT => "HALT" | IN => "IN" | OUT => "OUT" | PUTS => "PUTS" | PUTSP => "PUTSP"
  | FILL => ".FILL" | RET => "RET" | STRINGZ => ".STRINGZ"
  | BLKW => ".BLKW" | END => ".END" | ORIG => ".ORIG"

/-- `Lexer::OP_FORMAT_OK`. -/
def OPCode.formatOK : OPCode → Nat
  | NONE => 0x200
  | ADD => 0x003 | AND => 0x003 | BR => 0x0C0 | JMP => 0x020 | JSR => 0x0C0 | JSRR => 0x020
  | LD => 0x018 | LDI => 0x018 | LDR => 0x002 | LEA => 0x018 | NOT => 0x004 | RTI => 0x200
  | ST => 0x018 | STI => 0x018 | STR => 0x002 | TRAP => 0x040
  | GETC => 0x200 | HALT => 0x200 | IN => 0x200 | OUT => 0x200 | PUTS => 0x200 | PUTSP => 0x200
  | FILL => 0x0C0 | RET => 0x200 | STRINGZ => 0x100
  | BLKW => 0x040 | END => 0x200 | ORIG => 0x040

def OPCode.accepts (op : OPCode) (operands : OperandType) : Bool :=
  op.formatOK.testBit operands.index

/-- `Lexer::PreParse`, what is read before the instruction is known. -/
inductive PreParse where
  | R1 | R2 | R3 | I2 | L2
deriving DecidableEq, Repr

/-- `Lexer::PRE_PARSE`. -/
def OperandType.preParse : OperandType → List PreParse
  | RRR => [.R1, .R2, .R3]
  | RRI => [.R1, .R2]
  | RR => [.R1, .R2]
  | RI => [.R1, .I2]
  | RL => [.R1, .L2]
  | R => [.R1]
  | I | L | S | none => []

/-- `Lexer::CCode`. -/
def CC_P : Word := 0x0200
def CC_Z : Word := 0x0400
def CC_N : Word := 0x0800

/-- The messages of `reportCompileErr`. -/
inductive CompileErr where
  | onlyComments
  | noORIGOrEND
  | noORIG
  | noEND
  | illegalOperands (op : OPCode)
  | unterminatedString
  | unrecognizable
  | constantOutside
  | labelDistance (name : Text) (distance limit : Int)
  | unknownLabel (name : Text)
  | multipleORIG
  | beforeORIG
  | labelBeforeORIG
  | labelTwice (name : Text)
deriving DecidableEq

def CompileErr.message : CompileErr → String
  | onlyComments => "file contains only comments"
  | noORIGOrEND => "no .ORIG or .END directive found"
  | noORIG => "no .ORIG directive found"
  | noEND => "no .END directive found"
  | illegalOperands op => "illegal operands for " ++ op.name
  | unterminatedString => "unterminated string"
  | unrecognizable => "contains unrecognizable characters"
  | constantOutside => "constant outside of allowed range"
  | labelDistance name distance limit =>
    "label \"" ++ String.ofList name ++ "\" at distance " ++ toString distance ++
      " (allowed range is " ++ toString (-limit) ++ " to " ++ toString (limit - 1) ++ ")"
  | unknownLabel name => "unknown label \"" ++ String.ofList name ++ "\""
  | multipleORIG => "multiple .ORIG directives found"
  | beforeORIG => "instruction appears before .ORIG"
  | labelBeforeORIG => "label appears before .ORIG"
  | labelTwice name => "label " ++ String.ofList name ++ " has already appeared"

/-- `InputVariable`. -/
structure InputVariable where
  name : Text
  startAddr : Word
  size : Word
  isSymbolic : Bool
  isString : Bool
  fixedValues : List Word
  array : Option SymArray

/-- `InputFile`. -/
structure InputFile where
  filename : String
  commentLines : List Text
  startAddr : Word
  inputVariables : List InputVariable

/-- `KLC3Loader::SymbolInfo`. -/
structure SymbolInfo where
  name : Text
  size : Word
  startAddr : Word
  array : SymArray

/-- The tables of the loader that its lexers share. -/
structure LoaderTables where
  symbols : List (Text × SymbolInfo)
  mem : Word → Option MemValue
  constraints : List BoolExpr
  preferences : List BoolExpr
  initPC : Word
  loadedPrograms : List String
  inputFiles : List InputFile
  issuePackage : IssuePackage
  crossChecker : Option CrossChecker

/-- The commands of `parseComment` that work on the tables only. Each is given the rest of
the line. `SYMBOLIC` takes all of it and steps `charPreferenceLowerBound`, the other two
return what is left. -/
structure Commands where
  symbolic : Text → Nat → LoaderTables → Except Abort (Nat × LoaderTables)
  issue : Text → LoaderTables → Except Abort (Text × LoaderTables)
  check : Text → LoaderTables → Except Abort (Text × LoaderTables)

/-- `KLC3Loader::Lexer`, and its tables. `errors` are the errors reported in the current
pass; not all of them are counted. -/
structure Lexer where
  tables : LoaderTables
  commands : Commands
  filename : String
  allowInputFile : Bool
  ignoreKLC3Extension : Bool
  loadingLC3OS : Bool
  dataDefaultReadOnly : Bool
  dataDefaultUninitialized : Bool
  loadingInputFile : Bool
  charPreferenceLowerBound : Nat
  lc3Symbols : List (Text × Int)
  lc3LabelStrings : List (Word × Text)
  curLineContent : Text
  curPass : Nat
  curLine : Nat
  errCount : Nat
  sawORIG : Nat
  sawEND : Bool
  sawKLC3Command : Bool
  curAddr : Int
  fileStartAddr : Word
  op : OPCode
  ccode : Word
  errors : List CompileErr

namespace Lexer

/-- An `int` stored in a `uint16_t`. -/
def word (n : Int) : Word :=
  BitVec.ofInt 16 n

/-- `reportCompileErr` and `errCount++`. -/
def error (L : Lexer) (e : CompileErr) : Lexer :=
  { L with errors := L.errors ++ [e], errCount := L.errCount + 1 }

def newInstLine (L : Lexer) : Lexer :=
  { L with op := .NONE, ccode := 0, curLine := L.curLine + 1, curLineContent := [] }

def appendLineContent (L : Lexer) (text : Text) : Lexer :=
  let content := L.curLineContent ++ text
  { L with curLineContent :=
      if content.getLast? = some '\n' ∨ content.getLast? = some '\r' then Text.strip content
      else content }

def badOperands (L : Lexer) : Lexer :=
  (L.error (.illegalOperands L.op)).newInstLine

def unterminatedString (L : Lexer) : Lexer :=
  (L.error .unterminatedString).newInstLine

def badLine (L : Lexer) : Lexer :=
  (L.error .unrecognizable).newInstLine

/-! ## Operands -/

/-- The constant that `readVal` stores, `none` when it is outside of the allowed range. The
bits above a field are set when its sign bit is: `v | ~(2^bits - 1)`. -/
def readVal (s : Text) (bits : Nat) : Option Int :=
  let v := match s with
    | 'x' :: s | 'X' :: s => Text.strtol s 16
    | '#' :: s => Text.strtol s 10
    | s => Text.strtol s 10
  let v := if 0x8000 ≤ v ∧ v < 0x10000 then v - 0x10000 else v
  if v < -(2 : Int) ^ (bits - 1) ∨ (2 : Int) ^ bits ≤ v then none
  else if (2 : Int) ^ (bits - 1) ≤ v % (2 : Int) ^ bits then
    some (v % (2 : Int) ^ bits - (2 : Int) ^ bits)
  else some v

/-- `readVal` into a variable. After an error the variable keeps an indeterminate value,
here 0; the error prevents code generation. -/
def readInto (L : Lexer) (s : Option Text) (bits : Nat) : Except Abort (Lexer × Int) :=
  match s with
  | none => throw .nullDeref
  | some s =>
    match readVal s bits with
    | some v => pure (L, v)
    | none => pure (L.error .constantOutside, 0)

def symName (s : Text) : Text :=
  s.takeWhile fun c => !Text.isspace c && c != ':'

def findSymbol (L : Lexer) (name : Text) : Option Int :=
  (L.lc3Symbols.find? fun s => Text.sameIgnoringCase s.1 name).map Prod.snd

def findLabel (L : Lexer) (s : Option Text) (bits : Nat) : Except Abort (Lexer × Int) :=
  match s with
  | none => throw .nullDeref
  | some s =>
    if L.curPass = 1 then pure (L, 0)
    else
      let name := symName s
      match L.findSymbol name with
      | none => pure (L.error (.unknownLabel name), 0)
      | some addr =>
        if bits ≠ 16 then
          let limit := (2 : Int) ^ (bits - 1)
          let value := addr - (L.curAddr + 1)
          if value < -limit ∨ limit ≤ value then
            pure (L.error (.labelDistance name value limit), 0)
          else pure (L, value)
        else pure (L, addr)

/-- The register `o[1] - '0'`. -/
def readReg (o : Option Text) : Except Abort Int :=
  match o with
  | some (_ :: c :: _) => pure (c.toNat - 48)
  | _ => throw .nullDeref

/-- The operand after the next comma. -/
def nextOperand (o : Text) : Option Text :=
  (Text.strchr o ',').map fun s => Text.skipSpace (s.drop 1)

/-! ## Emitting -/

/-- `addMemValue` on the tables. -/
def addMemValue (L : Lexer) (value : MemValue) : Lexer :=
  { L with tables := { L.tables with
      mem := fun addr => if addr = word L.curAddr then some value else L.tables.mem addr } }

def advance (L : Lexer) (count : Int) : Lexer :=
  { L with curAddr := (L.curAddr + count) % 0x10000 }

/-- A variable of the input file that is loaded. -/
def addVariable (L : Lexer) (v : InputVariable) : Lexer :=
  { L with tables := { L.tables with
      inputFiles := L.tables.inputFiles.modifyLast fun f =>
        { f with inputVariables := f.inputVariables ++ [v] } } }

/-- The text of a line before and after its first semicolon. -/
def splitComment (s : Text) : Text × Option Text :=
  (Text.strip (s.takeWhile (· != ';')), (Text.strchr s ';').map (·.drop 1))

/-- `parseInstComment`: the source content that the comment asks for, if any. -/
def parseInstOptions : Nat → Text → Text → Except Abort Text
  | 0, _, _ => throw .outOfFuel
  | fuel + 1, s, content =>
    if s.isEmpty then pure content
    else match Text.matchStartAndTrim s "INSTANT_HALT".toList with
      | some s => parseInstOptions fuel s "INSTANT_HALT".toList
      | none => throw .progExit

def parseInstComment (L : Lexer) (comment : Text) : Except Abort (Lexer × Text) :=
  match Text.matchStartAndTrim (Text.strip comment) "KLC3: ".toList with
  | none => pure (L, [])
  | some s => do
    let content ← parseInstOptions (s.length + 1) s []
    return ({ L with sawKLC3Command := true }, content)

/-- The instruction that `writeInst` emits. -/
def allocInst (L : Lexer) (raw : Word) (sourceContent : Text) : Except Abort InstValue :=
  match InstValue.alloc (word L.curAddr) raw L.loadingLC3OS
      ((L.lc3LabelStrings.filter fun l => l.1 = word L.curAddr).map fun l => String.ofList l.2)
      L.filename L.curLine (String.ofList sourceContent) with
  | some i => pure i
  | none => throw .nullDeref

def writeInst (L : Lexer) (raw : Word) : Except Abort Lexer := do
  if L.curPass = 2 then
    let (content, comment) := splitComment L.curLineContent
    let (L, asked) ← match comment with
      | none => pure (L, [])
      | some comment => L.parseInstComment comment
    let i ← L.allocInst raw (if asked.isEmpty then content else asked)
    let L := L.addMemValue (.inst i)
    let L := if L.loadingInputFile then
        L.addVariable ⟨i.sourceContent.toList, word L.curAddr, 1, false, false, [raw], none⟩
      else L
    return L.advance 1
  else return L.advance 1

/-- `DataKLC3Options`. -/
structure DataOptions where
  readOnly : Bool
  uninitialized : Bool
  asInput : Text
  asSymbolic : Text

/-- The loop of `parseDataComment`, and whether a flag was seen. -/
def parseDataOptions : Nat → Text → DataOptions → Bool → Except Abort (DataOptions × Bool)
  | 0, _, _, _ => throw .outOfFuel
  | fuel + 1, s, o, seen =>
    if s.isEmpty then pure (o, seen)
    else match Text.matchStartAndTrim s "READ_ONLY".toList with
    | some s => parseDataOptions fuel s { o with readOnly := true } true
    | none =>
      match Text.matchStartAndTrim s "UNINITIALIZED".toList with
      | some s => parseDataOptions fuel s { o with uninitialized := true } true
      | none =>
        match Text.matchStartAndTrim s "SYMBOLIC as ".toList with
        | some s =>
          let (name, s) := Text.splitAtBlank s
          parseDataOptions fuel s { o with asSymbolic := name } seen
        | none =>
          match Text.matchStartAndTrim s "INPUT ".toList with
          | some s =>
            let (name, s) := Text.splitAtBlank s
            parseDataOptions fuel s { o with asInput := name } seen
          | none => throw .progExit

def parseDataComment (L : Lexer) (comment : Text) : Except Abort (Lexer × DataOptions) :=
  if L.ignoreKLC3Extension then pure (L, ⟨false, false, [], []⟩)
  else do
    let (L, o, seen) ← match Text.matchStartAndTrim (Text.strip comment) "KLC3: ".toList with
      | none => pure (L, ⟨false, false, [], []⟩, false)
      | some s => do
        let (o, seen) ← parseDataOptions (s.length + 1) s ⟨false, false, [], []⟩ false
        pure ({ L with sawKLC3Command := true }, o, seen)
    return (L, if seen then o else
      { o with readOnly := L.dataDefaultReadOnly, uninitialized := L.dataDefaultUninitialized })

/-- `preProcessDataLine`. A line without a comment gets no options at all. -/
def preProcessDataLine (L : Lexer) : Except Abort (Lexer × DataOptions) := do
  let (L, o) ← match (splitComment L.curLineContent).2 with
    | none => pure (L, ⟨false, false, [], []⟩)
    | some comment => L.parseDataComment comment
  if (!o.asInput.isEmpty || !o.asSymbolic.isEmpty) && !L.loadingInputFile then throw .progExit
  return (L, o)

/-- `splitNameAndSubscript`. -/
def splitNameAndSubscript (s : Text) : Except Abort (Text × Word) :=
  match Text.strchr s '[' with
  | none => throw .noSubscript
  | some rest =>
    match Text.stoi ((rest.drop 1).take (rest.length - 2)) with
    | none => throw .stoiFailed
    | some n => pure (s.takeWhile (· != '['), word n)

/-- The cells of a new symbol. A cell that already has a value keeps it. -/
def defineCells (array : SymArray) (start : Word) (forRead forWrite : Bool) :
    List Nat → (Word → Option MemValue) → Except Abort (Word → Option MemValue)
  | [], mem => pure mem
  | offset :: offsets, mem =>
    let addr := start + BitVec.ofNat 16 offset
    let v : MemValue := .data ⟨some (.read array offset), forRead, forWrite⟩
    match mem addr with
    | none =>
      defineCells array start forRead forWrite offsets fun x => if x = addr then some v else mem x
    | some (.inst _) => throw .progExit
    | some (.data d) =>
      match d.e with
      | none => throw .nullDeref
      | some (.read _ _) => throw .progExit
      | some _ => defineCells array start forRead forWrite offsets mem

/-- `defineMemSymbol`. -/
def defineMemSymbol (L : Lexer) (nameAndSize : Text) (forRead forWrite : Bool) :
    Except Abort (Lexer × SymbolInfo) := do
  let nameAndSize :=
    if nameAndSize.getLast? = some ']' then nameAndSize else nameAndSize ++ "[1]".toList
  let (name, size) ← splitNameAndSubscript nameAndSize
  if (L.tables.symbols.lookup name).isSome then throw .progExit
  let info : SymbolInfo := ⟨name, size, word L.curAddr, ⟨String.ofList name, size.toNat⟩⟩
  let mem ← defineCells info.array info.startAddr forRead forWrite (List.range size.toNat)
    L.tables.mem
  return ({ L with tables := { L.tables with
      symbols := L.tables.symbols ++ [(name, info)]
      mem := mem } }, info)

/-- A symbolic variable at the current address, whose size must be `count`. -/
def writeSymbolic (L : Lexer) (o : DataOptions) (count : Int) : Except Abort Lexer := do
  let (L, info) ← L.defineMemSymbol o.asSymbolic o.readOnly o.uninitialized
  if (info.size.toNat : Int) ≠ count then throw .progExit
  return L.addVariable ⟨info.name, info.startAddr, info.size, true, false, [], some info.array⟩

/-- A fixed variable of the input file, if one is loaded. -/
def addFixedVariable (L : Lexer) (o : DataOptions) (isString : Bool) (values : List Word) : Lexer :=
  if L.loadingInputFile then
    L.addVariable ⟨o.asInput, word L.curAddr, BitVec.ofNat 16 values.length, false, isString,
      values, none⟩
  else L

/-- One cell of data at the current address. -/
def writeCell (o : DataOptions) (L : Lexer) (value : Word) : Lexer :=
  (L.addMemValue (.data ⟨some (.const value), o.readOnly, o.uninitialized⟩)).advance 1

def writeFILL (L : Lexer) (value : Word) : Except Abort Lexer := do
  if L.curPass = 2 then
    let (L, o) ← L.preProcessDataLine
    if o.asSymbolic.isEmpty then
      return (writeCell o (L.addFixedVariable o false [value]) value)
    else
      let L ← L.writeSymbolic o 1
      return L.advance 1
  else return L.advance 1

/-- A `char` stored in a `uint16_t`. -/
def charValue (c : Char) : Word :=
  (BitVec.ofNat 8 c.toNat).signExtend 16

/-- The character that a backslash makes of the next one. -/
def unescape (c : Char) : Word :=
  match c with
  | 'a' => 7
  | 'b' => 8
  | 'e' => 27
  | 'f' => 12
  | 'n' => 10
  | 'r' => 13
  | 't' => 9
  | 'v' => 11
  | c => charValue c

/-- The loop of `writeSTRINGZ`: the values up to the closing quote, and the lines that end
on the way. -/
def scanString : Text → Except Abort (List Word × Nat)
  | [] => throw .readPastEnd
  | ['\\'] => throw .readPastEnd
  | '"' :: _ => pure ([], 0)
  | '\\' :: c :: s => do
    let (values, lines) ← scanString s
    return (unescape c :: values, lines)
  | c :: s => do
    let (values, lines) ← scanString s
    return (charValue c :: values, if c = '\n' then lines + 1 else lines)

def writeSTRINGZ (L : Lexer) (o1 : Text) : Except Abort Lexer := do
  let (values, lines) ← scanString (o1.drop 1)
  let L := { L with curLine := L.curLine + lines }
  let values := values ++ [0]
  if L.curPass = 2 then
    let (L, o) ← L.preProcessDataLine
    if o.asSymbolic.isEmpty then
      return values.foldl (writeCell o) (L.addFixedVariable o true values)
    else throw .progExit
  else return L.advance values.length

def writeBLKW (L : Lexer) (count : Nat) : Except Abort Lexer := do
  if L.curPass = 2 then
    let (L, o) ← L.preProcessDataLine
    if o.asSymbolic.isEmpty then
      let values := List.replicate count (0 : Word)
      return values.foldl (writeCell o) (L.addFixedVariable o false values)
    else
      let L ← L.writeSymbolic o count
      return L.advance count
  else return L.advance count

/-! ## Instructions -/

/-- What `generateInstruction` has read when it comes to the instruction. -/
structure Parsed where
  r1 : Int
  r2 : Int
  r3 : Int
  val : Int

/-- A register, read only when `PRE_PARSE` asks for it. -/
def preParseReg (operands : OperandType) (which : PreParse) (o : Option Text) :
    Except Abort Int :=
  if which ∈ operands.preParse then readReg o else pure 0

/-- A constant or a label as the second operand. -/
def preParseVal (L : Lexer) (operands : OperandType) (o2 : Option Text) :
    Except Abort (Lexer × Int) :=
  if .I2 ∈ operands.preParse then L.readInto o2 9
  else if .L2 ∈ operands.preParse then L.findLabel o2 9
  else pure (L, 0)

/-- The operands that `PRE_PARSE` asks for, in the order in which they are read. -/
def preParse (L : Lexer) (operands : OperandType) (o1 : Text) (o2 o3 : Option Text) :
    Except Abort (Lexer × Parsed) := do
  let r1 ← preParseReg operands .R1 (some o1)
  let r2 ← preParseReg operands .R2 o2
  let r3 ← preParseReg operands .R3 o3
  let (L, val) ← L.preParseVal operands o2
  return (L, ⟨r1, r2, r3, val⟩)

/-- An immediate or a label as the first operand. -/
def readTarget (L : Lexer) (operands : OperandType) (o1 : Text) (bits : Nat) :
    Except Abort (Lexer × Int) :=
  if operands = .I then L.readInto (some o1) bits else L.findLabel (some o1) bits

/-- The instruction switch of `generateInstruction`. -/
def generate (L : Lexer) (operands : OperandType) (o1 : Text) (o3 : Option Text) (p : Parsed) :
    Except Abort Lexer :=
  let r1 := word p.r1
  let r2 := word p.r2
  let r3 := word p.r3
  let val := word p.val
  match L.op with
  | .ADD =>
    if operands = .RRI then do
      let (L, val) ← L.readInto o3 5
      L.writeInst (0x1020 ||| r1 <<< 9 ||| r2 <<< 6 ||| (word val &&& 0x1F))
    else L.writeInst (0x1000 ||| r1 <<< 9 ||| r2 <<< 6 ||| r3)
  | .AND =>
    if operands = .RRI then do
      let (L, val) ← L.readInto o3 5
      L.writeInst (0x5020 ||| r1 <<< 9 ||| r2 <<< 6 ||| (word val &&& 0x1F))
    else L.writeInst (0x5000 ||| r1 <<< 9 ||| r2 <<< 6 ||| r3)
  | .BR => do
    let (L, val) ← L.readTarget operands o1 9
    L.writeInst (L.ccode ||| (word val &&& 0x1FF))
  | .JMP => L.writeInst (0xC000 ||| r1 <<< 6)
  | .JSR => do
    let (L, val) ← L.readTarget operands o1 11
    L.writeInst (0x4800 ||| (word val &&& 0x7FF))
  | .JSRR => L.writeInst (0x4000 ||| r1 <<< 6)
  | .LD => L.writeInst (0x2000 ||| r1 <<< 9 ||| (val &&& 0x1FF))
  | .LDI => L.writeInst (0xA000 ||| r1 <<< 9 ||| (val &&& 0x1FF))
  | .LDR => do
    let (L, val) ← L.readInto o3 6
    L.writeInst (0x6000 ||| r1 <<< 9 ||| r2 <<< 6 ||| (word val &&& 0x3F))
  | .LEA => L.writeInst (0xE000 ||| r1 <<< 9 ||| (val &&& 0x1FF))
  | .NOT => L.writeInst (0x903F ||| r1 <<< 9 ||| r2 <<< 6)
  | .RTI => L.writeInst 0x8000
  | .ST => L.writeInst (0x3000 ||| r1 <<< 9 ||| (val &&& 0x1FF))
  | .STI => L.writeInst (0xB000 ||| r1 <<< 9 ||| (val &&& 0x1FF))
  | .STR => do
    let (L, val) ← L.readInto o3 6
    L.writeInst (0x7000 ||| r1 <<< 9 ||| r2 <<< 6 ||| (word val &&& 0x3F))
  | .TRAP => do
    let (L, val) ← L.readInto (some o1) 8
    L.writeInst (0xF000 ||| (word val &&& 0xFF))
  | .GETC => L.writeInst 0xF020
  | .HALT => L.writeInst 0xF025
  | .IN => L.writeInst 0xF023
  | .OUT => L.writeInst 0xF021
  | .PUTS => L.writeInst 0xF022
  | .PUTSP => L.writeInst 0xF024
  | .FILL => do
    let (L, val) ← L.readTarget operands o1 16
    L.writeFILL (word val)
  | .RET => L.writeInst 0xC1C0
  | .STRINGZ => L.writeSTRINGZ o1
  | .BLKW => do
    let (L, val) ← L.readInto (some o1) 16
    L.writeBLKW (word val).toNat
  | .NONE | .ORIG | .END => pure L

/-- The directive `.ORIG`. A second one is reported but not counted as an error. -/
def generateORIG (L : Lexer) (o1 : Text) : Except Abort Lexer :=
  if L.sawORIG = 0 then do
    let (L, addr) ← L.readInto (some o1) 16
    let addr := if readVal o1 16 = none then 0x3000 else addr
    return { L with curAddr := addr, fileStartAddr := word addr, sawORIG := 1 }
  else if L.sawORIG = 1 then
    pure { L with errors := L.errors ++ [.multipleORIG], sawORIG := 2 }
  else pure L

def generateInstruction (L : Lexer) (operands : OperandType) (opstr : Text) :
    Except Abort Lexer :=
  if !L.op.accepts operands then pure L.badOperands
  else do
    let o1 := Text.skipSpace opstr
    let o2 := nextOperand o1
    let o3 := o2.bind nextOperand
    if L.op = .ORIG then
      let L ← L.generateORIG o1
      return L.newInstLine
    else if L.sawORIG = 0 then
      return { (L.error .beforeORIG).newInstLine with sawORIG := 2 }
    else
      let (L, p) ← L.preParse operands o1 o2 o3
      let L ← L.generate operands o1 o3 p
      return L.newInstLine

/-- One letter of a condition code, in either case. -/
def parseCCLetter (c : Char) (flag : Word) (p : Word × Text) : Word × Text :=
  match p.2 with
  | x :: s => if x.toLower = c then (p.1 ||| flag, s) else p
  | [] => p

def parseCCode (L : Lexer) (s : Text) : Lexer :=
  let ccode := (parseCCLetter 'p' CC_P
    (parseCCLetter 'z' CC_Z (parseCCLetter 'n' CC_N (L.ccode, s)))).1
  { L with ccode := if ccode = 0 then CC_P ||| CC_Z ||| CC_N else ccode }

/-- `addSymbol`, `none` when the symbol already exists. -/
def addSymbol (L : Lexer) (name : Text) : Option Lexer :=
  if (L.findSymbol name).isSome then none
  else some { L with
    lc3Symbols := L.lc3Symbols ++ [(name, L.curAddr)]
    lc3LabelStrings := L.lc3LabelStrings ++ [(word L.curAddr, name)] }

def foundLabel (L : Lexer) (s : Text) : Lexer :=
  let name := symName s
  if L.curPass = 1 then
    if L.sawORIG = 0 then L.error .labelBeforeORIG
    else match L.addSymbol name with
      | none => L.error (.labelTwice name)
      | some L => L
  else L

/-! ## Commands -/

/-- The loop of `parseComment`. -/
def parseCommands : Nat → Text → Lexer → Except Abort Lexer
  | 0, _, _ => throw .outOfFuel
  | fuel + 1, s, L =>
    if s.isEmpty then pure L
    else match Text.matchStartAndTrim s "SET_DATA_DEFAULT_FLAG READ_ONLY".toList with
    | some s => parseCommands fuel s { L with dataDefaultReadOnly := true }
    | none =>
      match Text.matchStartAndTrim s "SET_DATA_DEFAULT_FLAG UNINITIALIZED".toList with
      | some s => parseCommands fuel s { L with dataDefaultUninitialized := true }
      | none =>
        match Text.matchStartAndTrim s "INPUT_FILE".toList with
        | some s =>
          if L.allowInputFile then
            parseCommands fuel s { L with
              loadingInputFile := true
              tables := { L.tables with
                inputFiles := L.tables.inputFiles ++ [⟨L.filename, [], L.fileStartAddr, []⟩] } }
          else throw .progExit
        | none =>
          match Text.matchStartAndTrim s "COMMENT ".toList with
          | some s =>
            if L.loadingInputFile then
              pure { L with tables := { L.tables with
                inputFiles := L.tables.inputFiles.modifyLast fun f =>
                  { f with commentLines := f.commentLines ++ [s] } } }
            else throw .progExit
          | none =>
            match Text.matchStartAndTrim s "SYMBOLIC ".toList with
            | some s => do
              let (bound, tables) ← L.commands.symbolic s L.charPreferenceLowerBound L.tables
              return { L with charPreferenceLowerBound := bound, tables := tables }
            | none =>
              match Text.matchStartAndTrim s "ISSUE ".toList with
              | some s => do
                let (s, tables) ← L.commands.issue s L.tables
                parseCommands fuel s { L with tables := tables }
              | none =>
                match Text.matchStartAndTrim s "CHECK ".toList with
                | some s => do
                  let (s, tables) ← L.commands.check s L.tables
                  parseCommands fuel s { L with tables := tables }
                | none => throw .progExit

/-- `parseComment`. -/
def parseComment (L : Lexer) (comment : Text) : Except Abort Lexer :=
  if L.ignoreKLC3Extension then pure L
  else match Text.matchStartAndTrim (Text.strip (comment.drop 1)) "KLC3: ".toList with
    | none => pure L
    | some s =>
      let L := { L with sawKLC3Command := true }
      if L.curPass = 1 then pure L else parseCommands (s.length + 1) s L

end Lexer

/-! ## Passes -/

/-- What the scanner finds: the rules of `Lexer.f` that have an action, with their text. -/
inductive Token where
  | opcode (op : OPCode) (text : Text)
  | endDirective (text : Text)
  | operands (type : OperandType) (text : Text)
  | commentLine (text : Text)
  | blankLine
  | label (text : Text)
  | unterminatedString
  | badOperands
  | badLine
  | blankAfterEnd
  | ignored
deriving DecidableEq

namespace Lexer

/-- The action of a rule. The only warning, about text after `.END`, is not modelled. -/
def act (L : Lexer) : Token → Except Abort Lexer
  | .opcode op text =>
    let L := { L.appendLineContent text with op := op }
    pure (if op = .BR then L.parseCCode (text.drop 2) else L)
  | .endDirective text => pure { L.appendLineContent text with sawEND := true }
  | .operands type text => (L.appendLineContent text).generateInstruction type text
  | .commentLine text => do
    let L ← (L.appendLineContent text).parseComment text
    return L.newInstLine
  | .blankLine => pure L.newInstLine
  | .label text => pure (L.foundLabel text)
  | .unterminatedString => pure L.unterminatedString
  | .badOperands => pure L.badOperands
  | .badLine => pure L.badLine
  | .blankAfterEnd => pure L.newInstLine
  | .ignored => pure L

/-- The state in which a pass starts. -/
def startPass (L : Lexer) (pass : Nat) : Lexer :=
  { L with
    curPass := pass
    curLine := 0
    errCount := 0
    sawORIG := 0
    sawEND := false
    sawKLC3Command := if pass = 1 then false else L.sawKLC3Command
    curAddr := 0x3000
    errors := [] }.newInstLine

/-- A pass over the tokens of a file. -/
def runPass (L : Lexer) (pass : Nat) (tokens : List Token) : Except Abort Lexer :=
  tokens.foldlM act (L.startPass pass)

/-- What `load` reports after the first pass. -/
def checkFirstPass (L : Lexer) : Lexer :=
  if L.sawORIG = 0 then
    if !L.ignoreKLC3Extension && L.sawKLC3Command then L
    else if L.errCount = 0 ∧ !L.sawEND then L.error .onlyComments
    else if !L.sawEND then L.error .noORIGOrEND
    else L.error .noORIG
  else if !L.sawEND then L.error .noEND
  else L

/-- Input files and the operating system are not among the loaded programs. -/
def pushProgram (L : Lexer) : Lexer :=
  if !L.loadingLC3OS && !L.loadingInputFile then
    { L with tables := { L.tables with
        loadedPrograms := L.tables.loadedPrograms ++ [L.filename] } }
  else L

/-- Unless compile issues are collected, a rejected file ends the program. -/
def reject (L : Lexer) (collectCompileIssues : Bool) : Except Abort (Lexer × Bool) :=
  if collectCompileIssues then pure (L.pushProgram, false) else throw .progExit

/-- `load` for a file with the given tokens: the lexer at the end, and whether the file was
accepted. -/
def load (L : Lexer) (collectCompileIssues : Bool) (tokens : List Token) :
    Except Abort (Lexer × Bool) := do
  let L₁ ← L.runPass 1 tokens
  let L₁ := L₁.checkFirstPass
  if L₁.errCount > 0 then L₁.reject collectCompileIssues
  else
    let L₂ ← L₁.runPass 2 tokens
    if L₂.errCount > 0 then L₂.reject collectCompileIssues
    else return (pushProgram { L₂ with tables := { L₂.tables with initPC := L₂.fileStartAddr } },
      true)

/-- The lexer that `KLC3Loader::load` creates for a file. What a pass sets first has no
value yet, here 0. -/
def new (tables : LoaderTables) (commands : Commands) (filename : String)
    (isLC3OS allowInputFile ignoreKLC3Extension : Bool) : Lexer where
  tables := tables
  commands := commands
  filename := filename
  allowInputFile := allowInputFile
  ignoreKLC3Extension := ignoreKLC3Extension
  loadingLC3OS := isLC3OS
  dataDefaultReadOnly := false
  dataDefaultUninitialized := false
  loadingInputFile := false
  charPreferenceLowerBound := 0x41
  lc3Symbols := []
  lc3LabelStrings := []
  curLineContent := []
  curPass := 0
  curLine := 0
  errCount := 0
  sawORIG := 0
  sawEND := false
  sawKLC3Command := false
  curAddr := 0
  fileStartAddr := 0
  op := .NONE
  ccode := 0
  errors := []

end Lexer

end Klc3
