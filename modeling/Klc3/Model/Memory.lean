import Klc3.Model.Abort
import Klc3.Model.Expr
import Klc3.Model.Issues

/-!
# Memory values and the memory manager

`MemValue` with its two subclasses, the instruction table, and `MemoryManager`:
a sparse overlay over the loaded memory, with the memory-mapped device registers.
-/

namespace Klc3

/-- A hexadecimal digit of `hexTable`. -/
def hexDigit (n : Nat) : Char :=
  if n < 10 then Char.ofNat (48 + n) else Char.ofNat (55 + n)

/-- `toLC3Hex`. -/
def toLC3Hex (w : Word) : String :=
  String.ofList ['x', hexDigit (w.toNat / 4096), hexDigit (w.toNat / 256 % 16),
    hexDigit (w.toNat / 16 % 16), hexDigit (w.toNat % 16)]

/-- `InstValue::InstID`. -/
inductive InstID where
  | ADD | ADDi | AND | ANDi | BR | JMP | JSR | JSRR | LD | LDI | LDR | LEA | NOT
  | ST | STI | STR | TRAP | RTI
deriving DecidableEq, Repr

/-- `InstValue::InstFormat`, the formats of `INST_DEF`. -/
inductive InstFormat where
  | none | RRR | RRI | CL | R | L | RL | RRI6 | RR | V
deriving DecidableEq, Repr

structure InstDef where
  id : InstID
  format : InstFormat
  mask : Word
  match_ : Word
deriving DecidableEq, Repr

/-- `InstValue::INST_DEF`. -/
def instDefs : List InstDef :=
  [⟨.ADD, .RRR, 0xF038, 0x1000⟩,
   ⟨.ADDi, .RRI, 0xF020, 0x1020⟩,
   ⟨.AND, .RRR, 0xF038, 0x5000⟩,
   ⟨.ANDi, .RRI, 0xF020, 0x5020⟩,
   ⟨.BR, .CL, 0xF000, 0x0000⟩,
   ⟨.JMP, .R, 0xFE3F, 0xC000⟩,
   ⟨.JSR, .L, 0xF800, 0x4800⟩,
   ⟨.JSRR, .R, 0xFE3F, 0x4000⟩,
   ⟨.LD, .RL, 0xF000, 0x2000⟩,
   ⟨.LDI, .RL, 0xF000, 0xA000⟩,
   ⟨.LDR, .RRI6, 0xF000, 0x6000⟩,
   ⟨.LEA, .RL, 0xF000, 0xE000⟩,
   ⟨.NOT, .RR, 0xF03F, 0x903F⟩,
   ⟨.ST, .RL, 0xF000, 0x3000⟩,
   ⟨.STI, .RL, 0xF000, 0xB000⟩,
   ⟨.STR, .RRI6, 0xF000, 0x7000⟩,
   ⟨.TRAP, .V, 0xFF00, 0xF000⟩,
   ⟨.RTI, .none, 0x8000, 0x8000⟩]

/-- `InstValue::matchInst`: the first entry that matches. -/
def matchInst (ir : Word) : Option InstDef :=
  instDefs.find? fun i => ir &&& i.mask == i.match_

/-- `InstValue`. The word is always one that `matchInst` accepts, since `alloc`
returns null otherwise. -/
structure InstValue where
  addr : Word
  ir : Word
  instDef : InstDef
  matched : matchInst ir = some instDef
  belongsToOS : Bool
  labels : List String
  sourceFile : String
  sourceLine : Int
  sourceContent : String
deriving DecidableEq

namespace InstValue

variable (i : InstValue)

def instID : InstID := i.instDef.id

/-- The register in three bits of a word. -/
def regField (w : Word) : Fin 8 :=
  ⟨(w &&& 0x7).toNat, by
    have h : (w &&& 0x7).toNat ≤ (0x7 : Word).toNat := by
      rw [BitVec.toNat_and]
      exact Nat.and_le_right
    exact Nat.lt_of_le_of_lt h (by decide)⟩

def dr : Fin 8 := regField (i.ir >>> 9)
def sr1 : Fin 8 := regField (i.ir >>> 6)
def sr2 : Fin 8 := regField i.ir
def baseR : Fin 8 := i.sr1
def sr : Fin 8 := i.dr

/-- `cc()`: bit 2 is N, bit 1 is Z, bit 0 is P. -/
def cc : Word := (i.ir &&& 0x0E00) >>> 9

def vec8 : Word := i.ir &&& 0xFF
def imm5 : Word := if i.ir &&& 0x010 = 0 then i.ir &&& 0x00F else i.ir ||| ~~~0x00F
def imm6 : Word := if i.ir &&& 0x020 = 0 then i.ir &&& 0x01F else i.ir ||| ~~~0x01F
def imm9 : Word := if i.ir &&& 0x100 = 0 then i.ir &&& 0x1FF else i.ir ||| ~~~0x1FF
def imm11 : Word := if i.ir &&& 0x400 = 0 then i.ir &&& 0x3FF else i.ir ||| ~~~0x3FF

def isRET : Bool := i.instID = .JMP ∧ i.baseR = 7

def location : Location := ⟨i.sourceFile, i.sourceLine⟩

/-- `InstValue::alloc`, with the fields that the loader sets afterwards. -/
def alloc (addr ir : Word) (belongsToOS : Bool) (labels : List String) (sourceFile : String)
    (sourceLine : Int) (sourceContent : String) : Option InstValue :=
  match h : matchInst ir with
  | some d => some ⟨addr, ir, d, h, belongsToOS, labels, sourceFile, sourceLine, sourceContent⟩
  | none => none

/-- `ReportFormatterMarkdown::formattedContext` with its default options. -/
def formattedContext : String :=
  "[[" ++ i.sourceFile ++ ":" ++ toString i.sourceLine ++ "](" ++ i.sourceFile ++ "#L" ++
    toString i.sourceLine ++ ")] `" ++ i.sourceContent ++ "`"

end InstValue

/-- `DataValue`. A null `e` stands for bits that were never initialized. -/
structure DataValue where
  e : Option WordExpr
  forRead : Bool
  forWrite : Bool
deriving DecidableEq

inductive MemValue where
  | inst (i : InstValue)
  | data (d : DataValue)
deriving DecidableEq

/-- The field `MemValue::e`. -/
def MemValue.e : MemValue → Option WordExpr
  | inst i => some (.const i.ir)
  | data d => d.e

/-- `DataValue::alloc` with its default flags. -/
def DataValue.alloc (e : Option WordExpr) : MemValue :=
  .data ⟨e, false, false⟩

/-- `MemoryManager::WriteResult`. -/
inductive WriteResult where
  | success
  | halt
  | ddr
deriving DecidableEq, Repr

structure MemoryManager where
  baseMem : Word → Option MemValue
  mem : Word → Option MemValue

namespace MemoryManager

/-- `MemoryManager::read`. KBDR is not special. -/
def read (m : MemoryManager) (addr : Word) : Option MemValue :=
  if addr = 0xFE00 then some (DataValue.alloc (some (.const 0)))
  else if addr = 0xFE04 then some (DataValue.alloc (some (.const 0x8000)))
  else if addr = 0xFE06 then some (DataValue.alloc (some (.const 0)))
  else if addr = 0xFFFE then some (DataValue.alloc (some (.const 0x8000)))
  else match m.mem addr with
    | some v => some v
    | none => m.baseMem addr

/-- `MemoryManager::write`. A symbolic value stored to MCR halts the machine. -/
def write (m : MemoryManager) (addr : Word) (value : MemValue) :
    Except Abort (WriteResult × MemoryManager) :=
  if addr = 0xFE00 ∨ addr = 0xFE02 ∨ addr = 0xFE04 then pure (.success, m)
  else if addr = 0xFE06 then pure (.ddr, m)
  else if addr = 0xFFFE then
    match value.e with
    | none => throw .nullStoreToMCR
    | some (.const c) => if c &&& 0x8000 = 0 then pure (.halt, m) else pure (.success, m)
    | some _ => pure (.halt, m)
  else pure (.success, { m with mem := fun x => if x = addr then some value else m.mem x })

/-- The addresses at which `write` stores nothing. -/
def deviceAddrs : List Word := [0xFE00, 0xFE02, 0xFE04, 0xFE06, 0xFFFE]

/-- `MemoryManager::writeData`. -/
def writeData (m : MemoryManager) (addr : Word) (value : Option WordExpr) :
    Except Abort (WriteResult × MemoryManager) :=
  m.write addr (DataValue.alloc value)

end MemoryManager

end Klc3
