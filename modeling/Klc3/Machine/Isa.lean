import Klc3.Model.Expr

/-!
# The LC-3

The instruction set architecture over 16-bit words: an instruction is a word in memory,
and all address and PC arithmetic is modulo 2^16. The devices are those that klc3
provides: a keyboard that is never ready, a display that always is, and a clock.
-/

namespace Klc3

/-- What a program can observe of an LC-3. -/
structure Lc3 where
  reg : Fin 8 → Word
  pc : Word
  mem : Word → Word
  out : List Word

namespace Lc3

/-! ## Fields of an instruction -/

/-- The register named by three bits of an instruction. -/
def regAt (ir : Word) (lsb : Nat) : Fin 8 :=
  (ir.extractLsb' lsb 3).toFin

/-- The last bits of an instruction as a signed number. -/
def offset (ir : Word) (width : Nat) : Word :=
  (ir.extractLsb' 0 width).signExtend 16

/-! ## Devices -/

def kbsr : Word := 0xFE00
def kbdr : Word := 0xFE02
def dsr : Word := 0xFE04
def ddr : Word := 0xFE06
def mcr : Word := 0xFFFE

def load (L : Lc3) (addr : Word) : Word :=
  if addr = kbsr then 0
  else if addr = dsr then 0x8000
  else if addr = ddr then 0
  else if addr = mcr then 0x8000
  else L.mem addr

def store (L : Lc3) (addr value : Word) : Lc3 :=
  if addr = kbsr ∨ addr = kbdr ∨ addr = dsr ∨ addr = mcr then L
  else if addr = ddr then { L with out := L.out ++ [value] }
  else { L with mem := fun x => if x = addr then value else L.mem x }

/-! ## Instructions -/

def setReg (L : Lc3) (r : Fin 8) (value : Word) : Lc3 :=
  { L with reg := fun x => if x = r then value else L.reg x }

def jump (L : Lc3) (target : Word) : Lc3 :=
  { L with pc := target }

/-- Whether a branch with the given instruction is taken on the value that the
condition codes stand for. -/
def taken (ir cc : Word) : Bool :=
  (ir.getLsbD 11 && cc.slt 0) || (ir.getLsbD 10 && cc == 0) || (ir.getLsbD 9 && (0 : Word).slt cc)

/-- The second operand of `ADD` and `AND`. -/
def operand2 (L : Lc3) (ir : Word) : Word :=
  if ir.getLsbD 5 then offset ir 5 else L.reg (regAt ir 0)

/-- An instruction once it is fetched and the PC incremented. `RTI` and the reserved
opcode have no successor. -/
def execute (cc : Word) (L : Lc3) (ir : Word) : Option Lc3 :=
  match (ir.extractLsb' 12 4).toNat with
  | 0 => some (if taken ir cc then L.jump (L.pc + offset ir 9) else L)
  | 1 => some (L.setReg (regAt ir 9) (L.reg (regAt ir 6) + L.operand2 ir))
  | 2 => some (L.setReg (regAt ir 9) (L.load (L.pc + offset ir 9)))
  | 3 => some (L.store (L.pc + offset ir 9) (L.reg (regAt ir 9)))
  | 4 =>
    if ir.getLsbD 11 then some ((L.setReg 7 L.pc).jump (L.pc + offset ir 11))
    else some ((L.setReg 7 L.pc).jump (L.reg (regAt ir 6)))
  | 5 => some (L.setReg (regAt ir 9) (L.reg (regAt ir 6) &&& L.operand2 ir))
  | 6 => some (L.setReg (regAt ir 9) (L.load (L.reg (regAt ir 6) + offset ir 6)))
  | 7 => some (L.store (L.reg (regAt ir 6) + offset ir 6) (L.reg (regAt ir 9)))
  | 9 => some (L.setReg (regAt ir 9) (~~~L.reg (regAt ir 6)))
  | 10 => some (L.setReg (regAt ir 9) (L.load (L.load (L.pc + offset ir 9))))
  | 11 => some (L.store (L.load (L.pc + offset ir 9)) (L.reg (regAt ir 9)))
  | 12 => some (L.jump (L.reg (regAt ir 6)))
  | 14 => some (L.setReg (regAt ir 9) (L.pc + offset ir 9))
  | 15 => some ((L.setReg 7 L.pc).jump (L.load ((ir.extractLsb' 0 8).setWidth 16)))
  | _ => none

/-- The successor of an LC-3 whose condition codes stand for the sign of `cc`. -/
def step (cc : Word) (L : Lc3) : Option Lc3 :=
  execute cc (L.jump (L.pc + 1)) (L.load L.pc)

end Lc3

end Klc3
