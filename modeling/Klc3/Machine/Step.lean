import Klc3.Lib.Emit
import Klc3.Model.State

/-!
# The concrete machine

What a symbolic path stands for under one assignment of the inputs: a machine over
16-bit words that reports the same issues. It is the common abstraction of the
symbolic execution of a program and of its execution on fixed inputs.

A register or cell may hold no value (`none`): it is uninitialized. This is only kept
when using an uninitialized register is an error; otherwise `none` never occurs and
uninitialized values are 0. Uses of uninitialized registers are not emitted, because
the two executions do not agree on them.
-/

namespace Klc3

/-- A memory cell over words. -/
inductive Cell where
  | inst (i : InstValue)
  | data (value : Option Word) (forRead forWrite : Bool)
deriving DecidableEq

/-- The word a cell holds, if any. -/
def Cell.value : Cell → Option Word
  | inst i => some i.ir
  | data value _ _ => value

structure Machine where
  status : Status
  reg : Fin 8 → Option Word
  ccRef : Option (Fin 8)
  pc : Word
  mem : Word → Option Cell
  uninit : Word → Option (Fin 8)
  out : List Word
  latestInst : Option InstValue
  latestNonOSInst : Option InstValue

namespace Machine

abbrev Levels := IssueType → Option Level

variable (lv : Levels)

def issueLocation (M : Machine) (location : Option InstValue) : Option InstValue :=
  if location.isSome ∧ M.latestNonOSInst ≠ M.latestInst then M.latestNonOSInst else location

/-- An issue is emitted, and breaks the machine when it is an error. -/
def raise (M : Machine) (type : IssueType) (location : Option InstValue) : Emit Issue Machine where
  val := { M with status := if lv type = some .error then .broken else M.status }
  out := if type = .warnUseUninitializedRegister then []
    else [⟨type, (M.issueLocation location).map InstValue.location⟩]

/-- An error after which the machine cannot go on. -/
def fail (M : Machine) (type : IssueType) (location : Option InstValue) : Emit Issue Machine := do
  let M ← M.raise lv type location
  return { M with status := .broken }

def setReg (M : Machine) (r : Fin 8) (value : Option Word) : Machine :=
  { M with reg := fun x => if x = r then value else M.reg x }

/-- A data instruction leaves its result in a register that sets the condition codes. -/
def setRegAndCC (M : Machine) (r : Fin 8) (value : Option Word) : Machine :=
  { M.setReg r value with ccRef := some r }

def getReg (M : Machine) (r : Fin 8) (ir : InstValue) : Emit Issue (Machine × Word) :=
  match M.reg r with
  | some w => pure (M, w)
  | none => do
    let M ← if ir.belongsToOS then pure M else M.raise lv .warnUseUninitializedRegister ir
    return (M.setReg r (some 0), 0)

def getCC (M : Machine) (ir : InstValue) : Emit Issue (Machine × Word) :=
  match M.ccRef with
  | none => do
    let M ← M.raise lv .warnUseUninitializedCC ir
    return (M, 0)
  | some r =>
    match M.reg r with
    | some w => pure (M, w)
    | none => do
      let M ← M.raise lv .warnUseUninitializedRegister ir
      return (M.setReg r (some 0), 0)

/-! ## Memory -/

def warnOnRead (M : Machine) (cell : Cell) (ir : InstValue) : Emit Issue Machine :=
  match cell with
  | .data _ _ forWrite =>
    if forWrite then M.raise lv .warnReadUninitializedMemory ir else pure M
  | .inst _ => M.raise lv .warnReadInstAsData ir

def read (M : Machine) (addr : Word) (ir : InstValue) (dr : Option (Fin 8)) :
    Emit Issue (Machine × Option Word) :=
  match M.mem addr with
  | none => do
    let M ← M.raise lv .warnPossibleWildRead ir
    return (M, some 0)
  | some cell => do
    let M ← M.warnOnRead lv cell ir
    match cell.value with
    | some w => return (M, some w)
    | none =>
      match M.uninit addr with
      | none => return (M, some 0)
      | some r =>
        if dr = some r then return (M, none)
        else do
          let M ← M.raise lv .warnUseUninitializedRegister ir
          return ({ M with uninit := fun x => if x = addr then none else M.uninit x }, some 0)

def checkOverwrite (M : Machine) (addr : Word) (ir : InstValue) : Emit Issue (Machine × Bool) :=
  match M.mem addr with
  | none => do
    let M ← M.raise lv .warnPossibleWildWrite ir
    return (M, true)
  | some (.data _ forRead _) =>
    if forRead then do
      let M ← M.raise lv .warnWriteReadOnlyData ir
      return (M, true)
    else pure (M, true)
  | some (.inst _) => do
    let M ← M.fail lv .errOverwriteInst ir
    return (M, false)

/-- The effect of a store on memory. -/
def store (M : Machine) (addr : Word) (value : Option Word) (ir : InstValue) : Machine :=
  { M with
    mem := fun x => if x = addr ∧ addr ∉ MemoryManager.deviceAddrs then some (.data value false false)
      else M.mem x
    uninit := fun x => if x = addr then (if value = none then some ir.sr else none) else M.uninit x }

/-- The clock of the machine is stopped through MCR. -/
def halt (M : Machine) : Emit Issue Machine :=
  let M := { M with status := .halted }
  match M.latestNonOSInst with
  | none => pure M
  | some last =>
    if last.instID ≠ .TRAP then M.raise lv .warnManualHalt last else pure M

/-- A character goes to the display. -/
def display (M : Machine) (value : Option Word) (ir : InstValue) : Emit Issue Machine :=
  match value with
  | none => do
    let M ← M.raise lv .warnUseUninitializedRegister ir
    return { M with out := M.out ++ [0] }
  | some w => return { M with out := M.out ++ [w] }

def write (M : Machine) (addr : Word) (value : Option Word) (ir : InstValue) :
    Emit Issue Machine := do
  let (M, goesOn) ← M.checkOverwrite lv addr ir
  if !goesOn then return M
  let M := M.store addr value ir
  if addr = 0xFE06 then M.display lv value ir
  else if addr = 0xFFFE ∧ value.getD 0 &&& 0x8000 = 0 then M.halt lv
  else return M

/-- A load into a register, given up when the machine breaks. -/
def load (M : Machine) (addr : Word) (ir : InstValue) : Emit Issue Machine := do
  let (M, w) ← M.read lv addr ir (some ir.dr)
  if M.status ≠ .normal then return M
  return M.setRegAndCC ir.dr w

/-! ## Instructions -/

/-- An instruction with an indirect address. -/
def indirect (M : Machine) (ir : InstValue) (go : Machine → Word → Emit Issue Machine) :
    Emit Issue Machine := do
  let (M, addr) ← M.read lv (M.pc + ir.imm9) ir none
  if M.status ≠ .normal then return M
  go M (addr.getD 0)

def executeADD (M : Machine) (ir : InstValue) : Emit Issue Machine := do
  let (M, op1) ← M.getReg lv ir.sr1 ir
  let (M, op2) ← if ir.instDef.format = .RRR then M.getReg lv ir.sr2 ir else pure (M, ir.imm5)
  return M.setRegAndCC ir.dr (some (op1 + op2))

/-- `AND` may read an uninitialized register together with 0. -/
def warnOnAndOperand (M : Machine) (r : Fin 8) (other : Option Word) (ir : InstValue) :
    Emit Issue Machine :=
  if other ≠ some 0 ∧ ir.belongsToOS = false then do
    let M ← M.raise lv .warnUseUninitializedRegister ir
    return M.setReg r (some 0)
  else pure M

def executeAND (M : Machine) (ir : InstValue) : Emit Issue Machine := do
  let op1 := M.reg ir.sr1
  let op2 := if ir.instDef.format = .RRR then M.reg ir.sr2 else some ir.imm5
  let M ← if op1.isNone then M.warnOnAndOperand lv ir.sr1 op2 ir else pure M
  let M ← if op2.isNone then M.warnOnAndOperand lv ir.sr2 op1 ir else pure M
  return M.setRegAndCC ir.dr (some (op1.getD 0 &&& op2.getD 0))

def executeNOT (M : Machine) (ir : InstValue) : Emit Issue Machine := do
  let (M, op) ← M.getReg lv ir.sr1 ir
  return M.setRegAndCC ir.dr (some (~~~op))

/-- `retInMain` tells whether a `RET` now would be one in the main code. -/
def executeJMP (retInMain : Bool) (M : Machine) (ir : InstValue) : Emit Issue Machine := do
  let M ← if ir.belongsToOS = false ∧ ir.baseR = 7 ∧ retInMain then
      M.raise lv .errRetInMainCode ir
    else pure M
  if M.status = .normal then
    let (M, target) ← M.getReg lv ir.baseR ir
    return { M with pc := target }
  else return M

def executeJSRR (M : Machine) (ir : InstValue) : Emit Issue Machine := do
  let (M, target) ← M.getReg lv ir.baseR ir
  return { M.setReg 7 (some M.pc) with pc := target }

def executeTRAP (M : Machine) (ir : InstValue) : Emit Issue Machine :=
  if ir.sourceContent = "INSTANT_HALT" then pure { M with status := .halted }
  else do
    let (M, target) ← (M.setReg 7 (some M.pc)).read lv ir.vec8 ir none
    if M.status ≠ .normal then return M
    return { M with pc := target.getD 0 }

/-- Whether the condition codes select the sign of a value: N, Z and P are the bits
of `cc`, from the left. -/
def ccHolds (cc value : Word) : Bool :=
  (cc &&& 4 ≠ 0 ∧ value.slt 0) ∨ (cc &&& 2 ≠ 0 ∧ value = 0) ∨ (cc &&& 1 ≠ 0 ∧ (0 : Word).slt value)

def executeBR (M : Machine) (ir : InstValue) : Emit Issue Machine :=
  if ir.cc = 0 then pure M
  else if ir.cc = 7 then pure { M with pc := M.pc + ir.imm9 }
  else do
    let (M, value) ← M.getCC lv ir
    return if ccHolds ir.cc value then { M with pc := M.pc + ir.imm9 } else M

def execute (retInMain : Bool) (M : Machine) (ir : InstValue) : Emit Issue Machine :=
  match ir.instID with
  | .ADD | .ADDi => M.executeADD lv ir
  | .AND | .ANDi => M.executeAND lv ir
  | .BR => M.executeBR lv ir
  | .JMP => M.executeJMP lv retInMain ir
  | .JSR => pure { M.setReg 7 (some M.pc) with pc := M.pc + ir.imm11 }
  | .JSRR => M.executeJSRR lv ir
  | .LD => M.load lv (M.pc + ir.imm9) ir
  | .LDI => M.indirect lv ir fun M addr => M.load lv addr ir
  | .LDR => do
    let (M, base) ← M.getReg lv ir.baseR ir
    M.load lv (base + ir.imm6) ir
  | .LEA => pure (M.setRegAndCC ir.dr (some (M.pc + ir.imm9)))
  | .NOT => M.executeNOT lv ir
  | .ST => M.write lv (M.pc + ir.imm9) (M.reg ir.sr) ir
  | .STI => M.indirect lv ir fun M addr => M.write lv addr (M.reg ir.sr) ir
  | .STR => do
    let value := M.reg ir.sr
    let (M, base) ← M.getReg lv ir.baseR ir
    M.write lv (base + ir.imm6) value ir
  | .TRAP => M.executeTRAP lv ir
  | .RTI => M.fail lv .errInvalidInst ir

/-- One instruction of a machine that is still running. -/
def step (retInMain : Bool) (M : Machine) : Emit Issue Machine :=
  match M.mem M.pc with
  | none => M.fail lv .errExecuteUninitializedMemory M.latestNonOSInst
  | some (.data _ _ _) => M.fail lv .errExecuteDataAsInst M.latestNonOSInst
  | some (.inst ir) =>
    { M with
      latestInst := some ir
      latestNonOSInst := if ir.belongsToOS then M.latestNonOSInst else some ir
      pc := M.pc + 1 }.execute lv retInMain ir

end Machine

end Klc3
