import Klc3.Model.PossibleValues
import Klc3.Model.State

/-!
# The executor

`Executor::step` and what it calls. The functions take the state with its issue
package and return them changed; an assertion that fails ends in an `Abort`.
-/

namespace Klc3

open ExprBuilder (add mul and not slt sle)

/-- `castConstant`. -/
def castConstant (e : WordExpr) : Except Abort Word :=
  match e.asConst with
  | some c => pure c
  | none => throw .castNonConstant

/-- `assert(s->status == State::BROKEN && "Non-continuable error")`. -/
def assertBroken (m : Mach) : Except Abort Unit :=
  if m.s.status = .broken then pure () else throw .nonContinuable

/-! ## Registers -/

/-- `Executor::setReg(State *, Reg, const ref<Expr> &, ..)`. The case of `R_PC` has
no `break` and sets the IR as well. -/
def setRegExpr (m : Mach) (r : Reg) (value : Option WordExpr) (ir : InstValue) :
    Except Abort Mach := do
  let s ← match r with
    | .pc => match value with
      | none => throw .nullDeref
      | some e => do
        let c ← castConstant e
        pure { m.s with pc := c, ir := e }
    | .ir => match value with
      | none => throw .nullDeref
      | some e => pure { m.s with ir := e }
    | .gpr r => pure (m.s.setReg r value)
    | .psr => throw .nullDeref
  return { m with s := { s with
    regChangeLocation := fun x => if x = r then some ir else s.regChangeLocation x } }

/-- `Executor::setReg(State *, Reg, uint16_t, ..)`. -/
def setRegWord (m : Mach) (r : Reg) (value : Word) (ir : InstValue) : Except Abort Mach := do
  let s ← match r with
    | .pc => pure { m.s with pc := value }
    | .ir => pure { m.s with ir := .const value }
    | .gpr r => pure (m.s.setReg r (some (.const value)))
    | .psr => throw .nullDeref
  return { m with s := { s with
    regChangeLocation := fun x => if x = r then some ir else s.regChangeLocation x } }

/-- `Executor::getReg`. An uninitialized register is written back as 0. -/
def getReg (m : Mach) (r : Fin 8) (ir : InstValue) : Except Abort (Mach × WordExpr) :=
  match m.s.reg r with
  | some e => pure (m, e)
  | none => do
    let m ← if ir.belongsToOS then pure m else
      m.newStateIssue .warnUseUninitializedRegister ir
        ("using uninitialized R" ++ toString r.val ++ ".\n")
    return ({ m with s := m.s.setReg r (some (.const 0)) }, .const 0)

/-- `Executor::getReg` with `bypassUninitialized`. -/
def getRegBypass (m : Mach) (r : Fin 8) : Option WordExpr :=
  m.s.reg r

/-- `Executor::setCC`. -/
def setCC (m : Mach) (r : Fin 8) (ir : InstValue) : Mach :=
  { m with s := { m.s with ccRef := some r, ccChangeLocation := some ir } }

/-- `Executor::getCCExpr`. -/
def getCCExpr (m : Mach) (ir : InstValue) : Except Abort (Mach × WordExpr) :=
  match m.s.getCCExpr with
  | some e => pure (m, e)
  | none =>
    match m.s.ccRef with
    | none => do
      let m ← m.newStateIssue .warnUseUninitializedCC ir ""
      return (m, .const 0)
    | some r => do
      let m ← m.newStateIssue .warnUseUninitializedRegister ir
        ("using uninitialized R" ++ toString r.val ++ " (through CC code).\n")
      let s := m.s.setReg r (some (.const 0))
      return ({ m with s := { s with ccRef := some r } }, .const 0)

/-- The value and the condition code a data instruction leaves behind. -/
def setRegAndCC (m : Mach) (dr : Fin 8) (value : Option WordExpr) (ir : InstValue) :
    Except Abort Mach := do
  let m ← setRegExpr m (.gpr dr) value ir
  return setCC m dr ir

/-! ## Memory -/

/-- The warning about reading a cell, if any. -/
def warnOnRead (m : Mach) (addr : Word) (value : MemValue) (ir : InstValue) :
    Except Abort Mach :=
  let note := "reading addr " ++ toLC3Hex addr ++ ".\n"
  match value with
  | .data d =>
    if d.forWrite then m.newStateIssue .warnReadUninitializedMemory ir note else pure m
  | .inst _ => m.newStateIssue .warnReadInstAsData ir note

/-- `Executor::memReadData`. The result is null only when the value of an
uninitialized register goes back to that register. -/
def memReadData (m : Mach) (addr : Word) (ir : InstValue) (dr : Option (Fin 8)) :
    Except Abort (Mach × Option WordExpr) :=
  match m.s.mem.read addr with
  | none => do
    let m ← m.newStateIssue .warnPossibleWildRead ir ("reading addr " ++ toLC3Hex addr ++ ".\n")
    return (m, some (.const 0))
  | some value => do
    let m ← warnOnRead m addr value ir
    match value.e with
    | some e => return (m, some e)
    | none =>
      match m.s.memStoringUninitReg addr with
      | none => return (m, some (.const 0))
      | some (r, stored) =>
        if dr = some r then return (m, none)
        else do
          let m ← m.newStateIssue .warnUseUninitializedRegister ir
            ("Using value of: R" ++ toString r.val ++ "\n" ++
              "    Stored uninitialized reg value into memory at: " ++
              stored.formattedContext ++ ".\n")
          return ({ m with s := { m.s with
            memStoringUninitReg := fun x =>
              if x = addr then none else m.s.memStoringUninitReg x } }, some (.const 0))

/-- The checks of `Executor::memWriteData` on the cell about to be overwritten. The
flag tells whether the store goes on; it does not for an instruction. -/
def checkOverwrite (m : Mach) (addr : Word) (ir : InstValue) : Except Abort (Mach × Bool) :=
  match m.s.mem.read addr with
  | none => do
    let m ← m.newStateIssue .warnPossibleWildWrite ir
      ("writing to unspecified addr " ++ toLC3Hex addr ++ ".\n")
    return (m, true)
  | some (.data d) =>
    if d.forRead then do
      let m ← m.newStateIssue .warnWriteReadOnlyData ir
        ("overwriting read-only data at addr " ++ toLC3Hex addr ++ ".\n")
      return (m, true)
    else pure (m, true)
  | some (.inst oldInst) => do
    let m ← m.newStateIssue .errOverwriteInst ir
      ("writing to addr " ++ toLC3Hex addr ++ ", original: " ++
        oldInst.formattedContext ++ ".\n")
    assertBroken m
    return (m, false)

/-- What `Executor::memWriteData` does for each `WriteResult`. -/
def afterWrite (m : Mach) (value : Option WordExpr) (ir : InstValue) :
    WriteResult → Except Abort Mach
  | .success => pure m
  | .halt =>
    let m := { m with s := { m.s with status := .halted } }
    match m.s.latestNonOSInst.1 with
    | none => throw .nullDeref
    | some last =>
      if last.instID ≠ .TRAP then
        m.newStateIssue .warnManualHalt last
          ("last executed instruction: " ++ last.formattedContext ++ ".\n")
      else pure m
  | .ddr =>
    match value with
    | none => do
      let m ← m.newStateIssue .warnUseUninitializedRegister ir ""
      return { m with s := { m.s with lc3Out := m.s.lc3Out ++ [.const 0] } }
    | some e => return { m with s := { m.s with lc3Out := m.s.lc3Out ++ [e] } }

/-- `Executor::memWriteData`. -/
def memWriteData (m : Mach) (addr : Word) (value : Option WordExpr) (ir : InstValue) :
    Except Abort Mach := do
  let (m, goesOn) ← checkOverwrite m addr ir
  if !goesOn then return m
  let entry := match value with
    | none => some (ir.sr, ir)
    | some _ => none
  let (result, mem) ← m.s.mem.writeData addr value
  let m := { m with s := { m.s with
    mem := mem
    memStoringUninitReg := fun x => if x = addr then entry else m.s.memStoringUninitReg x
    mcrLog := if addr = 0xFFFE then m.s.mcrLog ++ value.toList else m.s.mcrLog } }
  afterWrite m value ir result

/-! ## Instructions that do not fork -/

def executeST (m : Mach) (ir : InstValue) : Except Abort Mach :=
  memWriteData m (m.s.pc + ir.imm9) (getRegBypass m ir.sr) ir

def executeLD (m : Mach) (ir : InstValue) : Except Abort Mach := do
  let (m, result) ← memReadData m (m.s.pc + ir.imm9) ir (some ir.dr)
  if m.s.status ≠ .normal then return m
  setRegAndCC m ir.dr result ir

/-- The issue of a jump whose target is not constant. -/
def symbolicPC (m : Mach) (ir : InstValue) : Except Abort Mach := do
  let m ← m.newStateIssue .errSymbolicPC ir
    ("last instruction that set PC: " ++
      (match m.s.regChangeLocation .pc with
        | none => "(none)"
        | some i => i.formattedContext) ++ ".\n")
  assertBroken m
  return m

/-- The check of `Executor::executeJMP` for a `RET` in the main code. -/
def checkRetInMainCode (m : Mach) (ir : InstValue) : Except Abort Mach :=
  if ir.belongsToOS = false ∧ ir.baseR = 7 ∧ m.s.stackHasMessedUp = false then
    match m.s.colorStack with
    | [color] => do
      let m ← m.newStateIssue .errRetInMainCode ir
        ("main code starts at: " ++ toLC3Hex color ++ ".\n")
      return { m with s := { m.s with stackHasMessedUp := true } }
    | _ => pure m
  else pure m

def executeJMP (m : Mach) (ir : InstValue) : Except Abort Mach := do
  let m ← checkRetInMainCode m ir
  if m.s.status = .normal then
    let (m, newPC) ← getReg m ir.baseR ir
    match newPC.asConst with
    | none => symbolicPC m ir
    | some _ => setRegExpr m .pc (some newPC) ir
  else return m

def executeJSRR (m : Mach) (ir : InstValue) : Except Abort Mach := do
  let (m, newPC) ← getReg m ir.baseR ir
  match newPC.asConst with
  | none => symbolicPC m ir
  | some _ =>
    let m ← setRegWord m (.gpr 7) m.s.pc ir
    setRegExpr m .pc (some newPC) ir

/-- The operands of a multiplication. -/
def asMul : WordExpr → Option (WordExpr × WordExpr)
  | .mul l r => some (l, r)
  | _ => none

/-- `assert(mul1->left->getKind() == Constant)`, for either operand of `ADD`. -/
def assertMulForm (op : WordExpr) : Except Abort Unit :=
  match op with
  | .mul (.const _) _ => pure ()
  | .mul _ _ => throw .unexpectedMul
  | _ => pure ()

/-- A multiple of an expression; coefficient 0 gives the constant. -/
def mulBy (c : Word) (e : WordExpr) : WordExpr :=
  if c = 0 then .const 0 else mul (.const c) e

/-- The sum that `Executor::executeADD` builds, folding repeated operands into one
multiplication. -/
def addResult (op1 op2 : WordExpr) : Except Abort WordExpr := do
  assertMulForm op1
  assertMulForm op2
  if op1 = op2 then
    match asMul op1 with
    | some (l, r) =>
      let c ← castConstant l
      return mulBy (c * 2) r
    | none => return mul (.const 2) op1
  else
    match asMul op1, asMul op2 with
    | some (l1, r1), some (l2, r2) =>
      if r1 = op2 then
        let c ← castConstant l1
        return mulBy (c + 1) r1
      else if r2 = op1 then
        let c ← castConstant l2
        return mulBy (c + 1) r2
      else if r1 = r2 then
        let c1 ← castConstant l1
        let c2 ← castConstant l2
        return mulBy (c1 + c2) r1
      else return add op1 op2
    | some (l1, r1), none =>
      if r1 = op2 then
        let c ← castConstant l1
        return mulBy (c + 1) r1
      else return add op1 op2
    | none, some (l2, r2) =>
      if r2 = op1 then
        let c ← castConstant l2
        return mulBy (c + 1) r2
      else return add op1 op2
    | none, none => return add op1 op2

def executeADD (m : Mach) (ir : InstValue) : Except Abort Mach := do
  let (m, op1) ← getReg m ir.sr1 ir
  let (m, op2) ← if ir.instDef.format = .RRR then getReg m ir.sr2 ir
    else pure (m, .const ir.imm5)
  let result ← addResult op1 op2
  setRegAndCC m ir.dr (some result) ir

/-- `isZero()` of an expression that may be null. -/
def isZeroExpr (e : Option WordExpr) : Bool :=
  e = some (.const 0)

/-- The warning of `Executor::executeAND` about operand `r`, which is null, given
the other operand. -/
def warnOnAndOperand (m : Mach) (r : Fin 8) (other : Option WordExpr) (ir : InstValue) :
    Except Abort Mach :=
  if isZeroExpr other = false ∧ ir.belongsToOS = false then do
    let m ← m.newStateIssue .warnUseUninitializedRegister ir
      ("using uninitialized R" ++ toString r.val ++ ".\n")
    setRegWord m (.gpr r) 0 ir
  else pure m

/-- `AND` of an uninitialized register with the constant 0 is not reported. -/
def executeAND (m : Mach) (ir : InstValue) : Except Abort Mach := do
  let op1 := m.s.reg ir.sr1
  let op2 := if ir.instDef.format = .RRR then m.s.reg ir.sr2 else some (.const ir.imm5)
  let m ← if op1.isNone then warnOnAndOperand m ir.sr1 op2 ir else pure m
  let m ← if op2.isNone then warnOnAndOperand m ir.sr2 op1 ir else pure m
  let result := and (op1.getD (.const 0)) (op2.getD (.const 0))
  setRegAndCC m ir.dr (some result) ir

def executeNOT (m : Mach) (ir : InstValue) : Except Abort Mach := do
  let (m, op) ← getReg m ir.sr1 ir
  setRegAndCC m ir.dr (some (not op)) ir

def executeLEA (m : Mach) (ir : InstValue) : Except Abort Mach := do
  let m ← setRegWord m (.gpr ir.dr) (m.s.pc + ir.imm9) ir
  return setCC m ir.dr ir

def executeJSR (m : Mach) (ir : InstValue) : Except Abort Mach := do
  let m ← setRegWord m (.gpr 7) m.s.pc ir
  setRegWord m .pc (m.s.pc + ir.imm11) ir

def executeTRAP (m : Mach) (ir : InstValue) : Except Abort Mach :=
  if ir.sourceContent = "INSTANT_HALT" then
    pure { m with s := { m.s with status := .halted } }
  else do
    let m ← setRegWord m (.gpr 7) m.s.pc ir
    let (m, newPC) ← memReadData m ir.vec8 ir none
    if m.s.status ≠ .normal then return m
    match newPC with
    | none => throw .nullDeref
    | some newPC =>
      let c ← castConstant newPC
      setRegWord m .pc c ir

def executeRTI (m : Mach) (ir : InstValue) : Except Abort Mach := do
  let m ← m.newStateIssue .errInvalidInst ir
    ("RTI is not supported at " ++ ir.formattedContext ++ ".\n")
  assertBroken m
  return m

/-! ## Forking -/

/-- `Executor`, with the counter of its `StateAllocator`. -/
structure Executor where
  solver : Solver
  forkOnSymAddrThreshold : Int
  baseMem : Word → Option MemValue
  initConstraints : ConstraintSet
  totalAllocatedStateCount : Nat
  possibleValuesCache : List (WordExpr × List PossibleValues.Value)

/-- What one step returns: the executor and the issue package as they are now, and
the result states. -/
structure StepResult where
  ex : Executor
  pkg : IssuePackage
  states : List State

namespace Executor

open PossibleValues (Value evalPossibleValues)

/-- The values a cache entry leaves possible under the current constraints; an
empty entry stands for too many values under the initial constraints. -/
def valuesOfEntry (ex : Executor) (expr : WordExpr) (cs : ConstraintSet) (entry : List Value) :
    List Value :=
  if entry.isEmpty then (evalPossibleValues ex.solver cs expr (-1)).2
  else entry.filter fun item => ex.solver.mayBeTrue cs item.2

/-- `Executor::evalPossibleValuesWithCache`. -/
def evalPossibleValuesWithCache (ex : Executor) (expr : WordExpr) (cs : ConstraintSet) :
    Except Abort (Executor × List Value) :=
  if ex.forkOnSymAddrThreshold = 0 then
    pure (ex, (evalPossibleValues ex.solver cs expr (-1)).2)
  else
    match ex.possibleValuesCache.lookup expr with
    | some entry => pure (ex, ex.valuesOfEntry expr cs entry)
    | none =>
      let (fits, values) :=
        evalPossibleValues ex.solver ex.initConstraints expr ex.forkOnSymAddrThreshold
      if fits ∧ values.isEmpty then throw .noInitValue
      else
        let entry := if fits then values else []
        let ex := { ex with possibleValuesCache := (expr, entry) :: ex.possibleValuesCache }
        pure (ex, ex.valuesOfEntry expr cs entry)

/-- The loop of `Executor::forkOnRange`: a copy for every value but the last, which
`s` itself takes. A single value needs no constraint. -/
def forkOnValues (s : State) (single : Bool) :
    Nat → List Value → Except Abort (List (Word × State))
  | _, [] => pure []
  | _, [(v, c)] => do
    let t ← if single then pure s else s.addConstraint c
    return [(v, t)]
  | uid, (v, c) :: rest => do
    let t ← s.fork uid
    let t ← t.addConstraint c
    let instances ← forkOnValues s single (uid + 1) rest
    return (v, t) :: instances

/-- `Executor::forkOnRange`. -/
def forkOnRange (ex : Executor) (s : State) (val : WordExpr) :
    Except Abort (Executor × List (Word × State)) := do
  let (ex, values) ← ex.evalPossibleValuesWithCache val s.constraints
  let instances ← forkOnValues s (values.length == 1) ex.totalAllocatedStateCount values
  return ({ ex with
    totalAllocatedStateCount := ex.totalAllocatedStateCount + (values.length - 1) }, instances)

/-- The loop over the instances of a forked memory access. -/
def accessEach (access : Mach → Word → Except Abort Mach) (pkg : IssuePackage) :
    List (Word × State) → Except Abort (IssuePackage × List State)
  | [] => pure (pkg, [])
  | (addr, t) :: rest => do
    let m ← access ⟨t, pkg⟩ addr
    let (pkg, states) ← accessEach access m.pkg rest
    return (pkg, m.s :: states)

/-- The common shape of `handleExprST` and `handleExprLD`: one access for a constant
address, one for each possible address otherwise. -/
def handleExpr (ex : Executor) (m : Mach) (addr : WordExpr)
    (access : Mach → Word → Except Abort Mach) : Except Abort StepResult :=
  match addr.asConst with
  | some c => do
    let m ← access m c
    return ⟨ex, m.pkg, [m.s]⟩
  | none => do
    let (ex, instances) ← ex.forkOnRange m.s addr
    if instances.isEmpty then throw .noRange
    let (pkg, states) ← accessEach access m.pkg instances
    return ⟨ex, pkg, states⟩

/-- `Executor::handleExprST`. -/
def handleExprST (ex : Executor) (m : Mach) (addr : WordExpr) (value : Option WordExpr)
    (ir : InstValue) : Except Abort StepResult :=
  ex.handleExpr m addr fun m addr => memWriteData m addr value ir

/-- One access of `Executor::handleExprLD`. -/
def loadFrom (ir : InstValue) (m : Mach) (addr : Word) : Except Abort Mach := do
  let (m, data) ← memReadData m addr ir (some ir.dr)
  if m.s.status ≠ .normal then return m
  setRegAndCC m ir.dr data ir

/-- `Executor::handleExprLD`. -/
def handleExprLD (ex : Executor) (m : Mach) (addr : WordExpr) (ir : InstValue) :
    Except Abort StepResult :=
  ex.handleExpr m addr (loadFrom ir)

/-- The arguments of `handleExprST` read registers, and C++ does not say in which order.
As compiled, the value comes first: `STR` of an uninitialized register through itself
stores null. -/
def executeSTR (ex : Executor) (m : Mach) (ir : InstValue) : Except Abort StepResult := do
  let value := getRegBypass m ir.sr
  let (m, base) ← getReg m ir.baseR ir
  ex.handleExprST m (add base (.const ir.imm6)) value ir

def executeLDR (ex : Executor) (m : Mach) (ir : InstValue) : Except Abort StepResult := do
  let (m, base) ← getReg m ir.baseR ir
  ex.handleExprLD m (add base (.const ir.imm6)) ir

/-- `STI` and `LDI` read the address from memory first. -/
def readMidAddr (ex : Executor) (m : Mach) (ir : InstValue)
    (go : Mach → WordExpr → Except Abort StepResult) : Except Abort StepResult := do
  let (m, midAddr) ← memReadData m (m.s.pc + ir.imm9) ir none
  if m.s.status ≠ .normal then return ⟨ex, m.pkg, [m.s]⟩
  match midAddr with
  | none => throw .nullDeref
  | some midAddr => go m midAddr

def executeSTI (ex : Executor) (m : Mach) (ir : InstValue) : Except Abort StepResult :=
  ex.readMidAddr m ir fun m midAddr => ex.handleExprST m midAddr (getRegBypass m ir.sr) ir

def executeLDI (ex : Executor) (m : Mach) (ir : InstValue) : Except Abort StepResult :=
  ex.readMidAddr m ir fun m midAddr => ex.handleExprLD m midAddr ir

/-- The branch condition for the condition codes of a `BR`, over the expression that
the condition codes refer to. `CC_NONE` and `CC_NZP` need none. -/
def brCondition (cc : Word) (e : WordExpr) : BoolExpr :=
  if cc = 4 then slt e (.const 0)
  else if cc = 2 then e.createIsZero
  else if cc = 1 then slt (.const 0) e
  else if cc = 5 then e.createIsZero.createIsZero
  else if cc = 6 then sle e (.const 0)
  else sle (.const 0) e

/-- `Executor::solveBRCond`. -/
def solveBRCond (ex : Executor) (m : Mach) (ir : InstValue) :
    Except Abort (Mach × Validity × Option BoolExpr) :=
  if ir.cc = 0 then pure (m, .invalid, none)
  else if ir.cc = 7 then pure (m, .valid, none)
  else do
    let (m, e) ← getCCExpr m ir
    let brCond := brCondition ir.cc e
    match brCond.asConst with
    | some b => return (m, if b then .valid else .invalid, some brCond)
    | none => return (m, ex.solver.evaluate m.s.constraints brCond, some brCond)

/-- `Executor::executeBR`. -/
def executeBR (ex : Executor) (m : Mach) (ir : InstValue) : Except Abort StepResult := do
  let (m, br, brCond) ← ex.solveBRCond m ir
  match br with
  | .valid =>
    let m ← setRegWord m .pc (m.s.pc + ir.imm9) ir
    return ⟨ex, m.pkg, [m.s]⟩
  | .invalid => return ⟨ex, m.pkg, [m.s]⟩
  | .unknown =>
    match brCond with
    | none => throw .nullDeref
    | some brCond =>
      let continueState ← m.s.fork ex.totalAllocatedStateCount
      let branchState ← m.s.addConstraint brCond
      let continueState ← continueState.addConstraint brCond.createIsZero
      let branch ← setRegWord ⟨branchState, m.pkg⟩ .pc (branchState.pc + ir.imm9) ir
      return ⟨{ ex with totalAllocatedStateCount := ex.totalAllocatedStateCount + 1 },
        branch.pkg, [continueState, branch.s]⟩

/-! ## Step -/

/-- `Executor::fetchInst`. -/
def fetchInst (m : Mach) : Except Abort (Mach × Option InstValue) :=
  let note := "trying to execute addr " ++ toLC3Hex m.s.pc ++ ".\n"
  match m.s.mem.read m.s.pc with
  | some (.inst ir) => pure (m, some ir)
  | none => do
    let m ← m.newStateIssue .errExecuteUninitializedMemory m.s.latestNonOSInst.1 note
    assertBroken m
    return (m, none)
  | some (.data _) => do
    let m ← m.newStateIssue .errExecuteDataAsInst m.s.latestNonOSInst.1 note
    assertBroken m
    return (m, none)

/-- The path information that `Executor::step` records for a fetched instruction. -/
def recordFetch (m : Mach) (ir : InstValue) : Mach :=
  { m with s := { m.s with
      latestInst := (some ir, m.s.latestInst.1)
      latestNonOSInst :=
        if ir.belongsToOS then m.s.latestNonOSInst else (some ir, m.s.latestNonOSInst.1)
      stepCount := m.s.stepCount + 1 } }

/-- `Executor::updateIRAndPC`. -/
def updateIRAndPC (m : Mach) (ir : InstValue) : Except Abort Mach := do
  let m ← setRegExpr m .ir (some (.const ir.ir)) ir
  setRegWord m .pc (m.s.pc + 1) ir

/-- The instruction switch of `Executor::step` for instructions with one result. -/
def executeSimple (m : Mach) (ir : InstValue) : Except Abort Mach :=
  match ir.instID with
  | .ADD | .ADDi => executeADD m ir
  | .AND | .ANDi => executeAND m ir
  | .JMP => executeJMP m ir
  | .JSR => executeJSR m ir
  | .JSRR => executeJSRR m ir
  | .LD => executeLD m ir
  | .LEA => executeLEA m ir
  | .NOT => executeNOT m ir
  | .ST => executeST m ir
  | .TRAP => executeTRAP m ir
  | _ => executeRTI m ir

/-- The instruction switch of `Executor::step`. -/
def execute (ex : Executor) (m : Mach) (ir : InstValue) : Except Abort StepResult :=
  match ir.instID with
  | .BR => ex.executeBR m ir
  | .LDR => ex.executeLDR m ir
  | .LDI => ex.executeLDI m ir
  | .STR => ex.executeSTR m ir
  | .STI => ex.executeSTI m ir
  | _ => do
    let m ← executeSimple m ir
    return ⟨ex, m.pkg, [m.s]⟩

/-- `Executor::step` from the update of the path information on. -/
def stepFetched (ex : Executor) (m : Mach) (ir : InstValue) : Except Abort StepResult := do
  let m ← updateIRAndPC (recordFetch m ir) ir
  if m.s.status ≠ .normal then return ⟨ex, m.pkg, [m.s]⟩
  ex.execute m ir

/-- `Executor::step`. -/
def step (ex : Executor) (m : Mach) : Except Abort StepResult := do
  let (m, ir) ← fetchInst m
  if m.s.status ≠ .normal then return ⟨ex, m.pkg, [m.s]⟩
  match ir with
  | none => throw .nullDeref
  | some ir => ex.stepFetched m ir

/-- `Executor::step` with `returnImmediatelyIfWillFork`: false comes with the state and
the issue package as they are then, true with the results. -/
def stepUnlessFork (ex : Executor) (m : Mach) : Except Abort (Mach ⊕ StepResult) := do
  let (m, ir) ← fetchInst m
  if m.s.status ≠ .normal then return .inr ⟨ex, m.pkg, [m.s]⟩
  match ir with
  | none => throw .nullDeref
  | some ir =>
    if ir.instID = .BR then
      let (m, br, _) ← ex.solveBRCond m ir
      if br = .unknown then return .inl m
      .inr <$> ex.stepFetched m ir
    else .inr <$> ex.stepFetched m ir

/-- The executor of a loaded program. -/
def new (solver : Solver) (forkOnSymAddrThreshold : Int) (mem : Word → Option MemValue) :
    Executor where
  solver := solver
  forkOnSymAddrThreshold := forkOnSymAddrThreshold
  baseMem := mem
  initConstraints := []
  totalAllocatedStateCount := 0
  possibleValuesCache := []

/-- `Executor::createInitState`: a constraint that contradicts the ones before it
ends the program. -/
def createInitState (ex : Executor) (constraints : List BoolExpr) (initPC : Word) :
    Except Abort (Executor × State) := do
  let s := State.init ex.totalAllocatedStateCount ex.baseMem initPC
  let s ← constraints.foldlM (fun (s : State) c =>
    if ex.solver.mustBeFalse s.constraints c then throw .progExit else s.addConstraint c) s
  return ({ ex with
    totalAllocatedStateCount := ex.totalAllocatedStateCount + 1
    initConstraints := s.constraints }, s)

end Executor

end Klc3
