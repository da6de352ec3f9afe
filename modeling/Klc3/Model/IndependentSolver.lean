import Klc3.Lib.Visit
import Klc3.Model.Solver

/-!
# The independent solver

`IndependentSolver`, the layer of the solver chain that passes on only those constraints
which share array elements with the query, directly or through other constraints. Its
expressions are those of KLEE: they may read an array at any index and through a list of
updates. The operators other than reads are a parameter.
-/

namespace Klc3.Klee

/-- `klee::Array`. Two arrays are the same when their addresses are. -/
structure Array where
  addr : Nat
  name : String
  size : Nat
  range : Nat
  constantValues : List Nat
deriving DecidableEq

def Array.isConstantArray (array : Array) : Bool :=
  !array.constantValues.isEmpty

mutual

/-- `klee::Expr`. -/
inductive Expr (ω : Type) where
  | const (value : Nat)
  | read (root : Array) (head : UpdateNodes ω) (index : Expr ω)
  | node (op : ω) (kids : Exprs ω)

/-- The list of `UpdateNode`s, the most recent first. -/
inductive UpdateNodes (ω : Type) where
  | nil
  | cons (index value : Expr ω) (next : UpdateNodes ω)

inductive Exprs (ω : Type) where
  | nil
  | cons (kid : Expr ω) (kids : Exprs ω)

end

deriving instance DecidableEq for Expr, UpdateNodes, Exprs

/-! ## Evaluation -/

section Eval

/-- The values of the array elements. -/
abbrev Assignment := (p : Array × Nat) → BitVec p.1.range

variable {ω : Type} (sem : ω → List Nat → Nat) (a : Assignment)

mutual

def Expr.eval : Expr ω → Nat
  | .const value => value
  | .read root head index =>
    let i := index.eval
    head.lookup i (if root.isConstantArray then root.constantValues.getD i 0 else (a (root, i)).toNat)
  | .node op kids => sem op kids.eval

/-- The value at an index, given the one below the updates. -/
def UpdateNodes.lookup (i : Nat) (below : Nat) : UpdateNodes ω → Nat
  | .nil => below
  | .cons index value next => if index.eval = i then value.eval else next.lookup i below

def Exprs.eval : Exprs ω → List Nat
  | .nil => []
  | .cons kid kids => kid.eval :: kids.eval

end

end Eval

variable {ω : Type} [DecidableEq ω]

/-! ## Reads -/

def Expr.isConst : Expr ω → Bool
  | .const _ => true
  | _ => false

structure ReadExpr (ω : Type) where
  root : Array
  head : UpdateNodes ω
  index : Expr ω

def Expr.asRead : Expr ω → Option (ReadExpr ω)
  | .read root head index => some ⟨root, head, index⟩
  | _ => none

def UpdateNodes.toList : UpdateNodes ω → List (Expr ω)
  | .nil => []
  | .cons index value next => index :: value :: next.toList

def Exprs.toList : Exprs ω → List (Expr ω)
  | .nil => []
  | .cons kid kids => kid :: kids.toList

/-- What `findReads` pushes when it has popped an expression. -/
def Expr.succs : Expr ω → List (Expr ω)
  | .const _ => []
  | .read _ head index => index :: head.toList
  | .node _ kids => kids.toList

mutual

/-- The number of subexpressions. -/
def Expr.size : Expr ω → Nat
  | .const _ => 1
  | .read _ head index => index.size + head.size + 1
  | .node _ kids => kids.size + 1

def UpdateNodes.size : UpdateNodes ω → Nat
  | .nil => 0
  | .cons index value next => index.size + value.size + next.size

def Exprs.size : Exprs ω → Nat
  | .nil => 0
  | .cons kid kids => kid.size + kids.size

end

/-- `findReads` with `visitUpdates`. Its set `updates` of lists that were gone through has no
influence on the result, since all their expressions are in `visited`. -/
def findReads (e : Expr ω) : List (ReadExpr ω) :=
  ((Visit.start (fun e => !e.isConst) e).run (fun e => !e.isConst) Expr.succs e.size).popped.filterMap
    Expr.asRead

/-! ## Element sets -/

/-- `IndependentElementSet`. The map `elements` is the set of its pairs: none of its sets is
empty. -/
structure IndependentElementSet (ω : Type) where
  elements : List (Array × Nat)
  wholeObjects : List Array
  exprs : List (Expr ω)

namespace IndependentElementSet

variable (s b : IndependentElementSet ω)

/-- Whether `elements` has an entry for the array. -/
def hasElements (array : Array) : Bool :=
  s.elements.any fun p => p.1 = array

def eraseElements (array : Array) : IndependentElementSet ω :=
  { s with elements := s.elements.filter fun p => p.1 ≠ array }

/-- The body of the constructor's loop. -/
def addRead (re : ReadExpr ω) : IndependentElementSet ω :=
  if re.root.isConstantArray && re.head = .nil then s
  else if re.root ∈ s.wholeObjects then s
  else match re.index with
    | .const value => { s with elements := (re.root, value) :: s.elements }
    | _ =>
      let s := s.eraseElements re.root
      { s with wholeObjects := re.root :: s.wholeObjects }

def ofExpr (e : Expr ω) : IndependentElementSet ω :=
  (findReads e).foldl addRead ⟨[], [], [e]⟩

def intersects : Bool :=
  (s.wholeObjects.any fun array => array ∈ b.wholeObjects || b.hasElements array) ||
    s.elements.any fun p => p.1 ∈ b.wholeObjects || p ∈ b.elements

def addWhole (r : Bool × IndependentElementSet ω) (array : Array) :
    Bool × IndependentElementSet ω :=
  if r.2.hasElements array then
    let s := r.2.eraseElements array
    (true, { s with wholeObjects := array :: s.wholeObjects })
  else if array ∈ r.2.wholeObjects then r
  else (true, { r.2 with wholeObjects := array :: r.2.wholeObjects })

def addElement (r : Bool × IndependentElementSet ω) (p : Array × Nat) :
    Bool × IndependentElementSet ω :=
  if p.1 ∈ r.2.wholeObjects ∨ p ∈ r.2.elements then r
  else (true, { r.2 with elements := p :: r.2.elements })

/-- `add`, with whether the set is changed. -/
def add : Bool × IndependentElementSet ω :=
  b.elements.foldl addElement (b.wholeObjects.foldl addWhole
    (false, { s with exprs := s.exprs ++ b.exprs }))

end IndependentElementSet

/-! ## Independent constraints -/

/-- A `ref<Expr>`: the address of an expression, and the expression there. -/
structure Ref (ω : Type) where
  addr : Nat
  expr : Expr ω

structure Query (ω : Type) where
  constraints : List (Ref ω)
  expr : Expr ω

/-- `caches`, a map from the addresses of constraints. -/
abbrev Cache (ω : Type) := List (Nat × IndependentElementSet ω)

/-- The entry for a constraint, which is made when there is none. -/
def lookup (cache : Cache ω) (c : Ref ω) : Cache ω × IndependentElementSet ω :=
  match cache.lookup c.addr with
  | some s => (cache, s)
  | none =>
    let s := IndependentElementSet.ofExpr c.expr
    (cache ++ [(c.addr, s)], s)

def makeWorklist (cache : Cache ω) :
    List (Ref ω) → Cache ω × List (Expr ω × IndependentElementSet ω)
  | [] => (cache, [])
  | c :: cs =>
    let (cache, s) := lookup cache c
    let (cache, worklist) := makeWorklist cache cs
    (cache, (c.expr, s) :: worklist)

/-- The variables of the closure loop. -/
structure Closure (ω : Type) where
  elts : IndependentElementSet ω
  done : Bool
  result : List (Expr ω)
  newWorklist : List (Expr ω × IndependentElementSet ω)

def Closure.visit (c : Closure ω) (item : Expr ω × IndependentElementSet ω) : Closure ω :=
  if item.2.intersects c.elts then
    let (modified, elts) := c.elts.add item.2
    { c with elts := elts, done := c.done && !modified, result := c.result ++ [item.1] }
  else { c with newWorklist := c.newWorklist ++ [item] }

/-- The `do` loop. Each round but the last makes the worklist shorter. -/
def closureLoop : Nat → IndependentElementSet ω → List (Expr ω) →
    List (Expr ω × IndependentElementSet ω) → IndependentElementSet ω × List (Expr ω)
  | 0, elts, result, _ => (elts, result)
  | fuel + 1, elts, result, worklist =>
    let c := worklist.foldl Closure.visit ⟨elts, true, result, []⟩
    if c.done then (c.elts, c.result) else closureLoop fuel c.elts c.result c.newWorklist

/-- `INDEP_ELEM_CACHE_CLEAR_THRESHOLD`. -/
def clearThreshold : Nat := 1000000

/-- `getIndependentConstraints`: the cache afterwards, and the required constraints. -/
def getIndependentConstraints (cache : Cache ω) (query : Query ω) : Cache ω × List (Expr ω) :=
  let cache := if cache.length > clearThreshold then [] else cache
  let (cache, worklist) := makeWorklist cache query.constraints
  (cache, (closureLoop (worklist.length + 1) (.ofExpr query.expr) [] worklist).2)

/-- The wrapped solver. -/
structure Solver (ω : Type) where
  computeTruth : List (Expr ω) → Expr ω → Bool
  computeValidity : List (Expr ω) → Expr ω → Validity

/-- `IndependentSolver::computeTruth`. -/
def computeTruth (solver : Solver ω) (cache : Cache ω) (query : Query ω) : Cache ω × Bool :=
  let (cache, required) := getIndependentConstraints cache query
  (cache, solver.computeTruth required query.expr)

/-- `IndependentSolver::computeValidity`. -/
def computeValidity (solver : Solver ω) (cache : Cache ω) (query : Query ω) :
    Cache ω × Validity :=
  let (cache, required) := getIndependentConstraints cache query
  (cache, solver.computeValidity required query.expr)

end Klc3.Klee
