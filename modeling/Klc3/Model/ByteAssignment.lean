import Klc3.Model.IndependentSolver

/-!
# Assignments in bytes

The values that `STPSolver` returns for the elements of arrays, as the vectors of bytes in
which they are passed on, and `klee::Assignment`, which puts the bytes together again.
-/

namespace Klc3.Klee

abbrev Byte := BitVec 8

/-- What the code below does not define, and its fatal errors. -/
inductive Fault where
  /-- A vector or the shared memory is accessed behind its end. -/
  | outOfBounds
  /-- An `int` is shifted by its width or more. -/
  | shiftTooWide
  /-- `runAndGetCex`: "Unsupported array range". -/
  | unsupportedRange
  /-- `runAndGetCexForked`: "not enough shared memory for counterexample". -/
  | notEnoughSharedMemory
  /-- `getAllIndependentConstraintsSets`: "the expr should always be false and therefore not
  included in factors". -/
  | notFalse
  /-- `computeInitialValues`: "Should be equal number arrays and answers", "we're talking about
  the same array here". -/
  | sizesDiffer
deriving DecidableEq, Repr

/-- The value of an expression of type `unsigned`. -/
def unsigned (n : Nat) : Nat := n % 2 ^ 32

/-- `wordSize`. -/
def Array.wordSize (array : Array) : Nat := array.range / 8

/-- `size * wordSize`. -/
def Array.byteSize (array : Array) : Nat := unsigned (array.size * array.wordSize)

/-! ## Encoding -/

/-- `static_cast<unsigned char>((value >> (8U * j)) & 0xFF)`. -/
def byteOf (value : BitVec 64) (j : Nat) : Byte :=
  ((value >>> (8 * j)) &&& 0xFF).setWidth 8

/-- `vc_getCounterExample` at an element, with `getBVUnsignedLongLong`. -/
def counterExample (a : Assignment) (object : Array) (offset : Nat) : BitVec 64 :=
  (a (object, offset)).setWidth 64

/-- `bytes[i] = b`. -/
def store (bytes : List Byte) (i : Nat) (b : Byte) : Except Fault (List Byte) :=
  if i < bytes.length then .ok (bytes.set i b) else .error .outOfBounds

/-- The body of the loop over the objects in `runAndGetCex`. -/
def encodeObject (a : Assignment) (object : Array) : Except Fault (List Byte) :=
  if 8 ≤ object.range ∧ object.range ≤ 64 then
    (List.range object.size).foldlM (fun bytes offset =>
      (List.range object.wordSize).foldlM (fun bytes j =>
        store bytes (unsigned (offset * object.wordSize + j))
          (byteOf (counterExample a object offset) j)) bytes)
      (List.replicate object.byteSize 0)
  else .error .unsupportedRange

/-- `runAndGetCex`, when the query has the given counterexample. -/
def runAndGetCex (a : Assignment) (objects : List Array) : Except Fault (List (List Byte)) :=
  objects.mapM (encodeObject a)

/-- The shared memory with `pos`. -/
structure Cursor where
  memory : List Byte
  pos : Nat

/-- `*pos++ = b`. -/
def Cursor.push (c : Cursor) (b : Byte) : Except Fault Cursor :=
  if c.pos < c.memory.length then .ok ⟨c.memory.set c.pos b, c.pos + 1⟩ else .error .outOfBounds

/-- What the child writes for an object. -/
def pushObject (a : Assignment) (c : Cursor) (object : Array) : Except Fault Cursor :=
  (List.range object.size).foldlM (fun c offset =>
    (List.range object.wordSize).foldlM (fun c j =>
      c.push (byteOf (counterExample a object offset) j)) c) c

/-- How the parent takes the shared memory apart. -/
def splitValues (memory : List Byte) : Nat → List Array → List (List Byte)
  | _, [] => []
  | pos, object :: objects =>
    (memory.drop pos).take object.byteSize ::
      splitValues memory (pos + object.byteSize) objects

/-- `runAndGetCexForked`, when the query has the given counterexample and both processes
end normally. `memory` is what the shared memory holds before. -/
def runAndGetCexForked (memory : List Byte) (a : Assignment) (objects : List Array) :
    Except Fault (List (List Byte)) := do
  let sum := unsigned (objects.map Array.size).sum
  if sum ≥ memory.length then throw .notEnoughSharedMemory
  let c ← objects.foldlM (pushObject a) ⟨memory, 0⟩
  return splitValues c.memory 0 objects

/-! ## Decoding -/

/-- `klee::Assignment`. -/
structure ByteAssignment where
  allowFreeValues : Bool
  bindings : List (Array × List Byte)

namespace ByteAssignment

/-- The constructor; of two entries for one array the first is kept. -/
def ofValues (objects : List Array) (values : List (List Byte)) (allowFreeValues : Bool) :
    ByteAssignment :=
  ⟨allowFreeValues, objects.zip values⟩

/-- `byte << (8U * k)`, where the byte is promoted to `int`, as an operand of type
`unsigned long long`. -/
def shiftByte (b : Byte) (k : Nat) : Except Fault (BitVec 64) :=
  if 8 * k < 32 then .ok (((b.setWidth 32) <<< (8 * k)).signExtend 64) else .error .shiftTooWide

/-- The body of the loop in `evaluate`. -/
def combineByte (bytes : List Byte) (array : Array) (index : Nat) (value : BitVec 64) (k : Nat) :
    Except Fault (BitVec 64) :=
  match bytes[unsigned (index * array.wordSize + k)]? with
  | none => .error .outOfBounds
  | some b => do return value ||| (← shiftByte b k)

/-- What is not bound: a read of the array, or 0. -/
def unbound (m : ByteAssignment) (array : Array) : Option (BitVec array.range) :=
  if m.allowFreeValues then none else some 0

/-- `evaluate` of an array element: `none` is the read of the element itself. -/
def evaluate (m : ByteAssignment) (array : Array) (index : Nat) :
    Except Fault (Option (BitVec array.range)) :=
  match m.bindings.lookup array with
  | some bytes =>
    if index < bytes.length then do
      let value ← (List.range array.wordSize).foldlM (combineByte bytes array index) 0
      return some (value.setWidth array.range)
    else .ok (m.unbound array)
  | none => .ok (m.unbound array)

end ByteAssignment

end Klc3.Klee
