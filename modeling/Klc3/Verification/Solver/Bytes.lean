import Klc3.Lib.Counting
import Klc3.Model.ByteAssignment
import Mathlib.Algebra.Order.BigOperators.Group.List
import Mathlib.Algebra.Order.Group.Nat

/-!
# Element values in bytes

Which elements come back from the bytes that the solver returns: those of at most 32 bits,
below the size of an array. Between the number of elements and the number of bytes
`evaluate` reads behind the vector.
-/

namespace Klc3.Klee

variable {a : Assignment} {array object : Array} {objects : List Array} {bytes : List Byte}

/-! ## Widths -/

/-- The ranges that the STP back end admits. -/
def Array.Admitted (array : Array) : Prop :=
  array.range = 8 ∨ array.range = 16 ∨ array.range = 32 ∨ array.range = 64

theorem Array.Admitted.wordSize (h : array.Admitted) :
    array.range = 8 * array.wordSize ∧ 0 < array.wordSize ∧ array.wordSize ∣ 2 ^ 32 := by
  unfold Array.wordSize
  rcases h with h | h | h | h
  all_goals
    rw [h]
    exact ⟨by decide, by decide, by decide⟩

theorem unsigned_of_lt {n : Nat} (h : n < 2 ^ 32) : unsigned n = n :=
  Nat.mod_eq_of_lt h

/-- The byte of an array at a position, counted from the first element. -/
def byteAt (a : Assignment) (array : Array) (k : Nat) : Byte :=
  byteOf (counterExample a array (k / array.wordSize)) (k % array.wordSize)

/-- The bytes are those of all the elements. -/
def Encodes (a : Assignment) (array : Array) (bytes : List Byte) : Prop :=
  bytes.length = array.size * array.wordSize ∧
    ∀ k < array.size * array.wordSize, bytes[k]? = some (byteAt a array k)

theorem byteAt_mul_add (i : Nat) {k : Nat} (hk : k < array.wordSize) :
    byteAt a array (i * array.wordSize + k) = byteOf (counterExample a array i) k := by
  have hpos := Nat.zero_lt_of_lt hk
  rw [byteAt, Nat.mul_comm, Nat.mul_add_div hpos, Nat.div_eq_of_lt hk, Nat.mul_add_mod,
    Nat.mod_eq_of_lt hk, Nat.add_zero]

/-- The bytes of one element. -/
def HasElement (a : Assignment) (array : Array) (i : Nat) (bytes : List Byte) : Prop :=
  ∀ k < array.wordSize,
    bytes[i * array.wordSize + k]? = some (byteOf (counterExample a array i) k)

theorem add_lt_mul_size {i : Nat} (hi : i < array.size) {k : Nat} (hk : k < array.wordSize) :
    i * array.wordSize + k < array.size * array.wordSize := by
  have hnext := Nat.mul_le_mul_right array.wordSize hi
  rw [Nat.succ_mul] at hnext
  omega

theorem Encodes.hasElement (henc : Encodes a array bytes) {i : Nat} (hi : i < array.size) :
    HasElement a array i bytes := by
  intro k hk
  rw [henc.2 _ (add_lt_mul_size hi hk), byteAt_mul_add i hk]

/-! ## `runAndGetCex` -/

theorem store_eq_ok {bytes bytes' : List Byte} {i : Nat} {b : Byte}
    (h : store bytes i b = .ok bytes') : i < bytes.length ∧ bytes' = bytes.set i b := by
  unfold store at h
  split at h
  · cases h
    exact ⟨by assumption, rfl⟩
  · cases h

theorem encodeObject_eq (h : array.Admitted) :
    encodeObject a array = (List.range (array.size * array.wordSize)).foldlM
      (fun bytes k => store bytes (unsigned k) (byteAt a array k))
      (List.replicate array.byteSize 0) := by
  obtain ⟨hrange, hpos, -⟩ := h.wordSize
  have hadmitted : 8 ≤ array.range ∧ array.range ≤ 64 := by
    rcases h with h | h | h | h
    all_goals omega
  unfold encodeObject
  rw [if_pos hadmitted, Except.foldlM_range_mul (fun (bytes : List Byte) offset j => store bytes
    (unsigned (offset * array.wordSize + j)) (byteOf (counterExample a array offset) j)) _ hpos]
  apply Except.foldlM_congr
  intro k _ acc
  rw [Nat.mul_comm, Nat.div_add_mod]
  rfl

/-- All bytes are written when their number is one of type `unsigned`. -/
theorem encodeObject_isOk (h : array.Admitted) (hsize : array.size * array.wordSize < 2 ^ 32) :
    ∃ bytes, encodeObject a array = .ok bytes ∧ Encodes a array bytes := by
  rw [encodeObject_eq h]
  have hloop := Except.foldlM_range_isOk (n := array.size * array.wordSize)
    (f := fun bytes k => store bytes (unsigned k) (byteAt a array k))
    (P := fun n bytes => bytes.length = array.size * array.wordSize ∧
      ∀ k < n, bytes[k]? = some (byteAt a array k))
    (b := List.replicate array.byteSize 0) ?_ ?_
  · exact hloop
  · refine ⟨?_, fun k hk => absurd hk (Nat.not_lt_zero k)⟩
    rw [List.length_replicate, Array.byteSize, unsigned_of_lt hsize]
  · rintro n hn bytes ⟨hlength, hbytes⟩
    refine ⟨bytes.set n (byteAt a array n), ?_, ?_, fun k hk => ?_⟩
    · rw [store, unsigned_of_lt (hn.trans hsize), if_pos (hlength ▸ hn)]
    · rw [List.length_set, hlength]
    · rw [List.getElem?_set]
      by_cases hkn : n = k
      · rw [if_pos hkn, if_pos (hlength ▸ hn), hkn]
      · rw [if_neg hkn]
        exact hbytes k (by omega)

/-- Otherwise the vector is too short. -/
theorem encodeObject_fails (h : array.Admitted) (hsize : 2 ^ 32 ≤ array.size * array.wordSize) :
    encodeObject a array ≠ .ok bytes := by
  rw [encodeObject_eq h]
  intro hok
  obtain ⟨-, hsteps⟩ := Except.foldlM_range_step
    (P := fun _ (bytes : List Byte) => bytes.length = array.byteSize)
    List.length_replicate (by
      intro k _ acc acc' hacc hstep
      obtain ⟨-, rfl⟩ := store_eq_ok hstep
      rw [List.length_set, hacc]) hok
  have hless : array.byteSize < 2 ^ 32 := Nat.mod_lt _ (by decide)
  obtain ⟨acc, acc', hacc, hstep⟩ := hsteps array.byteSize (hless.trans_le hsize)
  have hin := (store_eq_ok hstep).1
  rw [unsigned_of_lt hless, hacc] at hin
  exact Nat.lt_irrefl _ hin

theorem runAndGetCex_isOk (hadmitted : ∀ o ∈ objects, o.Admitted)
    (hsize : ∀ o ∈ objects, o.size * o.wordSize < 2 ^ 32) :
    ∃ values, runAndGetCex a objects = .ok values ∧
      List.Forall₂ (Encodes a) objects values := by
  unfold runAndGetCex
  induction objects with
  | nil => exact ⟨[], rfl, .nil⟩
  | cons o objects ih =>
      obtain ⟨bytes, hbytes, hencodes⟩ := encodeObject_isOk (a := a)
        (hadmitted o List.mem_cons_self) (hsize o List.mem_cons_self)
      obtain ⟨values, hvalues, hall⟩ := ih (fun o' ho => hadmitted o' (List.mem_cons_of_mem o ho))
        (fun o' ho => hsize o' (List.mem_cons_of_mem o ho))
      refine ⟨bytes :: values, ?_, .cons hencodes hall⟩
      rw [List.mapM_cons, hbytes, Except.ok_bind', hvalues]
      rfl

theorem runAndGetCex_sizes {values : List (List Byte)} (hadmitted : ∀ o ∈ objects, o.Admitted)
    (h : runAndGetCex a objects = .ok values) :
    ∀ o ∈ objects, o.size * o.wordSize < 2 ^ 32 := by
  unfold runAndGetCex at h
  induction objects generalizing values with
  | nil => simp
  | cons o objects ih =>
      rw [List.mapM_cons] at h
      obtain ⟨bytes, hbytes, h⟩ := Except.bind_eq_ok_iff.1 h
      obtain ⟨rest, hrest, -⟩ := Except.bind_eq_ok_iff.1 h
      intro o' ho
      rcases List.mem_cons.1 ho with rfl | ho
      · by_contra hsize
        exact encodeObject_fails (hadmitted o' List.mem_cons_self) (Nat.le_of_not_lt hsize) hbytes
      · exact ih (fun o'' ho'' => hadmitted o'' (List.mem_cons_of_mem o ho'')) hrest o' ho

/-! ## `runAndGetCexForked` -/

theorem pushObject_eq (h : array.Admitted) (c : Cursor) :
    pushObject a c array = (List.range (array.size * array.wordSize)).foldlM
      (fun c k => c.push (byteAt a array k)) c :=
  Except.foldlM_range_mul (fun (c : Cursor) offset j =>
    c.push (byteOf (counterExample a array offset) j)) _ h.wordSize.2.1 c

/-- The bytes of an array behind `pos`, and what is before it stays. -/
structure Pushed (a : Assignment) (array : Array) (c : Cursor) (n : Nat) (c' : Cursor) : Prop where
  pos : c'.pos = c.pos + n
  length : c'.memory.length = c.memory.length
  bytes : ∀ k < n, c'.memory[c.pos + k]? = some (byteAt a array k)
  before : ∀ i < c.pos, c'.memory[i]? = c.memory[i]?

theorem Pushed.push {c c' : Cursor} {n : Nat} (h : Pushed a array c n c')
    (hin : c.pos + n < c.memory.length) :
    ∃ c'', c'.push (byteAt a array n) = .ok c'' ∧ Pushed a array c (n + 1) c'' := by
  have hin' : c'.pos < c'.memory.length := by
    rw [h.pos, h.length]
    exact hin
  refine ⟨_, if_pos hin', ?_, ?_, fun k hk => ?_, fun i hi => ?_⟩
  · simp only [h.pos, Nat.add_assoc]
  · simp only [List.length_set, h.length]
  · rw [List.getElem?_set]
    by_cases hkn : k = n
    · rw [if_pos (by rw [h.pos, hkn]), if_pos hin', hkn]
    · rw [if_neg (by rw [h.pos]; omega)]
      exact h.bytes k (by omega)
  · rw [List.getElem?_set, if_neg (by rw [h.pos]; omega)]
    exact h.before i hi

theorem pushObject_isOk (h : array.Admitted) {c : Cursor}
    (hin : c.pos + array.size * array.wordSize ≤ c.memory.length) :
    ∃ c', pushObject a c array = .ok c' ∧ Pushed a array c (array.size * array.wordSize) c' := by
  rw [pushObject_eq h]
  apply Except.foldlM_range_isOk (P := Pushed a array c)
  · exact ⟨rfl, rfl, fun k hk => absurd hk (Nat.not_lt_zero k), fun i _ => rfl⟩
  · intro k hk c' hc'
    exact hc'.push (by omega)

/-- Nothing is written behind the end. -/
theorem pushObject_pos (h : array.Admitted) {c c' : Cursor} (hin : c.pos ≤ c.memory.length)
    (hok : pushObject a c array = .ok c') :
    c'.pos = c.pos + array.size * array.wordSize ∧ c'.pos ≤ c'.memory.length ∧
      c'.memory.length = c.memory.length := by
  rw [pushObject_eq h] at hok
  have hloop := (Except.foldlM_range_step
    (P := fun n (c' : Cursor) => c'.pos = c.pos + n ∧ c'.pos ≤ c'.memory.length ∧
      c'.memory.length = c.memory.length) ⟨rfl, hin, rfl⟩ ?_ hok).1
  · exact hloop
  · rintro k - c₁ c₂ ⟨hpos, -, hlength⟩ hstep
    unfold Cursor.push at hstep
    split at hstep
    · cases hstep
      simp only [List.length_set]
      omega
    · cases hstep

/-- The number of bytes of all objects. -/
def totalBytes (objects : List Array) : Nat :=
  (objects.map fun o => o.size * o.wordSize).sum

theorem splitValues_pushed {memory : List Byte} (pos : Nat)
    (hadmitted : ∀ o ∈ objects, o.Admitted) (hin : pos + totalBytes objects ≤ memory.length)
    (hsmall : memory.length < 2 ^ 32) :
    ∃ c, objects.foldlM (pushObject a) ⟨memory, pos⟩ = .ok c ∧
      c.memory.length = memory.length ∧ (∀ i < pos, c.memory[i]? = memory[i]?) ∧
      List.Forall₂ (Encodes a) objects (splitValues c.memory pos objects) := by
  induction objects generalizing memory pos with
  | nil => exact ⟨⟨memory, pos⟩, rfl, rfl, fun i _ => rfl, .nil⟩
  | cons o objects ih =>
      have htotal : totalBytes (o :: objects) = o.size * o.wordSize + totalBytes objects := by
        simp [totalBytes]
      have hbyteSize : o.byteSize = o.size * o.wordSize := unsigned_of_lt (by omega)
      obtain ⟨c₁, hpush, hpushed⟩ := pushObject_isOk (a := a) (c := ⟨memory, pos⟩)
        (hadmitted o List.mem_cons_self) (by dsimp only; omega)
      have hroom : c₁.pos + totalBytes objects ≤ c₁.memory.length := by
        rw [hpushed.pos, hpushed.length]
        dsimp only
        omega
      obtain ⟨c, hrest, hlength, hbefore, hall⟩ := ih c₁.pos
        (fun o' ho => hadmitted o' (List.mem_cons_of_mem o ho)) hroom (by rwa [hpushed.length])
      have hpos : c₁.pos = pos + o.size * o.wordSize := hpushed.pos
      have hlength' : c.memory.length = memory.length := hlength.trans hpushed.length
      refine ⟨c, ?_, hlength', fun i hi => ?_, .cons ⟨?_, fun k hk => ?_⟩ ?_⟩
      · rw [List.foldlM_cons, hpush, Except.ok_bind']
        exact hrest
      · exact (hbefore i (by omega)).trans (hpushed.before i hi)
      · rw [List.length_take, List.length_drop, hbyteSize]
        omega
      · rw [List.getElem?_take, if_pos (by omega), List.getElem?_drop, hbefore _ (by omega)]
        exact hpushed.bytes k hk
      · rw [hbyteSize, ← hpos]
        exact hall

theorem pushObjects_total {c c' : Cursor} (hadmitted : ∀ o ∈ objects, o.Admitted)
    (hin : c.pos ≤ c.memory.length) (h : objects.foldlM (pushObject a) c = .ok c') :
    c.pos + totalBytes objects ≤ c.memory.length := by
  induction objects generalizing c with
  | nil => exact hin
  | cons o objects ih =>
      rw [List.foldlM_cons] at h
      obtain ⟨c₁, hpush, hrest⟩ := Except.bind_eq_ok_iff.1 h
      obtain ⟨hpos, hin₁, hlength⟩ := pushObject_pos (hadmitted o List.mem_cons_self) hin hpush
      have htotal := ih (fun o' ho => hadmitted o' (List.mem_cons_of_mem o ho)) hin₁ hrest
      simp only [totalBytes, List.map_cons, List.sum_cons] at htotal ⊢
      omega

theorem sum_size_le (hadmitted : ∀ o ∈ objects, o.Admitted) :
    (objects.map Array.size).sum ≤ totalBytes objects := by
  apply List.sum_le_sum
  intro o ho
  exact Nat.le_mul_of_pos_right _ (hadmitted o ho).wordSize.2.1

/-- The shared memory has room for the bytes of all objects, and for one byte more than
there are elements. -/
def Fits (memory : List Byte) (objects : List Array) : Prop :=
  (objects.map Array.size).sum < memory.length ∧ totalBytes objects ≤ memory.length

theorem Fits.le_totalBytes {memory : List Byte} (h : Fits memory objects)
    (harray : array ∈ objects) : array.size * array.wordSize ≤ memory.length := by
  refine le_trans ?_ h.2
  exact List.single_le_sum (fun n _ => Nat.zero_le n) _ (List.mem_map.2 ⟨array, harray, rfl⟩)

theorem runAndGetCexForked_isOk {memory : List Byte} (hsmall : memory.length < 2 ^ 32)
    (hadmitted : ∀ o ∈ objects, o.Admitted) (hfits : Fits memory objects) :
    ∃ values, runAndGetCexForked memory a objects = .ok values ∧
      List.Forall₂ (Encodes a) objects values := by
  obtain ⟨c, hpush, -, -, hall⟩ := splitValues_pushed (a := a) 0 hadmitted
    (by rw [Nat.zero_add]; exact hfits.2) hsmall
  refine ⟨_, ?_, hall⟩
  unfold runAndGetCexForked
  rw [unsigned_of_lt (hfits.1.trans hsmall), if_neg (Nat.not_le_of_lt hfits.1), hpush]
  rfl

theorem runAndGetCexForked_fits {memory : List Byte} {values : List (List Byte)}
    (hsmall : memory.length < 2 ^ 32) (hadmitted : ∀ o ∈ objects, o.Admitted)
    (h : runAndGetCexForked memory a objects = .ok values) : Fits memory objects := by
  unfold runAndGetCexForked at h
  dsimp only at h
  split at h
  · cases h
  · rename_i hsum
    obtain ⟨c, hpush, -⟩ := Except.bind_eq_ok_iff.1 h
    have htotal := pushObjects_total hadmitted (Nat.zero_le _) hpush
    simp only [Nat.zero_add] at htotal
    have hle := sum_size_le hadmitted
    rw [unsigned_of_lt (by omega)] at hsum
    exact ⟨Nat.lt_of_not_le hsum, htotal⟩

/-! ## `evaluate` -/

namespace ByteAssignment

theorem getLsbD_byteOf (value : BitVec 64) (j : Nat) {i : Nat} (hi : i < 8) :
    (byteOf value j).getLsbD i = value.getLsbD (8 * j + i) := by
  have hmask : ∀ i < 8, (0xFF : BitVec 64).getLsbD i = true := by decide
  rw [byteOf, BitVec.getLsbD_setWidth, BitVec.getLsbD_and, BitVec.getLsbD_ushiftRight, hmask i hi]
  simp [hi]

theorem shiftByte_spec (b : Byte) {k : Nat} (hk : 8 * k < 32) :
    ∃ value, shiftByte b k = .ok value ∧
      ∀ i < 32, value.getLsbD i = (decide (8 * k ≤ i) && b.getLsbD (i - 8 * k)) := by
  refine ⟨_, if_pos hk, fun i hi => ?_⟩
  rw [BitVec.getLsbD_signExtend, if_pos hi, BitVec.getLsbD_shiftLeft, BitVec.getLsbD_setWidth]
  by_cases hle : 8 * k ≤ i
  · simp [hi, hle, show i < 64 by omega, show i - 8 * k < 32 by omega]
  · simp [hle, show i < 8 * k by omega]

variable {index i : Nat}

/-- Where the bytes of an element are looked for. -/
theorem unsigned_add (hp : unsigned (index * array.wordSize) = i * array.wordSize)
    (hsize : array.size * array.wordSize ≤ 2 ^ 32) (hi : i < array.size) {k : Nat}
    (hk : k < array.wordSize) :
    unsigned (index * array.wordSize + k) = i * array.wordSize + k := by
  have hlt := add_lt_mul_size hi hk
  unfold unsigned at hp ⊢
  omega

/-- The bits of the first bytes of an element. -/
structure Combined (a : Assignment) (array : Array) (i n : Nat) (value : BitVec 64) : Prop where
  bits : ∀ bit < 32, value.getLsbD bit =
    (decide (bit / 8 < n) && (counterExample a array i).getLsbD bit)

theorem combineByte_spec (helement : HasElement a array i bytes)
    (hp : unsigned (index * array.wordSize) = i * array.wordSize)
    (hsize : array.size * array.wordSize ≤ 2 ^ 32) (hi : i < array.size) {k : Nat}
    (hk : k < array.wordSize) (hshift : 8 * k < 32) {value : BitVec 64}
    (hvalue : Combined a array i k value) :
    ∃ value', combineByte bytes array index value k = .ok value' ∧
      Combined a array i (k + 1) value' := by
  obtain ⟨shifted, hok, hbits⟩ := shiftByte_spec (byteOf (counterExample a array i) k) hshift
  refine ⟨value ||| shifted, ?_, ⟨fun bit hbit => ?_⟩⟩
  · rw [combineByte, unsigned_add hp hsize hi hk, helement k hk]
    simp only [hok, Except.ok_bind']
    rfl
  · rw [BitVec.getLsbD_or, hvalue.bits bit hbit, hbits bit hbit]
    by_cases hlt : bit / 8 < k
    · have hnle : ¬ 8 * k ≤ bit := by omega
      simp [hlt, hnle, show bit / 8 < k + 1 by omega]
    · by_cases heq : bit / 8 = k
      · rw [getLsbD_byteOf _ _ (show bit - 8 * k < 8 by omega),
          show 8 * k + (bit - 8 * k) = bit by omega]
        simp [heq, show 8 * k ≤ bit by omega]
      · have hbyte : (byteOf (counterExample a array i) k).getLsbD (bit - 8 * k) = false :=
          BitVec.getLsbD_of_ge _ _ (by omega)
        simp [hlt, hbyte, show ¬ bit / 8 < k + 1 by omega]

/-- An element of at most 32 bits is put together. -/
theorem combine_isOk (h : array.Admitted) (hrange : array.range ≤ 32)
    (helement : HasElement a array i bytes)
    (hp : unsigned (index * array.wordSize) = i * array.wordSize)
    (hsize : array.size * array.wordSize ≤ 2 ^ 32) (hi : i < array.size) :
    ∃ value, (List.range array.wordSize).foldlM (combineByte bytes array index) 0 = .ok value ∧
      value.setWidth array.range = a (array, i) := by
  obtain ⟨hwidth, -, -⟩ := h.wordSize
  obtain ⟨value, hfold, hvalue⟩ := Except.foldlM_range_isOk (n := array.wordSize)
    (f := combineByte bytes array index) (P := Combined a array i) (b := 0)
    ⟨fun bit _ => by simp⟩ fun k hk value hvalue =>
      combineByte_spec helement hp hsize hi hk (by omega) hvalue
  refine ⟨value, hfold, BitVec.eq_of_getLsbD_eq fun bit hbit => ?_⟩
  rw [BitVec.getLsbD_setWidth, hvalue.bits bit (by omega), counterExample,
    BitVec.getLsbD_setWidth]
  simp [hbit, show bit / 8 < array.wordSize by omega, show bit < 64 by omega]

/-- The bytes of an element of 64 bits are not put together. -/
theorem combine_fails (hrange : array.range = 64) (value : BitVec 64) :
    (List.range array.wordSize).foldlM (combineByte bytes array index) 0 ≠ .ok value := by
  intro hok
  have hsize : array.wordSize = 8 := by
    rw [Array.wordSize, hrange]
  obtain ⟨-, hsteps⟩ := Except.foldlM_range_step (P := fun _ _ => True) trivial
    (fun _ _ _ _ _ _ => trivial) hok
  obtain ⟨acc, acc', -, hstep⟩ := hsteps 4 (by rw [hsize]; decide)
  unfold combineByte at hstep
  split at hstep
  · cases hstep
  · cases hstep

/-- Bytes behind the last element are not there. -/
theorem combine_outOfBounds (h : array.Admitted)
    (hlength : bytes.length ≤ unsigned (index * array.wordSize)) :
    (List.range array.wordSize).foldlM (combineByte bytes array index) 0 =
      .error .outOfBounds := by
  obtain ⟨n, hn⟩ := Nat.exists_eq_succ_of_ne_zero (Nat.ne_of_gt h.wordSize.2.1)
  rw [hn, Nat.succ_eq_add_one, List.range_succ_eq_map, List.foldlM_cons]
  have hstep : combineByte bytes array index 0 0 = .error .outOfBounds := by
    rw [combineByte, Nat.add_zero, List.getElem?_eq_none hlength]
  rw [hstep]
  rfl

/-- What a read of an element should give. -/
def expected (a : Assignment) (allowFreeValues : Bool) (array : Array) (index : Nat) :
    Option (BitVec array.range) :=
  if index < array.size then some (a (array, index))
  else if allowFreeValues then none else some 0

/-- When it does. Beyond the elements, but not beyond the bytes, this is only by chance: the
position is reduced to one of a zero. -/
def ReadsBack (a : Assignment) (allowFreeValues : Bool) (array : Array) (index : Nat) : Prop :=
  if index < array.size then array.range ≤ 32
  else array.size * array.wordSize ≤ index ∨
    allowFreeValues = false ∧ array.range ≤ 32 ∧ ∃ i < array.size,
      unsigned (index * array.wordSize) = i * array.wordSize ∧ a (array, i) = 0

theorem unsigned_mul (h : array.Admitted) (index : Nat) :
    ∃ i, unsigned (index * array.wordSize) = i * array.wordSize := by
  have hdvd : array.wordSize ∣ unsigned (index * array.wordSize) :=
    (Nat.dvd_mod_iff h.wordSize.2.2).2 (Nat.dvd_mul_left _ _)
  obtain ⟨i, hi⟩ := hdvd
  exact ⟨i, hi.trans (Nat.mul_comm _ _)⟩

variable {m : ByteAssignment}

theorem evaluate_of_lt (hlookup : m.bindings.lookup array = some bytes)
    (hlt : index < bytes.length) : m.evaluate array index =
      ((List.range array.wordSize).foldlM (combineByte bytes array index) 0).map fun value =>
        some (value.setWidth array.range) := by
  rw [evaluate, hlookup]
  simp only [if_pos hlt]
  exact bind_pure_comp _ _

theorem evaluate_of_le (hlookup : m.bindings.lookup array = some bytes)
    (hle : bytes.length ≤ index) : m.evaluate array index = .ok (m.unbound array) := by
  rw [evaluate, hlookup]
  simp only [if_neg (Nat.not_lt_of_le hle)]

theorem evaluate_element (h : array.Admitted) (hsize : array.size * array.wordSize < 2 ^ 32)
    (hlookup : m.bindings.lookup array = some bytes) (helement : HasElement a array i bytes)
    (hlt : index < bytes.length) (hrange : array.range ≤ 32)
    (hi : i < array.size) (hp : unsigned (index * array.wordSize) = i * array.wordSize) :
    m.evaluate array index = .ok (some (a (array, i))) := by
  obtain ⟨value, hfold, hvalue⟩ := combine_isOk h hrange helement hp (Nat.le_of_lt hsize) hi
  rw [evaluate_of_lt hlookup hlt, hfold]
  exact congrArg (fun v => Except.ok (some v)) hvalue

theorem evaluate_fails (h : array.Admitted)
    (hlookup : m.bindings.lookup array = some bytes) (henc : Encodes a array bytes)
    (hlt : index < array.size * array.wordSize)
    (hnot : ¬ (array.range ≤ 32 ∧
      ∃ i < array.size, unsigned (index * array.wordSize) = i * array.wordSize))
    (r : Option (BitVec array.range)) : m.evaluate array index ≠ .ok r := by
  rw [evaluate_of_lt hlookup (henc.1 ▸ hlt)]
  intro hok
  obtain ⟨value, hfold, -⟩ := Except.map_eq_ok_iff.1 hok
  by_cases hrange : array.range ≤ 32
  · obtain ⟨i, hi⟩ := unsigned_mul h index
    have hbehind : array.size ≤ i := by
      by_contra hless
      exact hnot ⟨hrange, i, Nat.lt_of_not_le hless, hi⟩
    rw [combine_outOfBounds h (by rw [hi, henc.1]; exact Nat.mul_le_mul_right _ hbehind)] at hfold
    cases hfold
  · have hwide : array.range = 64 := by
      rcases h with h | h | h | h
      all_goals omega
    exact combine_fails hwide value hfold

theorem evaluate_eq_expected_iff (h : array.Admitted)
    (hsize : array.size * array.wordSize < 2 ^ 32)
    (hlookup : m.bindings.lookup array = some bytes) (henc : Encodes a array bytes) :
    m.evaluate array index = .ok (expected a m.allowFreeValues array index) ↔
      ReadsBack a m.allowFreeValues array index := by
  have hpos := h.wordSize.2.1
  by_cases hlt : index < array.size * array.wordSize
  · by_cases hin : array.range ≤ 32 ∧
        ∃ i < array.size, unsigned (index * array.wordSize) = i * array.wordSize
    · obtain ⟨hrange, i, hi, hp⟩ := hin
      rw [evaluate_element h hsize hlookup (henc.hasElement hi) (henc.1 ▸ hlt) hrange hi hp, expected,
        ReadsBack]
      by_cases hindex : index < array.size
      · have hnext := Nat.mul_lt_mul_of_pos_right hindex hpos
        rw [unsigned_of_lt (hnext.trans hsize)] at hp
        have heq : index = i := Nat.eq_of_mul_eq_mul_right hpos hp
        subst heq
        simp [hindex, hrange]
      · have hunique : ∀ j, unsigned (index * array.wordSize) = j * array.wordSize → j = i :=
          fun j hj => Nat.eq_of_mul_eq_mul_right hpos (hj.symm.trans hp)
        rw [if_neg hindex, if_neg hindex]
        constructor
        · intro hok
          cases hfree : m.allowFreeValues with
          | true => simp [hfree] at hok
          | false =>
              right
              simp only [hfree, Bool.false_eq_true, if_false, Except.ok.injEq,
                Option.some.injEq] at hok
              exact ⟨rfl, hrange, i, hi, hp, hok⟩
        · rintro (hle | ⟨hfree, -, j, -, hj, hzero⟩)
          · omega
          · rw [← hunique j hj, hzero, hfree]
            rfl
    · refine iff_of_false (evaluate_fails h hlookup henc hlt hin _) fun hreads => hin ?_
      unfold ReadsBack at hreads
      split at hreads
      · rename_i hindex
        have hnext := Nat.mul_lt_mul_of_pos_right hindex hpos
        exact ⟨hreads, index, hindex, unsigned_of_lt (hnext.trans hsize)⟩
      · rcases hreads with hle | ⟨-, hrange, i, hi, hp, -⟩
        · omega
        · exact ⟨hrange, i, hi, hp⟩
  · have hle := Nat.le_of_not_lt hlt
    have hindex : ¬ index < array.size := by
      have hmul := Nat.le_mul_of_pos_right array.size hpos
      omega
    rw [evaluate_of_le hlookup (henc.1 ▸ hle), expected, ReadsBack, if_neg hindex, if_neg hindex]
    exact iff_of_true rfl (.inl hle)

theorem lookup_zip {values : List (List Byte)} (hall : List.Forall₂ (Encodes a) objects values)
    (harray : array ∈ objects) :
    ∃ bytes, (objects.zip values).lookup array = some bytes ∧ Encodes a array bytes := by
  induction hall with
  | nil => cases harray
  | @cons o bytes objects values henc _ ih =>
      by_cases heq : array = o
      · subst heq
        exact ⟨bytes, by simp, henc⟩
      · obtain ⟨bytes', hlookup, henc'⟩ := ih ((List.mem_cons.1 harray).resolve_left heq)
        refine ⟨bytes', ?_, henc'⟩
        have hne : (array == o) = false := by simpa using heq
        rw [List.zip_cons_cons, List.lookup_cons, hne]
        exact hlookup

end ByteAssignment

open ByteAssignment

/-- A read of an element in the vectors that the solver returned. -/
def readBack (values : Except Fault (List (List Byte))) (objects : List Array)
    (allowFreeValues : Bool) (array : Array) (index : Nat) :
    Except Fault (Option (BitVec array.range)) := do
  (ofValues objects (← values) allowFreeValues).evaluate array index

theorem readBack_iff {values : List (List Byte)} (hadmitted : array.Admitted)
    (hsize : array.size * array.wordSize < 2 ^ 32)
    (hall : List.Forall₂ (Encodes a) objects values) (harray : array ∈ objects)
    (allowFreeValues : Bool) (index : Nat) :
    readBack (.ok values) objects allowFreeValues array index =
        .ok (expected a allowFreeValues array index) ↔ ReadsBack a allowFreeValues array index := by
  obtain ⟨bytes, hlookup, henc⟩ := lookup_zip hall harray
  exact evaluate_eq_expected_iff (m := ofValues objects values allowFreeValues) hadmitted hsize
    hlookup henc

theorem readBack_eq_ok {values : Except Fault (List (List Byte))} {allowFreeValues : Bool}
    {index : Nat} {r : Option (BitVec array.range)}
    (h : readBack values objects allowFreeValues array index = .ok r) :
    ∃ vs, values = .ok vs :=
  (Except.bind_eq_ok_iff.1 h).imp fun _ => And.left

/-- The element values come back when they have at most 32 bits and their bytes have room;
an index beyond the elements must be beyond the bytes too. -/
theorem element_bytes_roundTrip_iff (a : Assignment) (objects : List Array)
    (hadmitted : ∀ o ∈ objects, o.Admitted) (array : Array) (harray : array ∈ objects)
    (index : Nat) (allowFreeValues : Bool) :
    (readBack (runAndGetCex a objects) objects allowFreeValues array index =
        .ok (expected a allowFreeValues array index) ↔
      (∀ o ∈ objects, o.size * o.wordSize < 2 ^ 32) ∧ ReadsBack a allowFreeValues array index) ∧
    ∀ memory : List Byte, memory.length < 2 ^ 32 →
      (readBack (runAndGetCexForked memory a objects) objects allowFreeValues array index =
          .ok (expected a allowFreeValues array index) ↔
        Fits memory objects ∧ ReadsBack a allowFreeValues array index) := by
  have harray' := hadmitted array harray
  refine ⟨⟨fun h => ?_, ?_⟩, fun memory hsmall => ⟨fun h => ?_, ?_⟩⟩
  · obtain ⟨values, hvalues⟩ := readBack_eq_ok h
    have hsize := runAndGetCex_sizes hadmitted hvalues
    obtain ⟨values', hvalues', hall⟩ := runAndGetCex_isOk (a := a) hadmitted hsize
    rw [hvalues'] at h
    exact ⟨hsize, (readBack_iff harray' (hsize array harray) hall harray _ _).1 h⟩
  · rintro ⟨hsize, hreads⟩
    obtain ⟨values, hvalues, hall⟩ := runAndGetCex_isOk (a := a) hadmitted hsize
    rw [hvalues]
    exact (readBack_iff harray' (hsize array harray) hall harray _ _).2 hreads
  · obtain ⟨values, hvalues⟩ := readBack_eq_ok h
    have hfits := runAndGetCexForked_fits hsmall hadmitted hvalues
    obtain ⟨values', hvalues', hall⟩ := runAndGetCexForked_isOk (a := a) hsmall hadmitted hfits
    rw [hvalues'] at h
    have hsize := (hfits.le_totalBytes harray).trans_lt hsmall
    exact ⟨hfits, (readBack_iff harray' hsize hall harray _ _).1 h⟩
  · rintro ⟨hfits, hreads⟩
    obtain ⟨values, hvalues, hall⟩ := runAndGetCexForked_isOk (a := a) hsmall hadmitted hfits
    rw [hvalues]
    have hsize := (hfits.le_totalBytes harray).trans_lt hsmall
    exact (readBack_iff harray' hsize hall harray _ _).2 hreads

/-- An array of words, and one of 64 bits. -/
def oneWord : Array := ⟨0, "N", 1, 16, []⟩

def oneLong : Array := ⟨1, "M", 1, 64, []⟩

theorem oneWord_outOfBounds :
    readBack (runAndGetCex (fun _ => 0) [oneWord]) [oneWord] false oneWord 1 =
      .error .outOfBounds ∧
    readBack (runAndGetCexForked (List.replicate 64 0) (fun _ => 0) [oneWord]) [oneWord] false
      oneWord 1 = .error .outOfBounds ∧
    expected (fun _ => 0) false oneWord 1 = some 0 ∧
    readBack (runAndGetCex (fun _ => 0) [oneLong]) [oneLong] false oneLong 0 =
      .error .shiftTooWide ∧
    expected (fun _ => 0) false oneLong 0 = some 0 :=
  ⟨rfl, rfl, rfl, rfl, rfl⟩

/-- Three words behind the one. -/
def threeWords : Array := ⟨2, "B", 3, 16, []⟩

theorem threeWords_roundTrip :
    let a : Assignment := fun p => if p.2 = 2 then 0x8001 else 5
    let objects := [oneWord, threeWords]
    readBack (runAndGetCex a objects) objects true threeWords 2 = .ok (some 0x8001) ∧
    readBack (runAndGetCexForked (List.replicate 64 0) a objects) objects false threeWords 2 =
      .ok (some 0x8001) := by
  intro a objects
  have hadmitted : ∀ o ∈ objects, o.Admitted := by
    intro o ho
    simp only [objects, List.mem_cons, List.not_mem_nil, or_false] at ho
    rcases ho with rfl | rfl <;> exact .inr (.inl rfl)
  have hmem : threeWords ∈ objects := by simp [objects]
  have hreads : ∀ allowFreeValues, ReadsBack a allowFreeValues threeWords 2 := by
    intro allowFreeValues
    unfold ReadsBack
    rw [if_pos (by decide)]
    decide
  constructor
  · refine (element_bytes_roundTrip_iff a objects hadmitted threeWords hmem 2 true).1.2
      ⟨fun o ho => ?_, hreads true⟩
    simp only [objects, List.mem_cons, List.not_mem_nil, or_false] at ho
    rcases ho with rfl | rfl <;> decide
  · exact ((element_bytes_roundTrip_iff a objects hadmitted threeWords hmem 2 false).2
      (List.replicate 64 0) (by decide)).2 ⟨by unfold Fits; decide, hreads false⟩

end Klc3.Klee
