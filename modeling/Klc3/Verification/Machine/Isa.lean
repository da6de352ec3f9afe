import Klc3.Machine.Isa
import Klc3.Verification.Machine.Instructions

/-!
# The concrete machine is an LC-3

A step of the concrete machine after which it is still running is a step of the LC-3
on the words it holds, with 0 for everything uninitialized.
-/

namespace Klc3

/-! ## Decoding -/

namespace Lc3

theorem regField_eq (w : Word) (lsb : Nat) : InstValue.regField (w >>> lsb) = regAt w lsb := by
  apply Fin.ext
  have h7 : ∀ x : Nat, x &&& 7 = x % 8 := fun x => Nat.and_two_pow_sub_one_eq_mod x 3
  simp [InstValue.regField, regAt, h7]

theorem getLsbD_offset (ir : Word) {width j : Nat} (hwidth : 0 < width) (hj : j < 16) :
    (offset ir width).getLsbD j = ir.getLsbD (min j (width - 1)) := by
  have hlast : (ir.extractLsb' 0 width).msb = ir.getLsbD (width - 1) := by
    have hlt : width - 1 < width := by omega
    simp [BitVec.msb_eq_getLsbD_last, hlt]
  rw [offset, BitVec.getLsbD_signExtend, hlast]
  rcases Nat.lt_or_ge j width with hlt | hge
  · have hmin : min j (width - 1) = j := by omega
    simp [hj, hlt, hmin]
  · have hmin : min j (width - 1) = width - 1 := by omega
    simp [hj, hmin, Nat.not_lt.2 hge]

/-- A word of zeros except for the bit `k` tests that bit. -/
theorem and_bit_eq_zero_iff (ir : Word) {k : Nat} (hk : k < 16) :
    ir &&& BitVec.twoPow 16 k = 0 ↔ ir.getLsbD k = false := by
  rw [BitVec.and_twoPow]
  cases hbit : ir.getLsbD k with
  | false => simp
  | true =>
      simp only [if_true, Bool.true_eq_false, iff_false]
      intro heq
      have := congrArg (BitVec.getLsbD · k) heq
      simp [hk] at this

/-- Filling up with the bit `k` by masks is a sign extension. -/
theorem signExtend_by_masks (ir : Word) {k : Nat} {low : Word} (hk : k < 16)
    (hlow : ∀ j < 16, j ≠ k → low.getLsbD j = decide (j < k)) :
    (if ir &&& BitVec.twoPow 16 k = 0 then ir &&& low else ir ||| ~~~low) = offset ir (k + 1) := by
  apply BitVec.eq_of_getLsbD_eq
  intro j hj
  rw [getLsbD_offset ir (Nat.succ_pos k) hj, Nat.succ_sub_one]
  have hmin : j ≤ k ∧ min j k = j ∨ k < j ∧ min j k = k := by omega
  split
  · rename_i hbit
    rw [and_bit_eq_zero_iff ir hk] at hbit
    rw [BitVec.getLsbD_and]
    rcases hmin with ⟨hle, hmin⟩ | ⟨hlt, hmin⟩
    · rw [hmin]
      by_cases hjk : j = k
      · simp [hjk, hbit]
      · rw [hlow j hj hjk]
        simp [show j < k by omega]
    · rw [hmin, hlow j hj (by omega), hbit]
      simp [show ¬ j < k by omega]
  · rename_i hbit
    rw [and_bit_eq_zero_iff ir hk, Bool.not_eq_false] at hbit
    rw [BitVec.getLsbD_or, BitVec.getLsbD_not]
    rcases hmin with ⟨hle, hmin⟩ | ⟨hlt, hmin⟩
    · rw [hmin]
      by_cases hjk : j = k
      · simp [hjk, hbit]
      · rw [hlow j hj hjk]
        simp [show j < k by omega]
    · rw [hmin, hlow j hj (by omega), hbit]
      simp [hj, show ¬ j < k by omega]

theorem opcode_eq {ir mask m : Word} (hm : mask &&& 0xF000 = 0xF000) (h : ir &&& mask = m) :
    ir.extractLsb' 12 4 = m.extractLsb' 12 4 := by
  have hand : ∀ w : Word, w.extractLsb' 12 4 = (w &&& 0xF000).extractLsb' 12 4 := by
    intro w
    rw [BitVec.extractLsb'_and]
    have : (0xF000 : Word).extractLsb' 12 4 = BitVec.allOnes 4 := rfl
    rw [this, BitVec.and_allOnes]
  rw [hand ir, hand m, ← h, BitVec.and_assoc, hm]

theorem bit_eq {ir mask m : Word} {k : Nat} (hm : mask.getLsbD k = true) (h : ir &&& mask = m) :
    ir.getLsbD k = m.getLsbD k := by
  rw [← h, BitVec.getLsbD_and, hm, Bool.and_true]
end Lc3

namespace InstValue

variable (i : InstValue)

theorem dr_eq : i.dr = Lc3.regAt i.ir 9 := Lc3.regField_eq i.ir 9

theorem sr1_eq : i.sr1 = Lc3.regAt i.ir 6 := Lc3.regField_eq i.ir 6

theorem sr2_eq : i.sr2 = Lc3.regAt i.ir 0 := by
  simpa [sr2] using Lc3.regField_eq i.ir 0

theorem imm5_eq : i.imm5 = Lc3.offset i.ir 5 :=
  Lc3.signExtend_by_masks (k := 4) i.ir (by decide) (by decide)

theorem imm6_eq : i.imm6 = Lc3.offset i.ir 6 :=
  Lc3.signExtend_by_masks (k := 5) i.ir (by decide) (by decide)

theorem imm9_eq : i.imm9 = Lc3.offset i.ir 9 :=
  Lc3.signExtend_by_masks (k := 8) i.ir (by decide) (by decide)

theorem imm11_eq : i.imm11 = Lc3.offset i.ir 11 :=
  Lc3.signExtend_by_masks (k := 10) i.ir (by decide) (by decide)

theorem vec8_eq : i.vec8 = (i.ir.extractLsb' 0 8).setWidth 16 := by
  apply BitVec.eq_of_toNat_eq
  have h255 : ∀ x : Nat, x &&& 255 = x % 256 := fun x => Nat.and_two_pow_sub_one_eq_mod x 8
  have hlt : i.ir.toNat % 256 < 65536 := by omega
  simp [vec8, h255, Nat.mod_eq_of_lt hlt]

/-- The opcode of the instructions that klc3 executes. -/
def opcodeOf : InstID → Nat
  | .BR => 0
  | .ADD | .ADDi => 1
  | .LD => 2
  | .ST => 3
  | .JSR | .JSRR => 4
  | .AND | .ANDi => 5
  | .LDR => 6
  | .STR => 7
  | .RTI => 8
  | .NOT => 9
  | .LDI => 10
  | .STI => 11
  | .JMP => 12
  | .LEA => 14
  | .TRAP => 15

theorem table_mem : i.instDef ∈ instDefs ∧ i.ir &&& i.instDef.mask = i.instDef.match_ :=
  ⟨List.mem_of_find?_eq_some i.matched, by simpa using List.find?_some i.matched⟩

/-- Except for `RTI`, which stands for everything that is not supported, the table
fixes the opcode. -/
theorem opcode_eq (h : i.instID ≠ .RTI) :
    (i.ir.extractLsb' 12 4).toNat = opcodeOf i.instID := by
  have htable : ∀ d ∈ instDefs, d.id ≠ .RTI →
      d.mask &&& 0xF000 = 0xF000 ∧ (d.match_.extractLsb' 12 4).toNat = opcodeOf d.id := by decide
  obtain ⟨hmem, hmatch⟩ := i.table_mem
  obtain ⟨hmask, hop⟩ := htable _ hmem h
  rw [Lc3.opcode_eq hmask hmatch, hop]
  rfl

/-- Bit 5 tells an immediate operand from a register. -/
theorem immediate_iff (h : i.instID = .ADD ∨ i.instID = .ADDi ∨ i.instID = .AND ∨ i.instID = .ANDi) :
    i.ir.getLsbD 5 = !decide (i.instDef.format = .RRR) := by
  have htable : ∀ d ∈ instDefs, d.id = .ADD ∨ d.id = .ADDi ∨ d.id = .AND ∨ d.id = .ANDi →
      d.mask.getLsbD 5 = true ∧ d.match_.getLsbD 5 = !decide (d.format = .RRR) := by decide
  obtain ⟨hmem, hmatch⟩ := i.table_mem
  obtain ⟨hmask, hbit⟩ := htable _ hmem h
  rw [Lc3.bit_eq hmask hmatch, hbit]

/-- Bit 11 tells `JSR` from `JSRR`. -/
theorem jsr_iff (h : i.instID = .JSR ∨ i.instID = .JSRR) :
    i.ir.getLsbD 11 = decide (i.instID = .JSR) := by
  have htable : ∀ d ∈ instDefs, d.id = .JSR ∨ d.id = .JSRR →
      d.mask.getLsbD 11 = true ∧ d.match_.getLsbD 11 = decide (d.id = .JSR) := by decide
  obtain ⟨hmem, hmatch⟩ := i.table_mem
  obtain ⟨hmask, hbit⟩ := htable _ hmem h
  rw [Lc3.bit_eq hmask hmatch, hbit]
  rfl

/-- The condition codes of an instruction select the same signs. -/
theorem taken_eq (value : Word) : Lc3.taken i.ir value = Machine.ccHolds i.cc value := by
  have hbit : ∀ k < 3, (i.cc &&& BitVec.twoPow 16 k = 0) ↔ i.ir.getLsbD (9 + k) = false := by
    intro k hk
    rw [Lc3.and_bit_eq_zero_iff _ (by omega)]
    have hmask : (0x0E00 : Word).getLsbD (9 + k) = true := by
      have hall : ∀ k < 3, (0x0E00 : Word).getLsbD (9 + k) = true := by decide
      exact hall k hk
    rw [InstValue.cc, BitVec.getLsbD_ushiftRight, BitVec.getLsbD_and, hmask, Bool.and_true]
  have h0 : (i.cc &&& 1 = 0) ↔ i.ir.getLsbD 9 = false := hbit 0 (by decide)
  have h1 : (i.cc &&& 2 = 0) ↔ i.ir.getLsbD 10 = false := hbit 1 (by decide)
  have h2 : (i.cc &&& 4 = 0) ↔ i.ir.getLsbD 11 = false := hbit 2 (by decide)
  unfold Lc3.taken Machine.ccHolds
  simp only [ne_eq, h0, h1, h2, Bool.not_eq_false]
  rw [Bool.eq_iff_iff]
  simp [or_assoc]

end InstValue

/-! ## The words of a machine -/

namespace Machine

/-- The LC-3 that a machine is. -/
def lc3 (M : Machine) : Lc3 where
  reg r := (M.reg r).getD 0
  pc := M.pc
  mem addr := ((M.mem addr).bind Cell.value).getD 0
  out := M.out

/-- The value whose sign the condition codes are. -/
def ccValue (M : Machine) : Word :=
  (M.ccRef.bind M.reg).getD 0

variable {lv : Levels} {M : Machine} {ir : InstValue} {addr : Word}

@[simp] theorem raise_lc3 (type : IssueType) (location : Option InstValue) :
    (M.raise lv type location).val.lc3 = M.lc3 := rfl

@[simp] theorem raise_reg (type : IssueType) (location : Option InstValue) :
    (M.raise lv type location).val.reg = M.reg := rfl

@[simp] theorem setReg_lc3 (r : Fin 8) (value : Option Word) :
    (M.setReg r value).lc3 = M.lc3.setReg r (value.getD 0) := by
  simp only [lc3, setReg, Lc3.setReg, Lc3.mk.injEq, and_true]
  funext x
  split <;> rfl

@[simp] theorem setRegAndCC_lc3 (r : Fin 8) (value : Option Word) :
    (M.setRegAndCC r value).lc3 = M.lc3.setReg r (value.getD 0) :=
  setReg_lc3 r value

theorem jump_lc3 (target : Word) : { M with pc := target }.lc3 = M.lc3.jump target := rfl

theorem link_lc3 (target : Word) : { M.setReg 7 (some M.pc) with pc := target }.lc3 =
    (M.lc3.setReg 7 M.lc3.pc).jump target := by
  rw [jump_lc3, setReg_lc3]
  rfl

/-- Writing 0 to an uninitialized register cannot be observed. -/
theorem setReg_zero_lc3 {r : Fin 8} (h : M.lc3.reg r = 0) : (M.setReg r (some 0)).lc3 = M.lc3 := by
  have hreg : (fun x => if x = r then (0 : Word) else M.lc3.reg x) = M.lc3.reg := by
    funext x
    split
    · rename_i hx
      rw [hx, h]
    · rfl
  rw [setReg_lc3, Option.getD_some, Lc3.setReg, hreg]

theorem getReg_lc3 (r : Fin 8) :
    (M.getReg lv r ir).val.1.lc3 = M.lc3 ∧ (M.getReg lv r ir).val.2 = M.lc3.reg r := by
  unfold getReg
  split
  · rename_i w hreg
    exact ⟨rfl, by simp [lc3, hreg]⟩
  · rename_i hreg
    have hzero : M.lc3.reg r = 0 := by simp [lc3, hreg]
    refine ⟨?_, ?_⟩
    · split
      · exact setReg_zero_lc3 hzero
      · exact setReg_zero_lc3 (M := (M.raise lv .warnUseUninitializedRegister ir).val) hzero
    · split <;> exact hzero.symm

theorem getCC_lc3 :
    (M.getCC lv ir).val.1.lc3 = M.lc3 ∧ (M.getCC lv ir).val.2 = M.ccValue := by
  unfold getCC ccValue
  split
  · rename_i href
    exact ⟨rfl, by simp [href]⟩
  · rename_i r href
    split
    · rename_i w hreg
      exact ⟨rfl, by simp [href, hreg]⟩
    · rename_i hreg
      refine ⟨?_, by simp [href, hreg]⟩
      exact setReg_zero_lc3 (M := (M.raise lv .warnUseUninitializedRegister ir).val)
        (by simp [lc3, hreg])

theorem warnOnRead_lc3 (cell : Cell) : (M.warnOnRead lv cell ir).val.lc3 = M.lc3 := by
  unfold warnOnRead
  split
  · split <;> rfl
  · rfl

theorem read_lc3 (dr : Option (Fin 8)) :
    (M.read lv addr ir dr).val.1.lc3 = M.lc3 ∧
      (M.read lv addr ir dr).val.2.getD 0 = M.lc3.mem addr := by
  unfold read
  split
  · rename_i hmem
    exact ⟨rfl, by simp [lc3, hmem]⟩
  · rename_i cell hmem
    have hwarn : (M.warnOnRead lv cell ir).val.lc3 = M.lc3 := warnOnRead_lc3 cell
    simp only [Emit.bind_val]
    split
    · rename_i w hvalue
      exact ⟨hwarn, by simp [lc3, hmem, hvalue]⟩
    · rename_i hvalue
      have hzero : M.lc3.mem addr = 0 := by simp [lc3, hmem, hvalue]
      split
      · exact ⟨hwarn, hzero.symm⟩
      · split
        · exact ⟨hwarn, hzero.symm⟩
        · exact ⟨hwarn, hzero.symm⟩

theorem checkOverwrite_lc3 :
    (M.checkOverwrite lv addr ir).val.1.lc3 = M.lc3 ∧
      ((M.checkOverwrite lv addr ir).val.2 = false →
        (M.checkOverwrite lv addr ir).val.1.status = .broken) := by
  unfold checkOverwrite
  split
  · exact ⟨rfl, by simp⟩
  · split
    · exact ⟨rfl, by simp⟩
    · exact ⟨rfl, by simp⟩
  · exact ⟨rfl, fun _ => rfl⟩

theorem store_lc3 (value : Option Word) :
    (M.store addr value ir).lc3 = if addr ∈ MemoryManager.deviceAddrs then M.lc3
      else { M.lc3 with mem := fun x => if x = addr then value.getD 0 else M.lc3.mem x } := by
  by_cases hdev : addr ∈ MemoryManager.deviceAddrs
  · simp [store, lc3, hdev]
  · rw [if_neg hdev]
    simp only [store, lc3, hdev, not_false_eq_true, and_true, Lc3.mk.injEq, true_and]
    funext x
    split <;> rfl

theorem halt_status : (M.halt lv).val.status ≠ .normal := by
  unfold halt
  dsimp only
  split
  · simp
  · split
    · simp only [raise]
      split <;> simp
    · simp

theorem display_lc3 (value : Option Word) :
    (M.display lv value ir).val.lc3 = { M.lc3 with out := M.lc3.out ++ [value.getD 0] } := by
  unfold display
  split <;> rfl

/-- A store after which the machine is still running. -/
theorem write_lc3 {value : Option Word} (h : (M.write lv addr value ir).val.status = .normal) :
    (M.write lv addr value ir).val.lc3 = M.lc3.store addr (value.getD 0) := by
  obtain ⟨hcheck, hbroken⟩ : _ ∧ _ := checkOverwrite_lc3 (M := M)
  unfold write at h ⊢
  simp only [Emit.bind_val] at h ⊢
  generalize (M.checkOverwrite lv addr ir).val = check at h hcheck hbroken ⊢
  obtain ⟨M₁, goesOn⟩ := check
  cases goesOn with
  | false =>
      simp only [Bool.not_false, if_true, Emit.pure_val] at h
      have := hbroken rfl
      rw [this] at h
      cases h
  | true =>
      simp only [Bool.not_true, Bool.false_eq_true, if_false] at h ⊢
      change M₁.lc3 = M.lc3 at hcheck
      unfold Lc3.store Lc3.kbsr Lc3.kbdr Lc3.dsr Lc3.mcr Lc3.ddr
      by_cases hddr : addr = 0xFE06
      · subst hddr
        rw [if_pos rfl, display_lc3, store_lc3, hcheck]
        rfl
      · rw [if_neg hddr] at h ⊢
        split at h
        · exact absurd h halt_status
        · rw [if_neg (by assumption)]
          rw [Emit.pure_val, store_lc3, hcheck]
          simp only [MemoryManager.deviceAddrs, List.mem_cons, List.not_mem_nil, or_false, hddr,
            false_or, if_false]

/-- A load after which the machine is still running. -/
theorem load_lc3 (h : (M.load lv addr ir).val.status = .normal) :
    (M.load lv addr ir).val.lc3 = M.lc3.setReg ir.dr (M.lc3.mem addr) := by
  obtain ⟨hread, hvalue⟩ : _ ∧ _ := read_lc3 (M := M) (some ir.dr)
  unfold load at h ⊢
  simp only [Emit.bind_val] at h ⊢
  generalize (M.read lv addr ir (some ir.dr)).val = result at h hread hvalue ⊢
  obtain ⟨M₁, w⟩ := result
  dsimp only at h hread hvalue ⊢
  split at h
  · exact absurd h (by assumption)
  · rw [if_neg (by assumption), Emit.pure_val, setRegAndCC_lc3, hread, hvalue]

/-- An indirect access after which the machine is still running. -/
theorem indirect_lc3 {go : Machine → Word → Emit Issue Machine} {L : Lc3}
    (hgo : ∀ {M₁ : Machine} {w : Word}, M₁.lc3 = M.lc3 → w = M.lc3.mem (M.pc + ir.imm9) →
      (go M₁ w).val.status = .normal → (go M₁ w).val.lc3 = L)
    (h : (M.indirect lv ir go).val.status = .normal) : (M.indirect lv ir go).val.lc3 = L := by
  obtain ⟨hread, hvalue⟩ : _ ∧ _ := read_lc3 (M := M) none
  unfold indirect at h ⊢
  simp only [Emit.bind_val] at h ⊢
  generalize (M.read lv (M.pc + ir.imm9) ir none).val = result at h hread hvalue ⊢
  obtain ⟨M₁, w⟩ := result
  dsimp only at h hread hvalue ⊢
  split at h
  · exact absurd h (by assumption)
  · rw [if_neg (by assumption)]
    exact hgo hread hvalue h

/-! ## Instructions -/

theorem executeADD_lc3 : (M.executeADD lv ir).val.lc3 = M.lc3.setReg ir.dr (M.lc3.reg ir.sr1 +
    if ir.instDef.format = .RRR then M.lc3.reg ir.sr2 else ir.imm5) := by
  obtain ⟨hget1, hop1⟩ : _ ∧ _ := getReg_lc3 (M := M) ir.sr1
  unfold executeADD
  simp only [Emit.bind_val]
  generalize (M.getReg lv ir.sr1 ir).val = result1 at hget1 hop1 ⊢
  split
  · obtain ⟨hget2, hop2⟩ : _ ∧ _ := getReg_lc3 (M := result1.1) ir.sr2
    simp only [Emit.bind_val, Emit.pure_val, setRegAndCC_lc3, Option.getD_some]
    rw [hget2, hop2, hget1, hop1]
  · simp only [Emit.bind_val, Emit.pure_val, setRegAndCC_lc3, Option.getD_some]
    rw [hget1, hop1]

theorem executeNOT_lc3 :
    (M.executeNOT lv ir).val.lc3 = M.lc3.setReg ir.dr (~~~M.lc3.reg ir.sr1) := by
  obtain ⟨hget, hop⟩ : _ ∧ _ := getReg_lc3 (M := M) ir.sr1
  unfold executeNOT
  simp only [Emit.bind_val, Emit.pure_val, setRegAndCC_lc3, Option.getD_some]
  rw [hget, hop]

theorem warnOnAndOperand_lc3 {r : Fin 8} {other : Option Word} (h : M.lc3.reg r = 0) :
    (M.warnOnAndOperand lv r other ir).val.lc3 = M.lc3 := by
  unfold warnOnAndOperand
  split
  · exact setReg_zero_lc3 (M := (M.raise lv .warnUseUninitializedRegister ir).val) h
  · rfl

theorem andOperand_lc3 {r : Fin 8} {op other : Option Word} (h : op = none → M.lc3.reg r = 0) :
    (if op.isNone then M.warnOnAndOperand lv r other ir else pure M).val.lc3 = M.lc3 := by
  cases op with
  | none => exact warnOnAndOperand_lc3 (h rfl)
  | some w => rfl

theorem executeAND_lc3 : (M.executeAND lv ir).val.lc3 = M.lc3.setReg ir.dr (M.lc3.reg ir.sr1 &&&
    if ir.instDef.format = .RRR then M.lc3.reg ir.sr2 else ir.imm5) := by
  have hop1 : M.reg ir.sr1 = none → M.lc3.reg ir.sr1 = 0 := fun h => by simp [lc3, h]
  have hop2 : M.andOperand2 ir = none → M.lc3.reg ir.sr2 = 0 := by
    intro h
    unfold andOperand2 at h
    split at h
    · simp [lc3, h]
    · cases h
  have hvalue : (M.andOperand2 ir).getD 0 =
      if ir.instDef.format = .RRR then M.lc3.reg ir.sr2 else ir.imm5 := by
    unfold andOperand2
    split <;> rfl
  have hwarn1 : (if (M.reg ir.sr1).isNone then
      M.warnOnAndOperand lv ir.sr1 (M.andOperand2 ir) ir else pure M).val.lc3 = M.lc3 :=
    andOperand_lc3 hop1
  rw [executeAND_eq]
  simp only [Emit.bind_val, Emit.pure_val, setRegAndCC_lc3, Option.getD_some, hvalue]
  rw [andOperand_lc3, hwarn1]
  · rfl
  · rw [hwarn1]
    exact hop2

theorem executeJMP_lc3 {retInMain : Bool}
    (h : (M.executeJMP lv retInMain ir).val.status = .normal) :
    (M.executeJMP lv retInMain ir).val.lc3 = M.lc3.jump (M.lc3.reg ir.baseR) := by
  rw [executeJMP_eq] at h ⊢
  have hcheck : (if ir.belongsToOS = false ∧ ir.baseR = 7 ∧ retInMain then
      M.raise lv .errRetInMainCode ir else pure M).val.lc3 = M.lc3 := by
    split <;> rfl
  simp only [Emit.bind_val] at h ⊢
  generalize (if ir.belongsToOS = false ∧ ir.baseR = 7 ∧ retInMain then
    M.raise lv .errRetInMainCode ir else pure M).val = M₁ at h hcheck ⊢
  split at h
  · rename_i hnormal
    obtain ⟨hget, htarget⟩ : _ ∧ _ := getReg_lc3 (M := M₁) ir.baseR
    rw [if_pos hnormal, Emit.bind_val, Emit.pure_val, jump_lc3, hget, htarget, hcheck]
  · exact absurd h (by assumption)

theorem executeJSRR_lc3 :
    (M.executeJSRR lv ir).val.lc3 = (M.lc3.setReg 7 M.lc3.pc).jump (M.lc3.reg ir.baseR) := by
  obtain ⟨hget, htarget⟩ : _ ∧ _ := getReg_lc3 (M := M) ir.baseR
  unfold executeJSRR
  simp only [Emit.bind_val, Emit.pure_val]
  generalize (M.getReg lv ir.baseR ir).val = result at hget htarget ⊢
  rw [jump_lc3, setReg_lc3, hget, htarget, ← hget]
  rfl

theorem executeTRAP_lc3 (h : (M.executeTRAP lv ir).val.status = .normal) :
    (M.executeTRAP lv ir).val.lc3 = (M.lc3.setReg 7 M.lc3.pc).jump (M.lc3.mem ir.vec8) := by
  unfold executeTRAP at h ⊢
  split at h
  · cases h
  · rename_i hinstant
    rw [if_neg hinstant]
    obtain ⟨hread, htarget⟩ : _ ∧ _ := read_lc3 (M := M.setReg 7 (some M.pc)) none
    simp only [Emit.bind_val] at h ⊢
    generalize ((M.setReg 7 (some M.pc)).read lv ir.vec8 ir none).val = result at h hread htarget ⊢
    split at h
    · exact absurd h (by assumption)
    · rw [if_neg (by assumption), Emit.pure_val, jump_lc3, hread, htarget, setReg_lc3]
      rfl

theorem ccHolds_zero (value : Word) : ccHolds 0 value = false := by
  simp [ccHolds]

theorem ccHolds_seven (value : Word) : ccHolds 7 value = true := by
  have hzero : value = 0#16 ↔ value.toInt = 0 := by
    rw [← BitVec.toInt_inj]
    rfl
  simp only [ccHolds, BitVec.slt_iff_toInt_lt, decide_eq_true_eq]
  have htri : value.toInt < 0 ∨ value.toInt = 0 ∨ 0 < value.toInt := by omega
  rcases htri with h | h | h
  · exact .inl ⟨by decide, h⟩
  · exact .inr (.inl ⟨by decide, hzero.2 h⟩)
  · exact .inr (.inr ⟨by decide, h⟩)

theorem executeBR_lc3 : (M.executeBR lv ir).val.lc3 =
    if ccHolds ir.cc M.ccValue then M.lc3.jump (M.lc3.pc + ir.imm9) else M.lc3 := by
  unfold executeBR
  split
  · rename_i h0
    rw [h0, ccHolds_zero]
    rfl
  · split
    · rename_i h7
      rw [h7, ccHolds_seven]
      rfl
    · obtain ⟨hget, hvalue⟩ : _ ∧ _ := getCC_lc3 (M := M)
      simp only [Emit.bind_val, Emit.pure_val]
      generalize (M.getCC lv ir).val = result at hget hvalue ⊢
      rw [hvalue]
      split
      · rw [jump_lc3, hget, ← hget]
        rfl
      · exact hget

/-- An instruction after which the machine is still running is that of the LC-3. -/
theorem execute_lc3 {retInMain : Bool} (hdev : ∀ addr, M.lc3.load addr = M.lc3.mem addr)
    (h : (M.execute lv retInMain ir).val.status = .normal) :
    Lc3.execute M.ccValue M.lc3 ir.ir = some (M.execute lv retInMain ir).val.lc3 := by
  have hRTI : ir.instID ≠ .RTI := by
    intro hid
    simp only [execute, hid] at h
    cases h
  have hop := ir.opcode_eq hRTI
  have hoperand2 : ir.instID = .ADD ∨ ir.instID = .ADDi ∨ ir.instID = .AND ∨ ir.instID = .ANDi →
      M.lc3.operand2 ir.ir =
        if ir.instDef.format = .RRR then M.lc3.reg ir.sr2 else ir.imm5 := by
    intro hid
    rw [Lc3.operand2, ir.immediate_iff hid, ir.sr2_eq, ir.imm5_eq]
    by_cases hformat : ir.instDef.format = .RRR <;> simp [hformat]
  unfold execute at h ⊢
  unfold Lc3.execute
  rw [hop, ← ir.dr_eq, ← ir.sr1_eq, ← ir.imm6_eq, ← ir.imm9_eq, ← ir.imm11_eq, ← ir.vec8_eq]
  cases hid : ir.instID with
  | RTI => exact absurd hid hRTI
  | ADD | ADDi =>
      simp only [InstValue.opcodeOf]
      rw [hoperand2 (by simp [hid]), executeADD_lc3]
  | AND | ANDi =>
      simp only [InstValue.opcodeOf]
      rw [hoperand2 (by simp [hid]), executeAND_lc3]
  | BR =>
      simp only [InstValue.opcodeOf]
      rw [executeBR_lc3, ir.taken_eq]
  | JMP =>
      simp only [hid] at h
      simp only [InstValue.opcodeOf]
      rw [executeJMP_lc3 h]
      rfl
  | JSR =>
      have hbit : ir.ir.getLsbD 11 = true := by rw [ir.jsr_iff (.inl hid), hid]; rfl
      simp only [InstValue.opcodeOf]
      rw [if_pos hbit, Emit.pure_val, link_lc3]
      rfl
  | JSRR =>
      have hbit : ir.ir.getLsbD 11 = false := by rw [ir.jsr_iff (.inr hid), hid]; rfl
      simp only [InstValue.opcodeOf]
      rw [if_neg (by rw [hbit]; simp), executeJSRR_lc3]
      rfl
  | LD =>
      simp only [hid] at h
      simp only [InstValue.opcodeOf]
      rw [load_lc3 h, hdev]
      rfl
  | LDI =>
      simp only [hid] at h
      simp only [InstValue.opcodeOf]
      rw [hdev, hdev]
      congr 1
      refine (indirect_lc3 ?_ h).symm
      rintro M₁ w hlc3 rfl hnormal
      rw [load_lc3 hnormal, hlc3]
      rfl
  | LDR =>
      obtain ⟨hget, hbase⟩ : _ ∧ _ := getReg_lc3 (M := M) ir.baseR
      simp only [hid, Emit.bind_val] at h ⊢
      simp only [InstValue.opcodeOf]
      rw [load_lc3 h, hget, hbase, hdev]
      rfl
  | LEA =>
      simp only [InstValue.opcodeOf]
      rw [Emit.pure_val, setRegAndCC_lc3]
      rfl
  | NOT =>
      simp only [InstValue.opcodeOf]
      rw [executeNOT_lc3]
  | ST =>
      simp only [hid] at h
      simp only [InstValue.opcodeOf]
      rw [write_lc3 h]
      rfl
  | STI =>
      simp only [hid] at h
      simp only [InstValue.opcodeOf]
      rw [hdev]
      congr 1
      refine (indirect_lc3 ?_ h).symm
      rintro M₁ w hlc3 rfl hnormal
      rw [write_lc3 hnormal, hlc3]
      have hreg : (M₁.reg ir.sr).getD 0 = M.lc3.reg ir.dr := congrFun (congrArg Lc3.reg hlc3) ir.dr
      rw [hreg]
      rfl
  | STR =>
      obtain ⟨hget, hbase⟩ : _ ∧ _ := getReg_lc3 (M := M) ir.baseR
      simp only [hid, Emit.bind_val] at h ⊢
      simp only [InstValue.opcodeOf]
      rw [write_lc3 h, hbase, hget]
      rfl
  | TRAP =>
      simp only [hid] at h
      simp only [InstValue.opcodeOf]
      rw [executeTRAP_lc3 h, hdev]

/-- A step after which the machine is still running is that of the LC-3. -/
theorem step_lc3 {retInMain : Bool} (hdev : ∀ addr, M.lc3.load addr = M.lc3.mem addr)
    (h : (M.step lv retInMain).val.status = .normal) :
    M.lc3.step M.ccValue = some (M.step lv retInMain).val.lc3 := by
  unfold step at h ⊢
  split at h
  · cases h
  · cases h
  · rename_i ir hmem
    have hfetch : M.lc3.load M.lc3.pc = ir.ir := by
      rw [hdev]
      change ((M.mem M.pc).bind Cell.value).getD 0 = ir.ir
      rw [hmem]
      rfl
    rw [Lc3.step, hfetch]
    exact execute_lc3 (M := { M with
      latestInst := some ir
      latestNonOSInst := if ir.belongsToOS then M.latestNonOSInst else some ir
      pc := M.pc + 1 }) hdev h

end Machine

end Klc3
