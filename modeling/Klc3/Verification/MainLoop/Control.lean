import Klc3.Verification.FlowGraph.Tracker
import Klc3.Verification.MainLoop.ConditionCodes

/-!
# Where control goes

What a step that goes on does to the PC, to the record of the instructions that were
fetched last, and to the instructions in memory.
-/

namespace Klc3

/-! ## Instructions in memory

No instruction is ever created: a store leaves data behind.
-/

namespace Machine

variable {lv : Levels} {M M' M'' : Machine} {ir : InstValue} {addr : Word}

/-- Every instruction that `M'` holds is where it was in `M`. -/
def KeepsInsts (M M' : Machine) : Prop :=
  ∀ addr i, M'.mem addr = some (.inst i) → M.mem addr = some (.inst i)

theorem KeepsInsts.of_mem (h : M'.mem = M.mem) : M.KeepsInsts M' :=
  fun addr i hi => by rwa [h] at hi

theorem KeepsInsts.trans (h : M.KeepsInsts M') (h' : M'.KeepsInsts M'') : M.KeepsInsts M'' :=
  fun addr i hi => h addr i (h' addr i hi)

theorem getReg_mem (r : Fin 8) : (M.getReg lv r ir).val.1.mem = M.mem := by
  unfold getReg
  split
  · rfl
  · split <;> rfl

theorem getCC_mem : (M.getCC lv ir).val.1.mem = M.mem := by
  unfold getCC
  split
  · rfl
  · split <;> rfl

theorem read_mem (dr : Option (Fin 8)) : (M.read lv addr ir dr).val.1.mem = M.mem := by
  unfold read
  split
  · rfl
  · rename_i cell _
    have hwarn : (M.warnOnRead lv cell ir).val.mem = M.mem := by
      unfold warnOnRead
      split
      · split <;> rfl
      · rfl
    simp only [Emit.bind_val]
    split
    · exact hwarn
    · split
      · exact hwarn
      · split <;> exact hwarn

theorem checkOverwrite_mem : (M.checkOverwrite lv addr ir).val.1.mem = M.mem := by
  unfold checkOverwrite
  split
  · rfl
  · split <;> rfl
  · rfl

theorem store_keepsInsts (value : Option Word) : M.KeepsInsts (M.store addr value ir) := by
  intro x i hi
  simp only [store] at hi
  split at hi
  · cases hi
  · exact hi

theorem write_keepsInsts (value : Option Word) :
    M.KeepsInsts (M.write lv addr value ir).val := by
  have hcheck : M.KeepsInsts (M.checkOverwrite lv addr ir).val.1 := .of_mem checkOverwrite_mem
  simp only [write, Emit.bind_val]
  split
  · exact hcheck
  · have hstore : KeepsInsts _ ((M.checkOverwrite lv addr ir).val.1.store addr value ir) :=
      store_keepsInsts value
    refine hcheck.trans (hstore.trans (.of_mem ?_))
    split
    · unfold display
      split <;> rfl
    · split
      · unfold halt
        dsimp only
        split
        · rfl
        · split <;> rfl
      · rfl

theorem load_mem : (M.load lv addr ir).val.mem = M.mem := by
  simp only [load, Emit.bind_val]
  split <;> exact read_mem _

theorem indirect_keepsInsts {go : Machine → Word → Emit Issue Machine}
    (hgo : ∀ M w, KeepsInsts M (go M w).val) : M.KeepsInsts (M.indirect lv ir go).val := by
  have hread : M.KeepsInsts (M.read lv (M.pc + ir.imm9) ir none).val.1 := .of_mem (read_mem none)
  simp only [indirect, Emit.bind_val]
  split
  · exact hread
  · exact hread.trans (hgo _ _)

theorem executeJMP_mem {retInMain : Bool} : (M.executeJMP lv retInMain ir).val.mem = M.mem := by
  unfold executeJMP
  split
  · simp only [Emit.bind_val]
    split
    · exact getReg_mem ir.baseR
    · rfl
  · simp only [Emit.bind_val]
    split
    · exact getReg_mem ir.baseR
    · rfl

theorem executeTRAP_mem : (M.executeTRAP lv ir).val.mem = M.mem := by
  unfold executeTRAP
  split
  · rfl
  · simp only [Emit.bind_val]
    split <;> exact read_mem none

theorem executeBR_mem : (M.executeBR lv ir).val.mem = M.mem := by
  unfold executeBR
  split
  · rfl
  split
  · rfl
  · simp only [Emit.bind_val, Emit.pure_val]
    split <;> exact getCC_mem

theorem executeADD_mem : (M.executeADD lv ir).val.mem = M.mem := by
  simp only [executeADD, Emit.bind_val]
  split
  · exact (getReg_mem ir.sr2).trans (getReg_mem ir.sr1)
  · exact getReg_mem ir.sr1

theorem warnOnAndOperand_mem {r : Fin 8} {op other : Option Word} :
    (if op.isNone then M.warnOnAndOperand lv r other ir else pure M).val.mem = M.mem := by
  unfold warnOnAndOperand
  split
  · split <;> rfl
  · rfl

theorem executeAND_mem : (M.executeAND lv ir).val.mem = M.mem := by
  rw [executeAND_eq]
  simp only [Emit.bind_val]
  exact warnOnAndOperand_mem.trans warnOnAndOperand_mem

theorem execute_keepsInsts {retInMain : Bool} : M.KeepsInsts (M.execute lv retInMain ir).val := by
  unfold execute
  cases ir.instID with
  | ST => exact write_keepsInsts _
  | STR => exact (KeepsInsts.of_mem (getReg_mem ir.baseR)).trans (write_keepsInsts _)
  | STI => exact indirect_keepsInsts fun M w => write_keepsInsts _
  | LD => exact .of_mem load_mem
  | LDR => exact .of_mem (load_mem.trans (getReg_mem ir.baseR))
  | LDI => exact indirect_keepsInsts fun M w => .of_mem load_mem
  | BR => exact .of_mem executeBR_mem
  | JMP => exact .of_mem executeJMP_mem
  | JSRR => exact .of_mem (getReg_mem ir.baseR)
  | TRAP => exact .of_mem executeTRAP_mem
  | NOT => exact .of_mem (getReg_mem ir.sr1)
  | ADD | ADDi => exact .of_mem executeADD_mem
  | AND | ANDi => exact .of_mem executeAND_mem
  | JSR | LEA | RTI => exact .of_mem rfl

/-- A machine that goes on after an instruction did not halt in it. -/
theorem step_inst {retInMain : Bool} (hmem : M.mem M.pc = some (.inst ir)) :
    M.KeepsInsts (M.step lv retInMain).val ∧ ((M.step lv retInMain).val.status = .normal →
      ir.instID ≠ .RTI ∧ (ir.instID = .TRAP → ir.sourceContent ≠ "INSTANT_HALT")) := by
  unfold step
  simp only [hmem]
  refine ⟨execute_keepsInsts, fun hstatus => ⟨(execute_ccRef hstatus).1, fun hid hsource => ?_⟩⟩
  simp [execute, hid, executeTRAP, hsource] at hstatus

end Machine

/-! ## The PC -/

/-- What the PC is after an instruction that was fetched from its own address. -/
theorem Lc3.step_pc {cc : Word} {L L' : Lc3} {ir : InstValue} (hfetch : L.load L.pc = ir.ir)
    (haddr : ir.addr = L.pc) (hRTI : ir.instID ≠ .RTI) (h : L.step cc = some L') :
    some L'.pc ∈ ir.successors ∨ ir.instID = .JMP ∨ ir.instID = .JSRR ∨
      (ir.instID = .TRAP ∧ L'.pc = L.load ir.vec8) := by
  rw [step, hfetch, execute, ir.opcode_eq hRTI] at h
  have hstore : ∀ {L₁ L₂ : Lc3} {addr value : Word}, some (L₁.store addr value) = some L₂ →
      L₂.pc = L₁.pc := by
    intro L₁ L₂ addr value heq
    cases heq
    unfold store
    split
    · rfl
    · split <;> rfl
  unfold InstValue.successors
  cases hid : ir.instID <;> simp only [hid, InstValue.opcodeOf] at h hRTI ⊢
  case BR =>
    left
    rw [ir.taken_eq, ← ir.imm9_eq] at h
    by_cases htaken : Machine.ccHolds ir.cc cc = true
    · rw [if_pos htaken] at h
      cases h
      have hcc : ir.cc ≠ 0 := by
        intro hzero
        rw [hzero, Machine.ccHolds_zero] at htaken
        cases htaken
      rw [if_neg hcc, haddr]
      exact List.mem_append_right _ (List.mem_singleton.2 rfl)
    · rw [if_neg htaken] at h
      cases h
      have hcc : ir.cc ≠ 7 := by
        intro hseven
        exact htaken (hseven ▸ Machine.ccHolds_seven cc)
      rw [if_neg hcc, haddr]
      exact List.mem_append_left _ (List.mem_singleton.2 rfl)
  case JSR =>
    rw [ir.jsr_iff (.inl hid), hid] at h
    cases h
    simp [haddr, jump, ir.imm11_eq]
  case TRAP =>
    cases h
    right; right; right
    refine ⟨trivial, ?_⟩
    rw [ir.vec8_eq]
    rfl
  case JMP => simp
  case JSRR => simp
  case ST | STR | STI =>
    rw [hstore h]
    simp [haddr, jump]
  case RTI => exact absurd rfl hRTI
  all_goals
    cases h
    simp [haddr, jump, setReg]

namespace Executor

variable {ex : Executor} {m : Mach} {r : StepResult} {t : State} {a : Assignment} {ir : InstValue}

/-- The record of fetched instructions after a step. -/
theorem step_latest (hwf : ex.WF) (howns : ex.Owns m.s.constraints) (hnormal : m.s.status = .normal)
    (h : ex.step m = .ok r) (ht : t ∈ r.states) (hbroken : t.status ≠ .broken) :
    ∃ ir, m.s.mem.read m.s.pc = some (.inst ir) ∧ t.latestInst = (some ir, m.s.latestInst.1) ∧
      t.latestNonOSInst =
        if ir.belongsToOS then m.s.latestNonOSInst else (some ir, m.s.latestNonOSInst.1) := by
  rcases step_eq_ok h with ⟨type, note, m', -, -, hm', rfl⟩ | ⟨ir, hread, ⟨hne, -⟩ | ⟨-, h⟩⟩
  · rw [List.mem_singleton.1 ht] at hbroken
    exact absurd hm' hbroken
  · exact absurd hnormal hne
  · have hdesc := (execute_results (m := m.fetched ir) Mach.closed_any hwf howns (Mach.all_any _)
      h).descends t ht
    exact ⟨ir, hread, hdesc.latestInst, hdesc.latestNonOSInst⟩

/-- A step that goes on, as far as control and the program are concerned. -/
theorem step_control (hwf : ex.WF) (howns : ex.Owns m.s.constraints)
    (hnormal : m.s.status = .normal) (h : ex.step m = .ok r) (ht : t ∈ r.states)
    (htnormal : t.status = .normal) (ha : t.constraints.Sat a)
    (hread : m.s.mem.read m.s.pc = some (.inst ir)) :
    (∀ addr i, t.mem.read addr = some (.inst i) → m.s.mem.read addr = some (.inst i)) ∧
    (ir.addr = m.s.pc → some t.pc ∈ ir.successors ∨ ir.instID = .JMP ∨ ir.instID = .JSRR ∨
      (ir.instID = .TRAP ∧ ir.sourceContent ≠ "INSTANT_HALT" ∧
        t.pc = (m.s.lc3 a).mem ir.vec8)) := by
  have hval := (step_sim hwf howns rfl hnormal h ht ha (.inr (.inl htnormal))).val
  have hmem : ∀ {strict : Bool} {s : State} {addr : Word} {i : InstValue},
      (s.conc strict a).mem addr = some (.inst i) ↔ s.mem.read addr = some (.inst i) := by
    intro strict s addr i
    change (s.mem.read addr).map (MemValue.conc strict a) = some (.inst i) ↔ _
    rcases s.mem.read addr with _ | i' | d <;> simp [MemValue.conc]
  have hstep := @Machine.step_inst m.pkg.issueLevel
    (m.s.conc (Machine.Levels.strict m.pkg.issueLevel) a) ir m.s.retInMain (hmem.2 hread)
  rw [hval] at hstep
  obtain ⟨hinsts, hgoes⟩ := hstep
  obtain ⟨hRTI, hhalt⟩ := hgoes htnormal
  refine ⟨fun addr i hi => hmem.1 (hinsts addr i (hmem.2 hi)), fun haddr => ?_⟩
  have hfetch : (m.s.lc3 a).load (m.s.lc3 a).pc = ir.ir := by
    rw [State.lc3_load]
    simp [State.lc3, hread, MemValue.e]
  have hpc := Lc3.step_pc hfetch haddr hRTI (step_lc3 hwf howns hnormal h ht htnormal ha)
  rw [State.lc3_load] at hpc
  rcases hpc with hpc | hpc | hpc | ⟨hid, hpc⟩
  · exact .inl hpc
  · exact .inr (.inl hpc)
  · exact .inr (.inr (.inl hpc))
  · exact .inr (.inr (.inr ⟨hid, hhalt hid, hpc⟩))

end Executor

end Klc3
