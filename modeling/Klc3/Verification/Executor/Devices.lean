import Klc3.Verification.Executor.Progress

/-!
# Stores to devices

One store decides between stopping the clock, printing a character and changing one
memory cell. A symbolic value stored to MCR always stops the clock.
-/

namespace Klc3

open IssuePackage (Leveled Configured)

/-- The constants that leave the clock running are those with the highest bit set. -/
theorem WordExpr.halts_eq_true_iff (e : WordExpr) (a : Assignment) :
    e.halts = true ↔ e.asConst = none ∨ e.eval a &&& 0x8000 = 0 := by
  cases e <;> simp [WordExpr.halts, WordExpr.asConst, WordExpr.eval]

namespace Mach

variable {m m' : Mach} {addr : Word} {value : Option WordExpr} {ir : InstValue}

/-- Whether the warning about a clock stopped without a `TRAP` breaks the state. -/
def ManualHaltBreaks (m : Mach) : Prop :=
  (∀ last, m.s.latestNonOSInst.1 = some last → last.instID ≠ .TRAP) ∧
    m.pkg.issueLevel .warnManualHalt = some .error

/-- What a store of a register leaves behind. -/
structure Stored (m : Mach) (addr : Word) (value : Option WordExpr) (m' : Mach) : Prop where
  constraints : m'.s.constraints = m.s.constraints
  halted : ∀ a, m'.s.constraints.Sat a → (m'.s.status = .halted ↔
    addr = 0xFFFE ∧
    ((value.getD (.const 0)).asConst = none ∨ (value.getD (.const 0)).eval a &&& 0x8000 = 0) ∧
    ¬ m.ManualHaltBreaks)
  output : m'.s.lc3Out = m.s.lc3Out ++ if addr = 0xFE06 then [value.getD (.const 0)] else []
  device : addr ∈ MemoryManager.deviceAddrs → m'.s.mem = m.s.mem
  frame : ∀ x, x ≠ addr → m'.s.mem.read x = m.s.mem.read x
  cell : m'.s.mem.read addr = m.s.mem.read addr ∨
    m'.s.mem.read addr = some (DataValue.alloc value)

/-- What the checks on the overwritten cell leave alone. -/
structure Checked (m m' : Mach) : Prop where
  constraints : m'.s.constraints = m.s.constraints
  lc3Out : m'.s.lc3Out = m.s.lc3Out
  mem : m'.s.mem = m.s.mem
  latestNonOSInst : m'.s.latestNonOSInst = m.s.latestNonOSInst
  issueLevel : m'.pkg.issueLevel = m.pkg.issueLevel
  status : m.s.status ≠ .halted → m'.s.status ≠ .halted

theorem Checked.refl (m : Mach) : Checked m m :=
  ⟨rfl, rfl, rfl, rfl, rfl, id⟩

theorem newStateIssue_checked {type : IssueType} {location : Option InstValue} {note : String}
    (h : m.newStateIssue type location note = .ok m') : Checked m m' := by
  obtain ⟨⟨trigger, hs⟩, hraises⟩ := newStateIssue_eq_ok h
  refine ⟨?_, ?_, ?_, ?_, hraises.issueLevel, ?_⟩
  · rw [hs]
  · rw [hs]
  · rw [hs]
  · rw [hs]
  · intro hstatus
    rw [hs]
    dsimp only
    split
    · simp
    · exact hstatus

theorem checkOverwrite_checked {goesOn : Bool}
    (h : checkOverwrite m addr ir = .ok (m', goesOn)) : Checked m m' := by
  unfold checkOverwrite at h
  split at h
  · obtain ⟨m₁, hraise, h⟩ := Except.bind_eq_ok_iff.1 h
    cases h
    exact newStateIssue_checked hraise
  · split at h
    · obtain ⟨m₁, hraise, h⟩ := Except.bind_eq_ok_iff.1 h
      cases h
      exact newStateIssue_checked hraise
    · cases h
      exact .refl m
  · obtain ⟨m₁, hraise, h⟩ := Except.bind_eq_ok_iff.1 h
    obtain ⟨_, _, h⟩ := Except.bind_eq_ok_iff.1 h
    cases h
    exact newStateIssue_checked hraise

/-- A store is given up only at an instruction, and no device holds one. -/
theorem checkOverwrite_not_ddr (h : checkOverwrite m addr ir = .ok (m', false)) :
    addr ≠ 0xFE06 := by
  rintro rfl
  have hread : m.s.mem.read 0xFE06 = some (DataValue.alloc (some (.const 0))) := rfl
  simp only [checkOverwrite, hread, DataValue.alloc] at h
  cases h

theorem Halting.status_iff (h : Halting m m') :
    m'.s.status = .halted ↔ ¬ m.ManualHaltBreaks := by
  cases h with
  | trap last hlast htrap h =>
      subst h
      simp [ManualHaltBreaks, hlast, htrap]
  | manual last note hlast htrap h =>
      obtain ⟨⟨trigger, hs⟩, -⟩ := newStateIssue_eq_ok h
      rw [hs]
      simp [ManualHaltBreaks, hlast, htrap]

theorem Halting.checked (h : Halting m m') :
    m'.s.constraints = m.s.constraints ∧ m'.s.lc3Out = m.s.lc3Out ∧ m'.s.mem = m.s.mem := by
  cases h with
  | trap last hlast htrap h =>
      subst h
      exact ⟨rfl, rfl, rfl⟩
  | manual last note hlast htrap h =>
      have hcheck := newStateIssue_checked h
      exact ⟨hcheck.constraints, hcheck.lc3Out, hcheck.mem⟩

/-- A store that neither halts nor is given up. -/
theorem Storing.spec (h : Storing m addr value ir m') (hstatus : m.s.status ≠ .halted) :
    m'.s.constraints = m.s.constraints ∧ m'.s.status ≠ .halted ∧
    m'.s.lc3Out = (m.s.lc3Out ++ if addr = 0xFE06 then [value.getD (.const 0)] else []) ∧
    m'.s.mem = m.s.mem.store addr value := by
  cases h with
  | plain haddr h =>
      subst h
      exact ⟨rfl, hstatus, by rw [if_neg haddr, List.append_nil]; rfl, rfl⟩
  | display e haddr hvalue h =>
      subst h hvalue haddr
      exact ⟨rfl, hstatus, rfl, rfl⟩
  | displayNull m₁ note haddr hvalue hraise h =>
      have hcheck := newStateIssue_checked hraise
      subst h hvalue haddr
      exact ⟨hcheck.constraints, hcheck.status hstatus,
        congrArg (· ++ [WordExpr.const 0]) hcheck.lc3Out, hcheck.mem⟩

theorem store_device (mem : MemoryManager) (haddr : addr ∈ MemoryManager.deviceAddrs) :
    mem.store addr value = mem := by
  simp [MemoryManager.store, haddr]

theorem store_cell (mem : MemoryManager) (addr : Word) (value : Option WordExpr) :
    (mem.store addr value).read addr = mem.read addr ∨
    (mem.store addr value).read addr = some (DataValue.alloc value) := by
  rw [MemoryManager.read_store]
  split
  · exact .inr rfl
  · exact .inl rfl

theorem store_frame (mem : MemoryManager) (value : Option WordExpr) {x : Word} (hx : x ≠ addr) :
    (mem.store addr value).read x = mem.read x := by
  rw [MemoryManager.read_store, if_neg fun h => hx h.1]

/-- Every store that finishes stops the clock, prints or changes one cell as `Stored`
says. -/
theorem memWriteData_stored (hstatus : m.s.status ≠ .halted)
    (h : memWriteData m addr value ir = .ok m') : Stored m addr value m' := by
  rcases memWriteData_eq_ok h with hcheck | ⟨e, haddr, rfl, he, hhalt⟩ | ⟨m₁, hcheck, hmcr, hstore⟩
  · have hspec := checkOverwrite_checked hcheck
    refine ⟨hspec.constraints, ?_, ?_, fun _ => hspec.mem, ?_, ?_⟩
    · intro a ha
      refine iff_of_false (hspec.status hstatus) ?_
      rintro ⟨rfl, -, -⟩
      cases (checkOverwrite_mcr hcheck).2
    · rw [hspec.lc3Out, if_neg (checkOverwrite_not_ddr hcheck), List.append_nil]
    · intro x hx
      rw [hspec.mem]
    · exact .inl (by rw [hspec.mem])
  · obtain ⟨hconstraints, hout, hmem⟩ := hhalt.checked
    have hdev : addr ∈ MemoryManager.deviceAddrs := by
      rw [haddr]
      decide
    have hsame : m'.s.mem = m.s.mem := hmem.trans (store_device m.s.mem hdev)
    refine ⟨hconstraints, ?_, ?_, fun _ => hsame, fun x _ => by rw [hsame], .inl (by rw [hsame])⟩
    · intro a ha
      rw [hhalt.status_iff]
      have hvalue := (WordExpr.halts_eq_true_iff e a).1 he
      exact ⟨fun hbreaks => ⟨haddr, hvalue, hbreaks⟩, fun h => h.2.2⟩
    · rw [hout, haddr]
      simp [State.store]
  · have hspec := checkOverwrite_checked hcheck
    obtain ⟨hconstraints, hnot, hout, hmem⟩ := hstore.spec (hspec.status hstatus)
    rw [hspec.lc3Out] at hout
    rw [hspec.mem] at hmem
    refine ⟨hconstraints.trans hspec.constraints, ?_, hout, ?_, ?_, ?_⟩
    · intro a ha
      refine iff_of_false hnot ?_
      rintro ⟨haddr, hvalue, -⟩
      obtain ⟨e, rfl, he⟩ := hmcr haddr
      have htrue := (WordExpr.halts_eq_true_iff e a).2 hvalue
      rw [he] at htrue
      cases htrue
    · intro hdev
      rw [hmem, store_device _ hdev]
    · intro x hx
      rw [hmem, store_frame _ _ hx]
    · rw [hmem]
      exact store_cell _ _ _

/-- Every store of a running state finishes as `Stored` says, except at MCR for a
register that was never set, and for a clock stopped before the first user instruction. -/
theorem memWriteData_devices (m : Mach) (addr : Word) (value : Option WordExpr) (ir : InstValue)
    (hlv : Leveled m.pkg.issueLevel) (hstatus : m.s.status ≠ .halted)
    (hfails : ¬ m.s.StoreFails value addr) :
    ∃ m', memWriteData m addr value ir = .ok m' ∧ Stored m addr value m' := by
  obtain ⟨m', h⟩ := (memWriteData_isOk_iff hlv).2 hfails
  exact ⟨m', h, memWriteData_stored hstatus h⟩

end Mach

/-! ## A symbolic value at MCR -/

/-- `ST R0, MCR` as the last user instruction. -/
def InstValue.storeToMCR : InstValue :=
  ⟨0xFFF0, 0x300D, ⟨.ST, .RL, 0xF000, 0x3000⟩, by decide, false, [], "halt.asm", 1, "ST R0, MCR"⟩

/-- A state about to carry out `InstValue.storeToMCR`. -/
def Mach.storing : Mach where
  s := { State.init 0 (fun _ => none) 0xFFF1 with latestNonOSInst := (some .storeToMCR, none) }
  pkg := .empty

/-- The input stored by `Mach.storing`. -/
def WordExpr.stored : WordExpr := .read ⟨"INPUT", 1⟩ 0

theorem memWriteData_devices_storing : ∃ m',
    memWriteData Mach.storing 0xFE06 none .storeToMCR = .ok m' ∧
    m'.s.lc3Out = [.const 0] := by
  obtain ⟨m', h, hstored⟩ := Mach.memWriteData_devices .storing 0xFE06 none .storeToMCR
    Configured.empty.leveled (by decide) (by rintro ⟨h, -⟩; revert h; decide)
  exact ⟨m', h, hstored.output⟩

/-- The clock stops also under the inputs for which the value keeps it running. -/
theorem symbolic_store_halts :
    ¬ ∀ (m m' : Mach) (addr : Word) (value : Option WordExpr) (ir : InstValue) (a : Assignment),
      m.pkg.Configured → m.s.status = .normal → memWriteData m addr value ir = .ok m' →
      m'.s.constraints.Sat a →
      (m'.s.status = .halted ↔ addr = 0xFFFE ∧ (value.getD (.const 0)).eval a &&& 0x8000 = 0) := by
  intro h
  have hrun : ∃ m', memWriteData .storing 0xFFFE (some .stored) .storeToMCR = .ok m' ∧
      m'.s.status = .halted ∧ m'.s.constraints = [] := ⟨_, rfl, rfl, rfl⟩
  obtain ⟨m', hm', hstatus, hconstraints⟩ := hrun
  have hsat : m'.s.constraints.Sat fun _ _ => 0x8000 := by
    rw [hconstraints]
    intro e he
    cases he
  have hbit := ((h _ m' _ _ _ _ .empty rfl hm' hsat).1 hstatus).2
  revert hbit
  decide

end Klc3
