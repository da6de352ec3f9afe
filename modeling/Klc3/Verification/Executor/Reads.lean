import Klc3.Verification.Executor.Executes
import Klc3.Verification.Executor.Progress

/-!
# Reading operands

What an instruction changes of the machine before it writes anything: an uninitialized
register that it reads becomes 0, and a cell that holds the value of one is warned about
only once.
-/

namespace Klc3

namespace State

/-- What the executor leaves to the trackers, except that a `RET` in the main code ends the
tracking. -/
structure SamePath (s t : State) : Prop where
  colorStack : t.colorStack = s.colorStack
  jsrStack : t.jsrStack = s.jsrStack
  latestInst : t.latestInst = s.latestInst
  latestNonOSInst : t.latestNonOSInst = s.latestNonOSInst
  messedUp : t.stackHasMessedUp = s.stackHasMessedUp ∨
    (t.stackHasMessedUp = true ∧ s.colorStack.length = 1)

/-- What reading registers may change of the machine. -/
structure Reads (s t : State) : Prop where
  path : s.SamePath t
  pc : t.pc = s.pc
  ir : t.ir = s.ir
  ccRef : t.ccRef = s.ccRef
  mem : t.mem = s.mem
  lc3Out : t.lc3Out = s.lc3Out
  memStoringUninitReg : t.memStoringUninitReg = s.memStoringUninitReg
  reg : ∀ r, t.reg r = s.reg r ∨ (s.reg r = none ∧ t.reg r = some (.const 0))

variable {s t u : State}

theorem SamePath.refl (s : State) : s.SamePath s :=
  ⟨rfl, rfl, rfl, rfl, .inl rfl⟩

theorem SamePath.trans (h : s.SamePath t) (h' : t.SamePath u) : s.SamePath u where
  colorStack := h'.colorStack.trans h.colorStack
  jsrStack := h'.jsrStack.trans h.jsrStack
  latestInst := h'.latestInst.trans h.latestInst
  latestNonOSInst := h'.latestNonOSInst.trans h.latestNonOSInst
  messedUp := by
    rcases h'.messedUp with heq | ⟨htrue, hlen⟩
    · rw [heq]
      exact h.messedUp
    · exact .inr ⟨htrue, by rw [← h.colorStack, hlen]⟩

theorem Reads.refl (s : State) : s.Reads s :=
  ⟨.refl s, rfl, rfl, rfl, rfl, rfl, rfl, fun _ => .inl rfl⟩

theorem Reads.trans (h : s.Reads t) (h' : t.Reads u) : s.Reads u where
  path := h.path.trans h'.path
  pc := h'.pc.trans h.pc
  ir := h'.ir.trans h.ir
  ccRef := h'.ccRef.trans h.ccRef
  mem := h'.mem.trans h.mem
  lc3Out := h'.lc3Out.trans h.lc3Out
  memStoringUninitReg := h'.memStoringUninitReg.trans h.memStoringUninitReg
  reg r := by
    rcases h'.reg r with heq | ⟨hnone, hzero⟩
    · rw [heq]
      exact h.reg r
    · rcases h.reg r with heq | ⟨-, hzero'⟩
      · exact .inr ⟨heq.symm.trans hnone, hzero⟩
      · rw [hnone] at hzero'
        cases hzero'

theorem Reads.of_copy (h : s.Copy t) : s.Reads t := by
  obtain ⟨tag, rfl⟩ := h
  exact ⟨⟨rfl, rfl, rfl, rfl, .inl rfl⟩, rfl, rfl, rfl, rfl, rfl, rfl, fun _ => .inl rfl⟩

theorem Reads.reg_getD (h : s.Reads t) (r : Fin 8) :
    (t.reg r).getD (.const 0) = (s.reg r).getD (.const 0) := by
  rcases h.reg r with heq | ⟨hnone, hzero⟩
  · rw [heq]
  · rw [hnone, hzero]
    rfl

theorem reads_setReg_zero {r : Fin 8} (h : s.reg r = none ∨ s.reg r = some (.const 0)) :
    s.Reads (s.setReg r (some (.const 0))) where
  path := ⟨rfl, rfl, rfl, rfl, .inl rfl⟩
  pc := rfl
  ir := rfl
  ccRef := rfl
  mem := rfl
  lc3Out := rfl
  memStoringUninitReg := rfl
  reg x := by
    simp only [setReg]
    split
    · rename_i heq
      rw [heq]
      rcases h with h | h
      · exact .inr ⟨h, rfl⟩
      · exact .inl h.symm
    · exact .inl rfl

theorem reads_mark (s : State) (r : Reg) (ir : InstValue) : s.Reads (s.mark r ir) :=
  ⟨⟨rfl, rfl, rfl, rfl, .inl rfl⟩, rfl, rfl, rfl, rfl, rfl, rfl, fun _ => .inl rfl⟩

/-- The cell holds the value of an uninitialized register that is not `dr`. -/
def WarnsOnLoad (s : State) (addr : Word) (dr : Option (Fin 8)) : Prop :=
  (∃ value, s.mem.read addr = some value ∧ value.e = none) ∧
    ∃ r stored, s.memStoringUninitReg addr = some (r, stored) ∧ dr ≠ some r

/-- The entry of a cell is dropped. -/
def forget (s : State) (addr : Word) : State :=
  { s with memStoringUninitReg := fun x => if x = addr then none else s.memStoringUninitReg x }

end State

namespace Mach

variable {m m' : Mach} {ir : InstValue}

theorem newStateIssue_reads {type : IssueType} {location : Option InstValue} {note : String}
    (h : m.newStateIssue type location note = .ok m') : m.s.Reads m'.s := by
  obtain ⟨⟨trigger, hs⟩, -⟩ := newStateIssue_eq_ok h
  rw [hs]
  exact ⟨⟨rfl, rfl, rfl, rfl, .inl rfl⟩, rfl, rfl, rfl, rfl, rfl, rfl, fun _ => .inl rfl⟩

theorem getReg_reads {r : Fin 8} {e : WordExpr} (h : getReg m r ir = .ok (m', e)) :
    m.s.Reads m'.s ∧ e = (m.s.reg r).getD (.const 0) := by
  rcases getReg_eq_ok h with ⟨hreg, rfl⟩ | ⟨hnone, rfl, m₁, hraise, rfl⟩
  · exact ⟨.refl _, by rw [hreg]; rfl⟩
  · have hreads : m.s.Reads m₁.s := by
      rcases hraise with ⟨-, rfl⟩ | ⟨-, note, hraise⟩
      · exact .refl _
      · exact newStateIssue_reads hraise
    refine ⟨hreads.trans (State.reads_setReg_zero ?_), by rw [hnone]; rfl⟩
    rcases hreads.reg r with heq | ⟨-, hzero⟩
    · exact .inl (heq.trans hnone)
    · exact .inr hzero

theorem getCCExpr_reads {e : WordExpr} (h : getCCExpr m ir = .ok (m', e)) : m.s.Reads m'.s := by
  unfold getCCExpr at h
  split at h
  · cases h
    exact .refl _
  · rename_i hcc
    split at h
    · obtain ⟨m₁, hraise, h⟩ := Except.bind_eq_ok_iff.1 h
      cases h
      exact newStateIssue_reads hraise
    · rename_i r hr
      obtain ⟨m₁, hraise, h⟩ := Except.bind_eq_ok_iff.1 h
      cases h
      have hreads := newStateIssue_reads hraise
      have hnone : m.s.reg r = none := by
        rw [State.getCCExpr, hr] at hcc
        exact hcc
      have hzero := State.reads_setReg_zero (s := m₁.s) (r := r) (by
        rcases hreads.reg r with heq | ⟨-, hzero⟩
        · exact .inl (heq.trans hnone)
        · exact .inr hzero)
      refine hreads.trans ⟨⟨rfl, rfl, rfl, rfl, .inl rfl⟩, hzero.pc, hzero.ir, ?_, hzero.mem, hzero.lc3Out,
        hzero.memStoringUninitReg, hzero.reg⟩
      exact (hreads.ccRef.trans hr).symm

theorem solveBRCond_reads {ex : Executor} {br : Validity} {cond : Option BoolExpr}
    (h : ex.solveBRCond m ir = .ok (m', br, cond)) : m.s.Reads m'.s := by
  rcases Executor.solveBRCond_eq_ok h with ⟨-, rfl, -⟩ | ⟨-, rfl, -⟩ | ⟨-, -, e, hget, -⟩
  · exact .refl _
  · exact .refl _
  · exact getCCExpr_reads hget

theorem warnOnRead_reads {addr : Word} {value : MemValue}
    (h : warnOnRead m addr value ir = .ok m') : m.s.Reads m'.s := by
  unfold warnOnRead at h
  split at h
  · split at h
    · exact newStateIssue_reads h
    · cases h
      exact .refl _
  · exact newStateIssue_reads h

/-- A load returns what the cell holds, where null counts as 0 unless it goes back to the
register that it came from. The entry of the cell is dropped with the warning. -/
theorem memReadData_eq_ok {addr : Word} {dr : Option (Fin 8)} {value : Option WordExpr}
    (h : memReadData m addr ir dr = .ok (m', value)) :
    (value.getD (.const 0) = m.s.cellExpr addr) ∧
    ∃ u, m.s.Reads u ∧ ((m.s.WarnsOnLoad addr dr ∧ m'.s = u.forget addr) ∨
      (¬ m.s.WarnsOnLoad addr dr ∧ m'.s = u)) := by
  unfold memReadData at h
  unfold State.cellExpr
  split at h
  · rename_i hread
    obtain ⟨m₁, hraise, h⟩ := Except.bind_eq_ok_iff.1 h
    cases h
    rw [hread]
    refine ⟨rfl, m'.s, newStateIssue_reads hraise, .inr ⟨?_, rfl⟩⟩
    rintro ⟨⟨v, hv, -⟩, -⟩
    rw [hread] at hv
    cases hv
  · rename_i cell hread
    rw [hread]
    obtain ⟨m₁, hwarn, h⟩ := Except.bind_eq_ok_iff.1 h
    have hreads := warnOnRead_reads hwarn
    split at h
    · rename_i e he
      cases h
      refine ⟨by simp [he], m'.s, hreads, .inr ⟨?_, rfl⟩⟩
      rintro ⟨⟨v, hv, hnull⟩, -⟩
      rw [hread] at hv
      cases hv
      rw [he] at hnull
      cases hnull
    · rename_i hnull
      have hvalue : ((some cell).bind MemValue.e).getD (.const 0) = .const 0 := by simp [hnull]
      rw [hvalue]
      split at h
      · rename_i hentry
        cases h
        refine ⟨rfl, m'.s, hreads, .inr ⟨?_, rfl⟩⟩
        rintro ⟨-, r, stored, hsome, -⟩
        rw [hreads.memStoringUninitReg, hsome] at hentry
        cases hentry
      · rename_i r stored hentry
        rw [hreads.memStoringUninitReg] at hentry
        split at h
        · rename_i hdr
          cases h
          refine ⟨rfl, m'.s, hreads, .inr ⟨?_, rfl⟩⟩
          rintro ⟨-, r', stored', hsome, hne⟩
          rw [hentry] at hsome
          cases hsome
          exact hne hdr
        · rename_i hdr
          obtain ⟨m₂, hraise, h⟩ := Except.bind_eq_ok_iff.1 h
          cases h
          refine ⟨rfl, m₂.s, hreads.trans (newStateIssue_reads hraise), .inl ⟨?_, rfl⟩⟩
          exact ⟨⟨cell, hread, hnull⟩, r, stored, hentry, hdr⟩

theorem checkOverwrite_reads {addr : Word} {goesOn : Bool}
    (h : checkOverwrite m addr ir = .ok (m', goesOn)) : m.s.Reads m'.s := by
  unfold checkOverwrite at h
  split at h
  · obtain ⟨m₁, hraise, h⟩ := Except.bind_eq_ok_iff.1 h
    cases h
    exact newStateIssue_reads hraise
  · split at h
    · obtain ⟨m₁, hraise, h⟩ := Except.bind_eq_ok_iff.1 h
      cases h
      exact newStateIssue_reads hraise
    · cases h
      exact .refl _
  · obtain ⟨m₁, hraise, h⟩ := Except.bind_eq_ok_iff.1 h
    obtain ⟨_, _, h⟩ := Except.bind_eq_ok_iff.1 h
    cases h
    exact newStateIssue_reads hraise

/-- A store goes on unless the cell holds an instruction, which breaks the state. -/
theorem checkOverwrite_goesOn {addr : Word} {goesOn : Bool}
    (h : checkOverwrite m addr ir = .ok (m', goesOn)) :
    (goesOn = true ∧ ∀ i, m.s.mem.read addr ≠ some (.inst i)) ∨
      (goesOn = false ∧ (∃ i, m.s.mem.read addr = some (.inst i)) ∧ m'.s.status = .broken) := by
  unfold checkOverwrite at h
  split at h
  · rename_i hread
    obtain ⟨m₁, -, h⟩ := Except.bind_eq_ok_iff.1 h
    cases h
    exact .inl ⟨rfl, fun i hi => (by rw [hread] at hi; cases hi)⟩
  · rename_i d hread
    refine .inl ⟨?_, fun i hi => (by rw [hread] at hi; cases hi)⟩
    split at h
    · obtain ⟨m₁, -, h⟩ := Except.bind_eq_ok_iff.1 h
      cases h
      rfl
    · cases h
      rfl
  · rename_i i hread
    obtain ⟨m₁, -, h⟩ := Except.bind_eq_ok_iff.1 h
    obtain ⟨_, hassert, h⟩ := Except.bind_eq_ok_iff.1 h
    cases h
    exact .inr ⟨rfl, ⟨i, hread⟩, assertBroken_eq_ok hassert⟩

theorem warnOnAndOperand_reads {r : Fin 8} {other : Option WordExpr}
    (hr : m.s.reg r = none ∨ m.s.reg r = some (.const 0))
    (h : warnOnAndOperand m r other ir = .ok m') : m.s.Reads m'.s := by
  unfold warnOnAndOperand at h
  split at h
  · obtain ⟨m₁, hraise, h⟩ := Except.bind_eq_ok_iff.1 h
    cases h
    have hreads := newStateIssue_reads hraise
    refine hreads.trans ((State.reads_setReg_zero ?_).trans (State.reads_mark _ _ _))
    rcases hreads.reg r with heq | ⟨-, hzero⟩
    · rw [heq]
      exact hr
    · exact .inr hzero
  · cases h
    exact .refl _

theorem checkRetInMainCode_reads (h : checkRetInMainCode m ir = .ok m') : m.s.Reads m'.s := by
  rcases checkRetInMainCode_eq_ok h with ⟨-, -, -, ⟨color, hcolor⟩, m₁, note, hraise, rfl⟩ | ⟨-, rfl⟩
  · have hreads := newStateIssue_reads hraise
    have hpath := hreads.path
    exact ⟨⟨hpath.colorStack, hpath.jsrStack, hpath.latestInst, hpath.latestNonOSInst,
      .inr ⟨rfl, by rw [hcolor]; rfl⟩⟩, hreads.pc, hreads.ir, hreads.ccRef, hreads.mem, hreads.lc3Out,
      hreads.memStoringUninitReg, hreads.reg⟩
  · exact .refl _

/-- A store is refused at an instruction. Otherwise it changes the cell and its entry, and
prints at most one character. -/
theorem memWriteData_writes {addr : Word} {value : Option WordExpr}
    (h : memWriteData m addr value ir = .ok m') :
    ∃ u, m.s.Reads u ∧
      (((∃ i, m.s.mem.read addr = some (.inst i)) ∧ m'.s = u ∧ u.status = .broken) ∨
        ((∀ i, m.s.mem.read addr ≠ some (.inst i)) ∧ ∃ v out, (u.store addr value ir).Reads v ∧
          out.length ≤ 1 ∧ m'.s = { v with lc3Out := v.lc3Out ++ out })) := by
  rcases memWriteData_eq_ok h with hcheck | ⟨e, rfl, -, -, hhalt⟩ | ⟨m₁, hcheck, -, hstore⟩
  · rcases checkOverwrite_goesOn hcheck with ⟨hfalse, -⟩ | ⟨-, hinst, hbroken⟩
    · cases hfalse
    · exact ⟨m'.s, checkOverwrite_reads hcheck, .inl ⟨hinst, rfl, hbroken⟩⟩
  · refine ⟨m.s, .refl _, .inr ⟨fun i hi => (by cases hi), m'.s, [], ?_, by simp, by simp⟩⟩
    cases hhalt with
    | trap last _ _ h =>
        subst h
        exact ⟨⟨rfl, rfl, rfl, rfl, .inl rfl⟩, rfl, rfl, rfl, rfl, rfl, rfl, fun _ => .inl rfl⟩
    | manual last note _ _ h =>
        have hreads := newStateIssue_reads h
        have hpath := hreads.path
        exact ⟨⟨hpath.colorStack, hpath.jsrStack, hpath.latestInst, hpath.latestNonOSInst,
          hpath.messedUp⟩, hreads.pc, hreads.ir, hreads.ccRef, hreads.mem, hreads.lc3Out,
          hreads.memStoringUninitReg, hreads.reg⟩
  · rcases checkOverwrite_goesOn hcheck with ⟨-, hinst⟩ | ⟨hfalse, -⟩
    · refine ⟨m₁.s, checkOverwrite_reads hcheck, .inr ⟨hinst, ?_⟩⟩
      cases hstore with
      | plain _ h =>
          subst h
          exact ⟨_, [], .refl _, by simp, by rw [List.append_nil]⟩
      | display e _ _ h =>
          subst h
          exact ⟨_, [e], .refl _, by simp, rfl⟩
      | displayNull m₂ note _ _ hraise h =>
          subst h
          exact ⟨m₂.s, [.const 0], newStateIssue_reads hraise, by simp, rfl⟩
    · cases hfalse

/-- The memory after a store. -/
theorem memWriteData_mem {addr : Word} {value : Option WordExpr}
    (h : memWriteData m addr value ir = .ok m') :
    ((∃ i, m.s.mem.read addr = some (.inst i)) ∧ m'.s.mem = m.s.mem ∧ m'.s.status = .broken) ∨
      ((∀ i, m.s.mem.read addr ≠ some (.inst i)) ∧ m'.s.mem = m.s.mem.store addr value) := by
  obtain ⟨u, hreads, ⟨hinst, hs, hbroken⟩ | ⟨hinst, v, out, hv, -, hs⟩⟩ := memWriteData_writes h
  · exact .inl ⟨hinst, by rw [hs, hreads.mem], by rw [hs, hbroken]⟩
  · refine .inr ⟨hinst, ?_⟩
    rw [hs, ← hreads.mem]
    exact hv.mem

end Mach

end Klc3
