import Klc3.Verification.Executor.Step

/-!
# Errors are terminal, with one exception

An error that is raised on a state during a step leaves it `BROKEN`. The exception is
a store through an uninitialized base register that stops the clock: the store is
made although the state is broken already, and sets the status to `HALTED`.
-/

namespace Klc3

/-- The issues raised on a result state during a step. -/
def State.raisedSince (t s : State) : List Issue :=
  t.issueLog.drop s.issueLog.length

namespace Mach

variable {m m' m'' : Mach} {ir : InstValue}

/-- Errors raised between `m` and `m'` leave the state broken. -/
def Terminal (m m' : Mach) : Prop :=
  ∃ ev, Frame Any ev m m' ∧ (m.pkg.anyError ev → m'.s.status = .broken)

theorem Effects.terminal (h : Effects Any m m') : Terminal m m' :=
  let ⟨ev, h⟩ := h
  ⟨ev, h.toFrame, h.broken⟩

/-- A first part that leaves the state `NORMAL` has raised no error. -/
theorem Terminal.of_normal (h : Effects Any m m') (hnormal : m'.s.status = .normal)
    (h' : Terminal m' m'') : Terminal m m'' := by
  obtain ⟨ev, h⟩ := h
  obtain ⟨ev', hframe, hbroken⟩ := h'
  refine ⟨ev ++ ev', h.toFrame.trans hframe, fun herror => ?_⟩
  rcases IssuePackage.anyError_append.1 herror with herror | herror
  · rw [h.broken herror] at hnormal
    cases hnormal
  · exact hbroken ((IssuePackage.anyError_congr ev' h.raises.issueLevel).2 herror)

theorem Terminal.raisedSince (h : Terminal m m')
    (herror : m.pkg.anyError (m'.s.raisedSince m.s)) : m'.s.status = .broken := by
  obtain ⟨ev, hframe, hbroken⟩ := h
  refine hbroken ?_
  simpa [State.raisedSince, hframe.issueLog] using herror

theorem Halting.terminal (h : Halting m m') : Terminal m m' := by
  have hframe := setStatus_frame .halted (all_any m.s)
  cases h with
  | trap last _ _ h => exact h ▸ ⟨[], hframe, by simp⟩
  | manual last note _ _ h =>
      have heff := newStateIssueWith_effect hframe.all h
      exact ⟨_, hframe.trans heff.toFrame, fun herror => heff.broken herror⟩

/-- A store by itself is no exception. -/
theorem memWriteData_terminal {addr : Word} {value : Option WordExpr}
    (h : memWriteData m addr value ir = .ok m') : Terminal m m' := by
  rcases memWriteData_eq_ok h with h | ⟨e, -, -, -, h⟩ | ⟨m₁, hcheck, -, h⟩
  · exact (checkOverwrite_effects (all_any _) h).terminal
  · have hstore := store_effect addr ir (all_any m.s) fun _ (_ : value = some _) => trivial
    obtain ⟨ev, hframe, hbroken⟩ := h.terminal
    exact ⟨[] ++ ev, hstore.toFrame.trans hframe, fun herror => hbroken herror⟩
  · have heff := checkOverwrite_effects (all_any m.s) hcheck
    exact (heff.trans (h.effects closed_any heff.all fun _ _ => trivial)).terminal

theorem executeSimple_terminal (h : Executor.executeSimple m ir = .ok m') : Terminal m m' := by
  by_cases hST : ir.instID = .ST
  · simp only [Executor.executeSimple, hST] at h
    exact memWriteData_terminal h
  · by_cases hinstant : ir.instID = .TRAP ∧ ir.sourceContent = "INSTANT_HALT"
    · simp only [Executor.executeSimple, hinstant.1, executeTRAP, hinstant.2, if_true] at h
      cases h
      exact ⟨[], setStatus_frame _ (all_any _), by simp⟩
    · exact (executeSimple_effects closed_any (all_any _) hST
        (fun h1 h2 => hinstant ⟨h1, h2⟩) h).terminal

end Mach

namespace Executor

variable {ex ex' : Executor} {m m' : Mach} {ir : InstValue} {r : StepResult}

/-- The instances of any fork are copies, whatever the solver answers. -/
theorem forkOnValues_copy {s : State} {single : Bool} {uid : Nat}
    {values : List PossibleValues.Value} {instances : List (Word × State)}
    (h : forkOnValues s single uid values = .ok instances) : ∀ i ∈ instances, s.Copy i.2 := by
  induction values generalizing uid instances with
  | nil =>
      cases h
      simp
  | cons value rest ih =>
      obtain ⟨v, c⟩ := value
      have hadd : ∀ {s' t : State} (tag : State.Tag), s' = s.tagged tag →
          s'.addConstraint c = .ok t → s.Copy t := by
        intro s' t tag htag hadd
        obtain ⟨cs, -, rfl⟩ := State.addConstraint_eq_ok hadd
        subst htag
        exact ⟨⟨tag.uid, cs, tag.triggerNewIssue, tag.coveredNewEdge, tag.coveredNewSegment,
          tag.avoidLoopReductionPostpone⟩, rfl⟩
      cases rest with
      | nil =>
          unfold forkOnValues at h
          dsimp only at h
          split at h
          · cases h
            simpa using .refl s
          · obtain ⟨t, ht, h⟩ := Except.bind_eq_ok_iff.1 h
            cases h
            simpa using hadd _ (State.Copy.refl s).choose_spec ht
      | cons value' rest =>
          obtain ⟨t₀, hfork, h⟩ := Except.bind_eq_ok_iff.1 h
          obtain ⟨t, ht, h⟩ := Except.bind_eq_ok_iff.1 h
          obtain ⟨others, hothers, h⟩ := Except.bind_eq_ok_iff.1 h
          cases h
          obtain ⟨-, rfl⟩ := State.fork_eq_ok hfork
          rintro i hi
          rcases List.mem_cons.1 hi with rfl | hi
          · exact hadd ⟨uid, s.constraints, false, false, false, false⟩ rfl ht
          · exact ih hothers i hi

/-- Errors raised on the results after `m` leave them broken. -/
def TerminalFrom (m : Mach) (r : StepResult) : Prop :=
  ∀ t ∈ r.states, ∃ ev, t.issueLog = m.s.issueLog ++ ev ∧
    (m.pkg.anyError ev → t.status = .broken)

theorem TerminalFrom.of_terminal (h : m.Terminal m') : TerminalFrom m ⟨ex, m'.pkg, [m'.s]⟩ := by
  obtain ⟨ev, hframe, hbroken⟩ := h
  intro t ht
  obtain rfl := List.mem_singleton.1 ht
  exact ⟨ev, hframe.issueLog, hbroken⟩

theorem TerminalFrom.of_normal (h : m.Effects Mach.Any m') (hnormal : m'.s.status = .normal)
    (h' : TerminalFrom m' r) : TerminalFrom m r := by
  obtain ⟨ev, h⟩ := h
  intro t ht
  obtain ⟨ev', hlog, hbroken⟩ := h' t ht
  refine ⟨ev ++ ev', by rw [hlog, h.issueLog, List.append_assoc], fun herror => ?_⟩
  rcases IssuePackage.anyError_append.1 herror with herror | herror
  · rw [h.broken herror] at hnormal
    cases hnormal
  · exact hbroken ((IssuePackage.anyError_congr ev' h.raises.issueLevel).2 herror)

theorem handleExpr_terminal {addr : WordExpr} {access : Mach → Word → Except Abort Mach}
    (haccess : ∀ {m m' : Mach} {addr : Word}, access m addr = .ok m' → m.Terminal m')
    (h : ex.handleExpr m addr access = .ok r) : TerminalFrom m r := by
  unfold handleExpr at h
  split at h
  · obtain ⟨m₁, hrun, h⟩ := Except.bind_eq_ok_iff.1 h
    cases h
    exact .of_terminal (haccess hrun)
  · obtain ⟨⟨ex₁, instances⟩, hfork, h⟩ := Except.bind_eq_ok_iff.1 h
    dsimp only at h
    split at h
    · cases h
    · obtain ⟨⟨pkg, states⟩, heach, h⟩ := Except.bind_eq_ok_iff.1 h
      cases h
      obtain ⟨⟨ex₂, values⟩, -, hfork⟩ := Except.bind_eq_ok_iff.1 hfork
      obtain ⟨instances', hfork, heq⟩ := Except.bind_eq_ok_iff.1 hfork
      cases heq
      have hcopy := forkOnValues_copy hfork
      obtain ⟨hall, -⟩ := accessEach_rule
        (I := fun pkg => pkg.issueLevel = m.pkg.issueLevel)
        (R := fun _ t => ∃ ev, t.issueLog = m.s.issueLog ++ ev ∧
          (m.pkg.anyError ev → t.status = .broken)) rfl (by
          intro i hi pkg m' hpkg hrun
          obtain ⟨ev, hframe, hbroken⟩ := haccess hrun
          refine ⟨⟨ev, by rw [hframe.issueLog, (hcopy i hi).issueLog], fun herror => ?_⟩,
            hframe.raises.issueLevel.trans hpkg⟩
          exact hbroken ((IssuePackage.anyError_congr ev hpkg).2 herror)) heach
      intro t ht
      obtain ⟨i, -, hR⟩ := hall.exists_left ht
      exact hR

theorem readMidAddr_terminal {access : Mach → Mach → Word → Except Abort Mach}
    (haccess : ∀ {m₁ m m' : Mach} {addr : Word}, access m₁ m addr = .ok m' → m.Terminal m')
    (h : ex.readMidAddr m ir (fun m addr => ex.handleExpr m addr (access m)) = .ok r) :
    TerminalFrom m r := by
  obtain ⟨m₁, midAddr, hread, h⟩ := readMidAddr_eq_ok h
  obtain ⟨heff, -⟩ := Mach.memReadData_effects Mach.closed_any (Mach.all_any _) hread
  rcases h with ⟨-, rfl⟩ | ⟨hnormal, e, -, h⟩
  · exact .of_terminal heff.terminal
  · exact .of_normal heff hnormal (handleExpr_terminal haccess h)

theorem loadFrom_terminal {addr : Word} (h : loadFrom ir m addr = .ok m') : m.Terminal m' :=
  (Mach.loadFrom_effects Mach.closed_any (Mach.all_any _) h).terminal

theorem executeBR_terminal (h : ex.executeBR m ir = .ok r) : TerminalFrom m r := by
  obtain ⟨m₁, br, brCond, hsolve, h⟩ := executeBR_eq_ok h
  have heff := solveBRCond_effects Mach.closed_any (Mach.all_any _) hsolve
  rcases h with ⟨-, rfl⟩ | ⟨-, rfl⟩ | ⟨-, hnormal, c, cs₀, cs₁, -, -, -, rfl⟩
  · exact .of_terminal (heff.trans (Mach.jump_effects heff.all)).terminal
  · exact .of_terminal heff.terminal
  · refine .of_normal heff hnormal fun t ht => ⟨[], ?_, by simp⟩
    simp only [List.mem_cons, List.not_mem_nil, or_false] at ht
    rcases ht with rfl | rfl
    · simp [State.tagged]
    · simp [State.jump, State.mark]

/-- With an uninitialized base register the address is the offset. -/
theorem handleExpr_null_base {access : Mach → Word → Except Abort Mach}
    (h : ex.handleExpr m (ExprBuilder.add (.const 0) (.const ir.imm6)) access = .ok r) :
    ∃ m', access m ir.imm6 = .ok m' ∧ r = ⟨ex, m'.pkg, [m'.s]⟩ := by
  have hadd : ExprBuilder.add (.const 0) (.const ir.imm6) = .const ir.imm6 := by
    simp [ExprBuilder.add, ExprBuilder.addConst]
  rw [hadd] at h
  obtain ⟨m', hrun, h⟩ := Except.bind_eq_ok_iff.1 h
  cases h
  exact ⟨m', hrun, rfl⟩

theorem executeLDR_terminal (hload : ex.executeLDR m ir = .ok r) : TerminalFrom m r := by
  obtain ⟨⟨m₁, base⟩, hget, h⟩ := Except.bind_eq_ok_iff.1 hload
  obtain ⟨heff, -⟩ := Mach.getReg_effects Mach.closed_any (Mach.all_any _) hget
  rcases Mach.getReg_eq_ok hget with ⟨-, rfl⟩ | ⟨-, rfl, -⟩
  · exact handleExpr_terminal loadFrom_terminal h
  · obtain ⟨m', hrun, rfl⟩ := handleExpr_null_base h
    exact .of_terminal
      (heff.trans (Mach.loadFrom_effects Mach.closed_any heff.all hrun)).terminal

/-! ## Stores relative to a register -/

/-- A store through an uninitialized base register, which is an error, that stops the
clock, which is not one. -/
structure HaltsAfterError (m : Mach) (ir : InstValue) : Prop where
  status : m.s.status = .normal
  fetched : m.s.mem.read m.s.pc = some (.inst ir)
  inst : ir.instID = .STR
  user : ir.belongsToOS = false
  base : m.s.reg ir.baseR = none
  mcr : ir.imm6 = 0xFFFE
  halts : ∃ e, m.s.reg ir.sr = some e ∧ e.halts = true
  uninitialized : m.pkg.issueLevel .warnUseUninitializedRegister = some .error
  manualHalt : m.pkg.issueLevel .warnManualHalt ≠ some .error

/-- Everything that happens when the base register of `STR` is uninitialized. -/
theorem executeSTR_null_base (hbase : m.s.reg ir.baseR = none) (h : ex.executeSTR m ir = .ok r) :
    ∃ m₀ m₁ m', (ir.belongsToOS = true ∧ m₀ = m ∨ ir.belongsToOS = false ∧
        ∃ note, m.newStateIssue .warnUseUninitializedRegister ir note = .ok m₀) ∧
      m₁ = ⟨m₀.s.setReg ir.baseR (some (.const 0)), m₀.pkg⟩ ∧ m.Effects Mach.Any m₁ ∧
      memWriteData m₁ ir.imm6 (m.s.reg ir.sr) ir = .ok m' ∧ r = ⟨ex, m'.pkg, [m'.s]⟩ := by
  obtain ⟨⟨m₁, base⟩, hget, h⟩ := Except.bind_eq_ok_iff.1 h
  obtain ⟨heff, -⟩ := Mach.getReg_effects Mach.closed_any (Mach.all_any _) hget
  rcases Mach.getReg_eq_ok hget with ⟨hreg, -⟩ | ⟨-, rfl, m₀, hraise, hm₁⟩
  · rw [hbase] at hreg
    cases hreg
  · obtain ⟨m', hrun, hr⟩ := handleExpr_null_base h
    exact ⟨m₀, m₁, m', hraise, hm₁, heff, hrun, hr⟩

theorem executeSTR_terminal (hnormal : m.s.status = .normal) (hinst : ir.instID = .STR)
    (hlatest : ir.belongsToOS = false → m.s.latestNonOSInst.1 = some ir)
    (hsafe : ir.belongsToOS = false → m.s.reg ir.baseR = none → ir.imm6 = 0xFFFE →
      (∃ e, m.s.reg ir.sr = some e ∧ e.halts = true) →
      m.pkg.issueLevel .warnUseUninitializedRegister = some .error →
      m.pkg.issueLevel .warnManualHalt = some .error)
    (hrun : ex.executeSTR m ir = .ok r) : TerminalFrom m r := by
  cases hbase : m.s.reg ir.baseR with
  | some e =>
      obtain ⟨⟨m₁, base⟩, hget, h⟩ := Except.bind_eq_ok_iff.1 hrun
      rcases Mach.getReg_eq_ok hget with ⟨-, rfl⟩ | ⟨hnone, -⟩
      · exact handleExpr_terminal Mach.memWriteData_terminal h
      · rw [hbase] at hnone
        cases hnone
  | none =>
      obtain ⟨m₀, m₁, m', hraise, hm₁, heff, hwrite, rfl⟩ := executeSTR_null_base hbase hrun
      by_cases hnormal₁ : m₁.s.status = .normal
      · exact .of_normal heff hnormal₁ (.of_terminal (Mach.memWriteData_terminal hwrite))
      · -- the report of the base register has broken the state
        have hlevel : ir.belongsToOS = false ∧
            m.pkg.issueLevel .warnUseUninitializedRegister = some .error := by
          rcases hraise with ⟨-, rfl⟩ | ⟨huser, note, hraise⟩
          · exact absurd (by rw [hm₁]; exact hnormal) hnormal₁
          · refine ⟨huser, ?_⟩
            by_contra hlevel
            obtain ⟨⟨trigger, hs⟩, -⟩ := Mach.newStateIssue_eq_ok hraise
            refine hnormal₁ ?_
            rw [hm₁]
            change m₀.s.status = _
            rw [hs, if_neg hlevel]
            exact hnormal
        rcases Mach.memWriteData_eq_ok hwrite with hcheck | ⟨e, haddr, hvalue, he, hhalt⟩ |
          ⟨m₂, hcheck, -, hstore⟩
        · exact .of_terminal (heff.trans (Mach.checkOverwrite_effects heff.all hcheck)).terminal
        · have hlast : m₁.s.latestNonOSInst.1 = some ir := by
            rw [heff.same.latestNonOSInst]
            exact hlatest hlevel.1
          have hmanual := hsafe hlevel.1 hbase haddr ⟨e, hvalue, he⟩ hlevel.2
          obtain ⟨ev, hframe, -⟩ := Mach.memWriteData_terminal hwrite
          intro t ht
          obtain rfl := List.mem_singleton.1 ht
          obtain ⟨ev₁, heff⟩ := heff
          refine ⟨ev₁ ++ ev, by rw [hframe.issueLog, heff.issueLog, List.append_assoc], fun _ => ?_⟩
          cases hhalt with
          | trap last hlast' htrap =>
              have heq : last = ir := by
                have := hlast'.symm.trans hlast
                exact Option.some.inj this
              rw [heq, hinst] at htrap
              cases htrap
          | manual last note hlast' _ hraise' =>
              refine (Mach.newStateIssueWith_effect (Mach.all_any _) hraise').broken ?_
              rw [IssuePackage.anyError_singleton]
              change m₁.pkg.issueLevel .warnManualHalt = _
              rw [heff.raises.issueLevel, hmanual]
        · have heff₂ := Mach.checkOverwrite_effects heff.all hcheck
          exact .of_terminal (heff.trans (heff₂.trans
            (hstore.effects Mach.closed_any heff₂.all fun _ _ => trivial))).terminal

/-- The exception: the error was raised, and the state is `HALTED`. -/
theorem executeSTR_exception (hinst : ir.instID = .STR) (huser : ir.belongsToOS = false)
    (hlatest : m.s.latestNonOSInst.1 = some ir) (hbase : m.s.reg ir.baseR = none)
    (hmcr : ir.imm6 = 0xFFFE)
    (hhalts : ∃ e, m.s.reg ir.sr = some e ∧ e.halts = true)
    (hmanual : m.pkg.issueLevel .warnManualHalt ≠ some .error)
    (h : ex.executeSTR m ir = .ok r) :
    ∃ t ∈ r.states, t.status = .halted ∧ ∃ ev, t.issueLog =
      m.s.issueLog ++ (m.issueOf .warnUseUninitializedRegister ir :: ev) := by
  obtain ⟨m₀, m₁, m', hraise, hm₁, heff, hwrite, rfl⟩ := executeSTR_null_base hbase h
  rcases hraise with ⟨hos, -⟩ | ⟨-, note, hraise⟩
  · rw [huser] at hos
    cases hos
  · obtain ⟨⟨trigger, hs⟩, hraises⟩ := Mach.newStateIssue_eq_ok hraise
    obtain ⟨e, hvalue, he⟩ := hhalts
    have hlast : m₁.s.latestNonOSInst.1 = some ir := by
      rw [heff.same.latestNonOSInst]
      exact hlatest
    have hlog : m₁.s.issueLog =
        m.s.issueLog ++ [m.issueOf .warnUseUninitializedRegister ir] := by
      rw [hm₁]
      change m₀.s.issueLog = _
      rw [hs]
    refine ⟨m'.s, by simp, ?_⟩
    rw [hmcr] at hwrite
    rcases Mach.memWriteData_eq_ok hwrite with hcheck | ⟨-, -, -, -, hhalt⟩ | ⟨m₂, -, hnot, -⟩
    · exact absurd (Mach.checkOverwrite_mcr hcheck).2 (by simp)
    · cases hhalt with
      | trap last hlast' htrap =>
          have heq : last = ir := Option.some.inj (hlast'.symm.trans hlast)
          rw [heq, hinst] at htrap
          cases htrap
      | manual last note' hlast' _ hraise' =>
          obtain ⟨⟨trigger', hs'⟩, -⟩ := Mach.newStateIssue_eq_ok hraise'
          rw [hs']
          refine ⟨?_, ?_⟩
          · have hlevel : m₁.pkg.issueLevel .warnManualHalt ≠ some .error := by
              rw [heff.issueLevel]
              exact hmanual
            exact if_neg hlevel
          · change ∃ ev, m₁.s.issueLog ++ _ = _
            rw [hlog]
            exact ⟨_, by rw [List.append_assoc]; rfl⟩
    · obtain ⟨e', he', hfalse⟩ := hnot rfl
      rw [hvalue] at he'
      cases he'
      rw [he] at hfalse
      cases hfalse

/-! ## Whole steps -/

/-- Every error raised on a result of the step leaves that result `BROKEN`. -/
def ErrorsBreak (m : Mach) (r : StepResult) : Prop :=
  ∀ t ∈ r.states, m.pkg.anyError (t.raisedSince m.s) → t.status = .broken

theorem TerminalFrom.errorsBreak (h : TerminalFrom m r) : ErrorsBreak m r := by
  intro t ht herror
  obtain ⟨ev, hlog, hbroken⟩ := h t ht
  refine hbroken ?_
  simpa [State.raisedSince, hlog] using herror

theorem execute_terminal (hnormal : m.s.status = .normal)
    (hlatest : ir.belongsToOS = false → m.s.latestNonOSInst.1 = some ir)
    (hsafe : ir.instID = .STR → ir.belongsToOS = false → m.s.reg ir.baseR = none →
      ir.imm6 = 0xFFFE → (∃ e, m.s.reg ir.sr = some e ∧ e.halts = true) →
      m.pkg.issueLevel .warnUseUninitializedRegister = some .error →
      m.pkg.issueLevel .warnManualHalt = some .error)
    (h : ex.execute m ir = .ok r) : TerminalFrom m r := by
  unfold execute at h
  split at h
  · exact executeBR_terminal h
  · exact executeLDR_terminal h
  · exact readMidAddr_terminal (fun hload => loadFrom_terminal hload) h
  · rename_i hinst
    exact executeSTR_terminal hnormal hinst hlatest (hsafe hinst) h
  · exact readMidAddr_terminal (fun hstore => Mach.memWriteData_terminal hstore) h
  · obtain ⟨m₁, hsimple, h⟩ := Except.bind_eq_ok_iff.1 h
    cases h
    exact .of_terminal (Mach.executeSimple_terminal hsimple)

/-- An error is terminal in a step exactly when the step is not a store through an
uninitialized base register that stops the clock. -/
theorem errors_break_iff (h : ex.step m = .ok r) :
    ErrorsBreak m r ↔ ¬ ∃ ir, HaltsAfterError m ir := by
  rcases step_eq_ok h with ⟨type, note, m', hread, hraise, -, rfl⟩ |
    ⟨ir, hread, ⟨hstatus, rfl⟩ | ⟨hnormal, hrun⟩⟩
  · refine iff_of_true (TerminalFrom.of_terminal
      (Mach.newStateIssue_effects (Mach.all_any _) hraise).terminal).errorsBreak ?_
    rintro ⟨ir, hexc⟩
    rcases hread with ⟨hread, -⟩ | ⟨⟨d, hread⟩, -⟩
    · rw [hexc.fetched] at hread
      cases hread
    · rw [hexc.fetched] at hread
      cases hread
  · refine iff_of_true (TerminalFrom.of_terminal
      (Mach.Effects.refl (Mach.all_any m.s)).terminal).errorsBreak ?_
    rintro ⟨ir', hexc⟩
    exact hstatus hexc.status
  · have hlatest : ir.belongsToOS = false → (m.fetched ir).s.latestNonOSInst.1 = some ir := by
      intro huser
      simp [Mach.fetched, recordFetch, State.jump, State.mark, huser]
    constructor
    · rintro hbreak ⟨ir', hexc⟩
      obtain rfl : ir' = ir := by
        have heq := hexc.fetched.symm.trans hread
        cases heq
        rfl
      simp only [execute, hexc.inst] at hrun
      obtain ⟨t, ht, hhalted, ev, hlog⟩ := executeSTR_exception hexc.inst hexc.user
        (hlatest hexc.user) hexc.base hexc.mcr hexc.halts hexc.manualHalt hrun
      have hbroken := hbreak t ht ⟨(m.fetched ir').issueOf .warnUseUninitializedRegister ir', ?_,
        hexc.uninitialized⟩
      · rw [hhalted] at hbroken
        cases hbroken
      · have hsame : (m.fetched ir').s.issueLog = m.s.issueLog := rfl
        simp [State.raisedSince, hlog, hsame]
    · intro hnone
      refine TerminalFrom.errorsBreak (m := m) ?_
      refine execute_terminal (m := m.fetched ir) hnormal hlatest ?_ hrun
      intro hinst huser hbase hmcr hhalts hlevel
      by_contra hmanual
      exact hnone ⟨ir, hnormal, hread, hinst, huser, hbase, hmcr, hhalts, hlevel, hmanual⟩

theorem matchInst_clear : matchInst 0x5020 = some ⟨.ANDi, .RRI, 0xF020, 0x5020⟩ := by decide

/-- `AND R0, R0, #0` and `STR R0, R1, #-2`: the clock is stopped through an
uninitialized base register. -/
def haltThroughNullBase (addr : Word) : Option MemValue :=
  if addr = 0x3000 then some (.inst ⟨0x3000, 0x5020, ⟨.ANDi, .RRI, 0xF020, 0x5020⟩, matchInst_clear,
    false, [], "sample.asm", 1, "AND R0, R0, #0"⟩)
  else if addr = 0x3001 then some (.inst ⟨0x3001, 0x707E, ⟨.STR, .RRI6, 0xF000, 0x7000⟩, by decide,
    false, [], "sample.asm", 2, "STR R0, R1, #-2"⟩)
  else none

/-- The issue levels with the use of an uninitialized register as an error. -/
def strictPackage : IssuePackage :=
  { IssuePackage.empty with issueLevel := fun t =>
      if t = .warnUseUninitializedRegister then some .error
      else IssuePackage.empty.issueLevel t }

/-- The executor of `haltThroughNullBase` after its first instruction. -/
noncomputable def afterAND : Except Abort StepResult :=
  (new .ideal 0 haltThroughNullBase).step ⟨State.init 0 haltThroughNullBase 0x3000, strictPackage⟩

theorem error_then_halted :
    IssuePackage.empty.setIssueTypeLevel .warnUseUninitializedRegister .error =
      .ok strictPackage ∧
    ∃ r s r', afterAND = .ok r ∧ r.states = [s] ∧ r.ex.step ⟨s, r.pkg⟩ = .ok r' ∧
      ¬ ErrorsBreak ⟨s, r.pkg⟩ r' := by
  refine ⟨rfl, _, _, _, rfl, rfl, rfl, fun hbreak => ?_⟩
  have hbroken := hbreak _ List.mem_cons_self ⟨_, List.mem_cons_self, rfl⟩
  cases hbroken

theorem errors_break_iff_afterAND : ∃ r, afterAND = .ok r ∧
    (ErrorsBreak ⟨State.init 0 haltThroughNullBase 0x3000, strictPackage⟩ r ↔
      ¬ ∃ ir, HaltsAfterError ⟨State.init 0 haltThroughNullBase 0x3000, strictPackage⟩ ir) :=
  ⟨_, rfl, errors_break_iff rfl⟩

end Executor

end Klc3
