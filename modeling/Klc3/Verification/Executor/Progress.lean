import Klc3.Verification.Executor.Step

/-!
# When a step fails

A step of a `NORMAL` state fails in exactly four situations: an unsupported instruction
whose issue type has no level, a trap through a vector that is not constant, an
uninitialized register stored to MCR, and a clock that is stopped before the first user
instruction. Everything else a step asserts always holds.
-/

namespace Klc3

namespace IssuePackage

/-- The issue packages that the loader can build: levels are set by
`setIssueTypeLevel`, types are added by `registerIssue`. -/
inductive Configured : IssuePackage → Prop
  | empty : Configured .empty
  | setLevel {pkg pkg' : IssuePackage} {type : IssueType} {level : Level} (h : Configured pkg)
      (hset : pkg.setIssueTypeLevel type level = .ok pkg') : Configured pkg'
  | register {pkg : IssuePackage} (name : String) (level : Level) (h : Configured pkg) :
      Configured (pkg.registerIssue name level).1
  | raise {pkg pkg' : IssuePackage} {type : IssueType} {location : Option Location}
      {info : IssueInfo} {accepted : Bool} (h : Configured pkg)
      (hraise : pkg.raiseIssue type location info = .ok (pkg', accepted)) : Configured pkg'

/-- Levels under which every assertion about levels holds, except for the missing one of
`ERR_INVALID_INST`. -/
structure Leveled (lv : IssueType → Option Level) : Prop where
  known : ∀ type, acceptsAllLevels type = true → ∃ level, lv type = some level
  fatal : ∀ type, mustBeError type = true → type ≠ .errInvalidInst → lv type = some .error
  invalid : lv .errInvalidInst = none ∨ lv .errInvalidInst = some .error

theorem setIssueTypeLevel_leveled {pkg pkg' : IssuePackage} {type : IssueType} {level : Level}
    (hlv : Leveled pkg.issueLevel) (h : pkg.setIssueTypeLevel type level = .ok pkg') :
    Leveled pkg'.issueLevel := by
  unfold setIssueTypeLevel at h
  split at h
  · rename_i haccepts
    cases h
    refine ⟨fun t ht => ?_, fun t ht hne => ?_, ?_⟩
    · dsimp only
      split
      · exact ⟨level, rfl⟩
      · exact hlv.known t ht
    · dsimp only
      rw [if_neg]
      · exact hlv.fatal t ht hne
      · rintro rfl
        revert ht haccepts
        cases t <;> simp [acceptsAllLevels, mustBeError]
    · dsimp only
      rw [if_neg]
      · exact hlv.invalid
      · rintro rfl
        cases haccepts
  · rename_i haccepts
    split at h
    · split at h
      · cases h
      · rename_i hmust hlevel
        cases h
        have hlevel : level = .error := by simpa using hlevel
        subst hlevel
        refine ⟨fun t ht => ?_, fun t ht hne => ?_, ?_⟩
        · dsimp only
          split
          · exact ⟨_, rfl⟩
          · exact hlv.known t ht
        · dsimp only
          split
          · rfl
          · exact hlv.fatal t ht hne
        · dsimp only
          split
          · exact .inr rfl
          · exact hlv.invalid
    · cases h

theorem Configured.leveled {pkg : IssuePackage} (h : Configured pkg) : Leveled pkg.issueLevel := by
  induction h with
  | empty =>
      refine ⟨fun t ht => ?_, fun t ht hne => ?_, .inl rfl⟩
      · revert ht
        cases t <;> simp [acceptsAllLevels, IssuePackage.empty, defaultIssueLevel]
      · revert ht hne
        cases t <;> simp [mustBeError, IssuePackage.empty, defaultIssueLevel]
  | setLevel _ hset ih => exact setIssueTypeLevel_leveled ih hset
  | register name level _ ih =>
      refine ⟨fun t ht => ?_, fun t ht hne => ?_, ?_⟩
      · obtain ⟨level', hlevel'⟩ := ih.known t ht
        simp only [registerIssue]
        split
        · exact ⟨_, rfl⟩
        · exact ⟨level', hlevel'⟩
      · simp only [registerIssue]
        rw [if_neg]
        · exact ih.fatal t ht hne
        · rintro rfl
          cases ht
      · simp only [registerIssue]
        rw [if_neg (by simp)]
        exact ih.invalid
  | raise _ hraise ih =>
      rename_i pkg pkg' type location info accepted _
      have hlevel : pkg'.issueLevel = pkg.issueLevel := by
        unfold raiseIssue at hraise
        obtain ⟨level, -, hraise⟩ := Except.bind_eq_ok_iff.1 hraise
        split at hraise
        · cases hraise
          rfl
        · dsimp only at hraise
          split at hraise <;> cases hraise <;> rfl
      rw [hlevel]
      exact ih

end IssuePackage

open IssuePackage (Leveled acceptsAllLevels mustBeError)

/-! ## Parts of an instruction -/

namespace Mach

variable {m : Mach} {lv : IssueType → Option Level} {ir : InstValue}

theorem newStateIssue_isOk {type : IssueType} {level : Level} (location : Option InstValue)
    (note : String) (hlevel : m.pkg.issueLevel type = some level) :
    ∃ m', m.newStateIssue type location note = .ok m' :=
  newStateIssueWith_isOk location note none hlevel

/-- A type whose level can be chosen is always known. -/
theorem newStateIssue_known (hlv : Leveled m.pkg.issueLevel) (type : IssueType)
    (htype : acceptsAllLevels type = true) (location : Option InstValue) (note : String) :
    ∃ m', m.newStateIssue type location note = .ok m' :=
  let ⟨_, hlevel⟩ := hlv.known type htype
  newStateIssue_isOk location note hlevel

/-- After a fatal error the state is broken, as asserted. -/
theorem newStateIssue_fatal {type : IssueType} (hlevel : m.pkg.issueLevel type = some .error)
    (location : Option InstValue) (note : String) :
    ∃ m', m.newStateIssue type location note = .ok m' ∧ m'.s.status = .broken ∧
      assertBroken m' = .ok () := by
  obtain ⟨m', hraise⟩ := newStateIssue_isOk location note hlevel
  obtain ⟨⟨trigger, hs⟩, -⟩ := newStateIssue_eq_ok hraise
  have hbroken : m'.s.status = .broken := by rw [hs, if_pos hlevel]
  exact ⟨m', hraise, hbroken, by rw [assertBroken, if_pos hbroken]; rfl⟩

theorem getReg_isOk (hlv : Leveled m.pkg.issueLevel) (r : Fin 8) (ir : InstValue) :
    ∃ m', getReg m r ir = .ok (m', (m.s.reg r).getD (.const 0)) := by
  unfold getReg
  split
  · rename_i e hreg
    rw [hreg]
    exact ⟨m, rfl⟩
  · rename_i hreg
    rw [hreg]
    dsimp only
    split
    · exact ⟨_, rfl⟩
    · obtain ⟨m₁, hraise⟩ := newStateIssue_known hlv .warnUseUninitializedRegister rfl
        ir ("using uninitialized R" ++ toString r.val ++ ".\n")
      rw [hraise]
      exact ⟨_, rfl⟩

theorem getCCExpr_isOk (hlv : Leveled m.pkg.issueLevel) (ir : InstValue) :
    ∃ m' e, getCCExpr m ir = .ok (m', e) ∧ (m.s.getCCExpr = none → e = .const 0) ∧
      (m.s.getCCExpr ≠ none → m' = m) := by
  unfold getCCExpr
  split
  · rename_i e hcc
    exact ⟨m, e, rfl, by simp [hcc], fun _ => rfl⟩
  · rename_i hcc
    split
    · obtain ⟨m₁, hraise⟩ := newStateIssue_known hlv .warnUseUninitializedCC rfl ir ""
      rw [hraise]
      exact ⟨m₁, _, rfl, fun _ => rfl, fun hne => absurd hcc hne⟩
    · rename_i r href
      obtain ⟨m₁, hraise⟩ := newStateIssue_known hlv .warnUseUninitializedRegister rfl
        ir ("using uninitialized R" ++ toString r.val ++ " (through CC code).\n")
      rw [hraise]
      exact ⟨_, _, rfl, fun _ => rfl, fun hne => absurd hcc hne⟩

end Mach

namespace State

/-- The expression that a read of a cell yields. -/
def cellExpr (s : State) (addr : Word) : WordExpr :=
  ((s.mem.read addr).bind MemValue.e).getD (.const 0)

/-- Whether reading a cell breaks a state under the given levels. -/
def ReadBreaks (lv : IssueType → Option Level) (s : State) (addr : Word) : Prop :=
  match s.mem.read addr with
  | none => lv .warnPossibleWildRead = some .error
  | some (.inst _) => lv .warnReadInstAsData = some .error
  | some (.data d) => (d.forWrite = true ∧ lv .warnReadUninitializedMemory = some .error) ∨
      (d.e = none ∧ (s.memStoringUninitReg addr).isSome ∧
        lv .warnUseUninitializedRegister = some .error)

/-- A store that fails: to MCR, of a register that was never set, or of a value that
stops the clock before any user instruction was executed. -/
def StoreFails (s : State) (value : Option WordExpr) (addr : Word) : Prop :=
  addr = 0xFFFE ∧
    (value = none ∨ (∃ e, value = some e ∧ e.halts = true) ∧ s.latestNonOSInst.1 = none)

/-- The instructions that fail in a state, which has fetched them. -/
def ExecuteFails (lv : IssueType → Option Level) (s : State) (ir : InstValue) : Prop :=
  match ir.instID with
  | .RTI => lv .errInvalidInst = none
  | .TRAP => ir.sourceContent ≠ "INSTANT_HALT" ∧ ¬ s.ReadBreaks lv ir.vec8 ∧
      (s.cellExpr ir.vec8).asConst = none
  | .ST => s.StoreFails (s.reg ir.sr) (s.pc + ir.imm9)
  | .STR => ∃ a, s.constraints.Sat a ∧
      s.StoreFails (s.reg ir.sr) (((s.reg ir.baseR).getD (.const 0)).eval a + ir.imm6)
  | .STI => ¬ s.ReadBreaks lv (s.pc + ir.imm9) ∧ ∃ a, s.constraints.Sat a ∧
      s.StoreFails (s.reg ir.sr) ((s.cellExpr (s.pc + ir.imm9)).eval a)
  | _ => False

end State

namespace Mach

variable {m m' : Mach} {lv : IssueType → Option Level} {ir : InstValue} {addr : Word}

/-- What a read leaves alone. -/
structure SameData (s s' : State) : Prop where
  reg : s'.reg = s.reg
  constraints : s'.constraints = s.constraints
  latestNonOSInst : s'.latestNonOSInst = s.latestNonOSInst

/-- An issue whose level can be chosen: it breaks the state exactly at level `ERROR`. -/
theorem newStateIssue_spec (hlv : Leveled m.pkg.issueLevel) (type : IssueType)
    (htype : acceptsAllLevels type = true) (location : Option InstValue) (note : String) :
    ∃ m', m.newStateIssue type location note = .ok m' ∧ SameData m.s m'.s ∧
      m'.s.memStoringUninitReg = m.s.memStoringUninitReg ∧
      m'.pkg.issueLevel = m.pkg.issueLevel ∧
      (m'.s.status = .normal ↔
        m.s.status = .normal ∧ m.pkg.issueLevel type ≠ some .error) := by
  obtain ⟨m', hraise⟩ := newStateIssue_known hlv type htype location note
  obtain ⟨⟨trigger, hs⟩, hraises⟩ := newStateIssue_eq_ok hraise
  refine ⟨m', hraise, ?_, ?_, hraises.issueLevel, ?_⟩
  · rw [hs]
    exact ⟨rfl, rfl, rfl⟩
  · rw [hs]
  · rw [hs]
    dsimp only
    split <;> simp_all

theorem warnOnRead_spec (hlv : Leveled m.pkg.issueLevel) (addr : Word) (value : MemValue)
    (ir : InstValue) :
    ∃ m', warnOnRead m addr value ir = .ok m' ∧ SameData m.s m'.s ∧
      m'.s.memStoringUninitReg = m.s.memStoringUninitReg ∧
      m'.pkg.issueLevel = m.pkg.issueLevel ∧
      (m'.s.status = .normal ↔ m.s.status = .normal ∧ ¬ (match value with
        | .inst _ => m.pkg.issueLevel .warnReadInstAsData = some .error
        | .data d => d.forWrite = true ∧
            m.pkg.issueLevel .warnReadUninitializedMemory = some .error)) := by
  cases value with
  | inst i => exact newStateIssue_spec hlv .warnReadInstAsData rfl ir _
  | data d =>
      by_cases hwrite : d.forWrite = true
      · simp only [warnOnRead, hwrite, if_true, true_and]
        exact newStateIssue_spec hlv .warnReadUninitializedMemory rfl ir _
      · simp only [warnOnRead, if_neg hwrite]
        exact ⟨m, rfl, ⟨rfl, rfl, rfl⟩, rfl, rfl, by simp [hwrite]⟩

/-- A read whose result goes to no register always returns an expression. -/
theorem memReadData_spec (hlv : Leveled m.pkg.issueLevel) (addr : Word) (ir : InstValue) :
    ∃ m', memReadData m addr ir none = .ok (m', some (m.s.cellExpr addr)) ∧ SameData m.s m'.s ∧
      m'.pkg.issueLevel = m.pkg.issueLevel ∧
      (m'.s.status = .normal ↔
        m.s.status = .normal ∧ ¬ m.s.ReadBreaks m.pkg.issueLevel addr) := by
  unfold memReadData State.cellExpr State.ReadBreaks
  cases hread : m.s.mem.read addr with
  | none =>
      obtain ⟨m₁, hraise, hdata, -, hlevel, hstatus⟩ := newStateIssue_spec hlv
        .warnPossibleWildRead rfl ir ("reading addr " ++ toLC3Hex addr ++ ".\n")
      exact ⟨m₁, by rw [hraise]; rfl, hdata, hlevel, hstatus⟩
  | some value =>
      obtain ⟨m₁, hwarn, hdata, huninit, hlevel, hstatus⟩ := warnOnRead_spec hlv addr value ir
      simp only [hwarn, Except.ok_bind', Option.bind_some]
      cases value with
      | inst i => exact ⟨m₁, rfl, hdata, hlevel, hstatus⟩
      | data d =>
          cases he : d.e with
          | some e => exact ⟨m₁, by simp [MemValue.e, he], hdata, hlevel, by simpa [he] using hstatus⟩
          | none =>
              simp only [MemValue.e, he, huninit]
              cases hstored : m.s.memStoringUninitReg addr with
              | none => exact ⟨m₁, rfl, hdata, hlevel, by simpa [he] using hstatus⟩
              | some stored =>
                  rw [← hlevel] at hlv
                  obtain ⟨m₂, hraise, hdata₂, -, hlevel₂, hstatus₂⟩ := newStateIssue_spec hlv
                    .warnUseUninitializedRegister rfl ir ("Using value of: R" ++
                      toString stored.1.val ++ "\n" ++
                      "    Stored uninitialized reg value into memory at: " ++
                      stored.2.formattedContext ++ ".\n")
                  refine ⟨⟨{ m₂.s with memStoringUninitReg := fun x =>
                      if x = addr then none else m₂.s.memStoringUninitReg x }, m₂.pkg⟩,
                    by simp only [reduceCtorEq, if_false, hraise]; rfl,
                    ⟨hdata₂.reg.trans hdata.reg, hdata₂.constraints.trans hdata.constraints,
                      hdata₂.latestNonOSInst.trans hdata.latestNonOSInst⟩,
                    hlevel₂.trans hlevel, ?_⟩
                  simp only [hstatus₂, hstatus, hlevel, Option.isSome_some, true_and, not_or]
                  exact and_assoc

theorem memReadData_isOk (hlv : Leveled m.pkg.issueLevel) (addr : Word) (ir : InstValue)
    (dr : Option (Fin 8)) : ∃ r, memReadData m addr ir dr = .ok r := by
  unfold memReadData
  cases m.s.mem.read addr with
  | none =>
      obtain ⟨m₁, hraise⟩ := newStateIssue_known hlv .warnPossibleWildRead rfl ir
        ("reading addr " ++ toLC3Hex addr ++ ".\n")
      exact ⟨_, by rw [hraise]; rfl⟩
  | some value =>
      obtain ⟨m₁, hwarn, -, -, hlevel, -⟩ := warnOnRead_spec hlv addr value ir
      simp only [hwarn, Except.ok_bind']
      split
      · exact ⟨_, rfl⟩
      · split
        · exact ⟨_, rfl⟩
        · rename_i r stored _
          split
          · exact ⟨_, rfl⟩
          · rw [← hlevel] at hlv
            obtain ⟨m₂, hraise⟩ := newStateIssue_known hlv .warnUseUninitializedRegister rfl ir
              ("Using value of: R" ++ toString r.val ++ "\n" ++
                "    Stored uninitialized reg value into memory at: " ++
                stored.formattedContext ++ ".\n")
            exact ⟨_, by rw [hraise]; rfl⟩

theorem loadFrom_isOk (hlv : Leveled m.pkg.issueLevel) (addr : Word) (ir : InstValue) :
    ∃ m', Executor.loadFrom ir m addr = .ok m' := by
  obtain ⟨⟨m₁, data⟩, hread⟩ := memReadData_isOk hlv addr ir (some ir.dr)
  unfold Executor.loadFrom
  rw [hread, Except.ok_bind']
  dsimp only
  split
  · exact ⟨_, rfl⟩
  · exact ⟨_, rfl⟩

theorem checkOverwrite_isOk (hlv : Leveled m.pkg.issueLevel) (addr : Word) (ir : InstValue) :
    ∃ m' goesOn, checkOverwrite m addr ir = .ok (m', goesOn) ∧
      m'.pkg.issueLevel = m.pkg.issueLevel := by
  unfold checkOverwrite
  split
  · obtain ⟨m₁, hraise, -, -, hlevel, -⟩ := newStateIssue_spec hlv .warnPossibleWildWrite rfl ir
      ("writing to unspecified addr " ++ toLC3Hex addr ++ ".\n")
    exact ⟨m₁, true, by rw [hraise]; rfl, hlevel⟩
  · split
    · obtain ⟨m₁, hraise, -, -, hlevel, -⟩ := newStateIssue_spec hlv .warnWriteReadOnlyData rfl ir
        ("overwriting read-only data at addr " ++ toLC3Hex addr ++ ".\n")
      exact ⟨m₁, true, by rw [hraise]; rfl, hlevel⟩
    · exact ⟨m, true, rfl, rfl⟩
  · rename_i oldInst _
    obtain ⟨m₁, hraise, -, hassert⟩ := newStateIssue_fatal
      (hlv.fatal .errOverwriteInst rfl (by simp)) ir
      ("writing to addr " ++ toLC3Hex addr ++ ", original: " ++ oldInst.formattedContext ++ ".\n")
    have hlevel := (newStateIssue_eq_ok hraise).2.issueLevel
    exact ⟨m₁, false, by rw [hraise, Except.ok_bind', hassert]; rfl, hlevel⟩

theorem writeData_isOk (mem : MemoryManager) {value : Option WordExpr}
    (h : addr = 0xFFFE → value ≠ none) : ∃ r, mem.writeData addr value = .ok r := by
  unfold MemoryManager.writeData MemoryManager.write
  split
  · exact ⟨_, rfl⟩
  split
  · exact ⟨_, rfl⟩
  split
  · rename_i haddr
    cases value with
    | none => exact absurd rfl (h haddr)
    | some e =>
        simp only [DataValue.alloc, MemValue.e]
        split
        · rename_i he
          cases he
        · split <;> exact ⟨_, rfl⟩
        · exact ⟨_, rfl⟩
  · exact ⟨_, rfl⟩

theorem afterWrite_isOk {value : Option WordExpr} {result : WriteResult}
    (hlv : Leveled m.pkg.issueLevel) (h : result = .halt → m.s.latestNonOSInst.1 ≠ none) :
    ∃ m', afterWrite m value ir result = .ok m' := by
  cases result with
  | success => exact ⟨m, rfl⟩
  | halt =>
      obtain ⟨last, hlast⟩ := Option.ne_none_iff_exists'.1 (h rfl)
      simp only [afterWrite, hlast]
      split
      · exact newStateIssue_known (m := ⟨{ m.s with status := .halted }, m.pkg⟩) hlv
          .warnManualHalt rfl last _
      · exact ⟨_, rfl⟩
  | ddr =>
      cases value with
      | none =>
          obtain ⟨m₁, hraise⟩ := newStateIssue_known hlv .warnUseUninitializedRegister rfl ir ""
          exact ⟨_, by simp only [afterWrite, hraise]; rfl⟩
      | some e => exact ⟨_, rfl⟩

/-- A store fails exactly at MCR. -/
theorem memWriteData_isOk_iff {value : Option WordExpr} (hlv : Leveled m.pkg.issueLevel) :
    (∃ m', memWriteData m addr value ir = .ok m') ↔ ¬ m.s.StoreFails value addr := by
  constructor
  · rintro ⟨m', h⟩ ⟨rfl, hfails⟩
    rcases memWriteData_eq_ok h with hcheck | ⟨e, -, rfl, he, hhalt⟩ | ⟨m₁, -, hvalue, -⟩
    · cases (checkOverwrite_mcr hcheck).2
    · have hlast : m.s.latestNonOSInst.1 ≠ none := by
        cases hhalt with
        | trap last hlast => exact fun hnone => by cases hlast.symm.trans hnone
        | manual last note hlast => exact fun hnone => by cases hlast.symm.trans hnone
      exact hlast (hfails.resolve_left (by simp)).2
    · obtain ⟨e, rfl, he⟩ := hvalue rfl
      obtain ⟨⟨e', heq, he'⟩, -⟩ := hfails.resolve_left (by simp)
      cases heq
      exact absurd (he'.symm.trans he) (by simp)
  · intro hfails
    obtain ⟨m₁, goesOn, hcheck, hlevel⟩ := checkOverwrite_isOk hlv addr ir
    unfold memWriteData
    rw [hcheck, Except.ok_bind']
    cases goesOn with
    | false => exact ⟨m₁, rfl⟩
    | true =>
        have hnull : addr = 0xFFFE → value ≠ none := fun haddr hnone => hfails ⟨haddr, .inl hnone⟩
        obtain ⟨⟨result, mem⟩, hwrite⟩ := writeData_isOk m₁.s.mem hnull
        simp only [Bool.not_true, Bool.false_eq_true, if_false, hwrite, Except.ok_bind']
        refine afterWrite_isOk (by rw [hlevel]; exact hlv) fun hhalt hnone => ?_
        obtain ⟨rfl, e, rfl, he⟩ := (MemoryManager.writeData_eq_ok hwrite).2.1.1 hhalt
        obtain ⟨rfl, -⟩ := checkOverwrite_mcr hcheck
        exact hfails ⟨rfl, .inr ⟨⟨e, rfl, he⟩, hnone⟩⟩

end Mach

/-! ## Instructions that do not fork -/

namespace Mach

variable {m : Mach} {ir : InstValue}

/-- `getReg` with what the instructions need to know about its result. -/
theorem getReg_spec {P : WordExpr → Prop} (hP : Closed P) (hlv : Leveled m.pkg.issueLevel)
    (hm : m.s.All P) (r : Fin 8) (ir : InstValue) :
    ∃ m', getReg m r ir = .ok (m', (m.s.reg r).getD (.const 0)) ∧ m'.s.All P ∧
      m'.pkg.issueLevel = m.pkg.issueLevel ∧ P ((m.s.reg r).getD (.const 0)) := by
  obtain ⟨m', hget⟩ := getReg_isOk hlv r ir
  obtain ⟨heff, hvalue⟩ := getReg_effects hP hm hget
  exact ⟨m', hget, heff.all, heff.issueLevel, hvalue⟩

theorem executeADD_isOk (hlv : Leveled m.pkg.issueLevel) (hm : m.s.All WordExpr.MulForm)
    (ir : InstValue) : ∃ m', executeADD m ir = .ok m' := by
  obtain ⟨m₁, hget₁, hm₁, hlevel₁, hop₁⟩ := getReg_spec closed_mulForm hlv hm ir.sr1 ir
  have hop : ∃ m₂ op, (if ir.instDef.format = .RRR then getReg m₁ ir.sr2 ir
      else pure (m₁, .const ir.imm5)) = .ok (m₂, op) ∧ op.MulForm := by
    split
    · rw [← hlevel₁] at hlv
      obtain ⟨m₂, hget₂, -, -, hop₂⟩ := getReg_spec closed_mulForm hlv hm₁ ir.sr2 ir
      exact ⟨m₂, _, hget₂, hop₂⟩
    · exact ⟨m₁, _, rfl, trivial⟩
  obtain ⟨m₂, op, hget₂, hop₂⟩ := hop
  obtain ⟨e, hsum⟩ := addResult_isOk hop₁ hop₂
  refine Except.exists_bind_eq_ok_iff.2 ⟨_, hget₁, ?_⟩
  dsimp only
  rw [Except.ite_bind_eq]
  refine Except.exists_bind_eq_ok_iff.2 ⟨_, hget₂, ?_⟩
  exact Except.exists_bind_eq_ok_iff.2 ⟨e, hsum, _, rfl⟩

theorem warnOnAndOperand_isOk (hlv : Leveled m.pkg.issueLevel) (r : Fin 8)
    (other : Option WordExpr) (ir : InstValue) :
    ∃ m', warnOnAndOperand m r other ir = .ok m' ∧ m'.pkg.issueLevel = m.pkg.issueLevel := by
  unfold warnOnAndOperand
  split
  · obtain ⟨m₁, hraise, -, -, hlevel, -⟩ := newStateIssue_spec hlv .warnUseUninitializedRegister rfl
      ir ("using uninitialized R" ++ toString r.val ++ ".\n")
    exact ⟨⟨(m₁.s.setReg r (some (.const 0))).mark (.gpr r) ir, m₁.pkg⟩,
      by rw [hraise]; rfl, hlevel⟩
  · exact ⟨m, rfl, rfl⟩

theorem executeAND_isOk (hlv : Leveled m.pkg.issueLevel) (ir : InstValue) :
    ∃ m', executeAND m ir = .ok m' := by
  have hwarn : ∀ {m : Mach}, Leveled m.pkg.issueLevel → ∀ (b : Bool) r other,
      ∃ m', (if b = true then warnOnAndOperand m r other ir else pure m) = .ok m' ∧
        m'.pkg.issueLevel = m.pkg.issueLevel := by
    intro m hlv b r other
    split
    · exact warnOnAndOperand_isOk hlv r other ir
    · exact ⟨m, rfl, rfl⟩
  obtain ⟨m₁, h₁, hlevel₁⟩ := hwarn hlv (m.s.reg ir.sr1).isNone ir.sr1 (andOperand2 m ir)
  rw [← hlevel₁] at hlv
  obtain ⟨m₂, h₂, -⟩ := hwarn hlv (andOperand2 m ir).isNone ir.sr2 (m.s.reg ir.sr1)
  unfold executeAND
  dsimp only
  rw [← andOperand2, Except.ite_bind_eq]
  refine Except.exists_bind_eq_ok_iff.2 ⟨m₁, h₁, ?_⟩
  rw [Except.ite_bind_eq]
  exact Except.exists_bind_eq_ok_iff.2 ⟨m₂, h₂, _, rfl⟩

theorem symbolicPC_isOk (hlv : Leveled m.pkg.issueLevel) (ir : InstValue) :
    ∃ m', symbolicPC m ir = .ok m' := by
  obtain ⟨m₁, hraise, -, hassert⟩ := newStateIssue_fatal
    (hlv.fatal .errSymbolicPC rfl (by simp)) ir _
  exact Except.exists_bind_eq_ok_iff.2
    ⟨m₁, hraise, Except.exists_bind_eq_ok_iff.2 ⟨(), hassert, _, rfl⟩⟩

theorem setPC_isOk {e : WordExpr} {c : Word} (h : e.asConst = some c) (m : Mach) (ir : InstValue) :
    ∃ m', setRegExpr m .pc (some e) ir = .ok m' := by
  rw [WordExpr.asConst_eq_some h]
  exact ⟨_, rfl⟩

theorem checkRetInMainCode_isOk (hlv : Leveled m.pkg.issueLevel) (ir : InstValue) :
    ∃ m', checkRetInMainCode m ir = .ok m' ∧ m'.pkg.issueLevel = m.pkg.issueLevel := by
  unfold checkRetInMainCode
  split
  · split
    · rename_i color _
      obtain ⟨m₁, hraise, -, -, hlevel, -⟩ := newStateIssue_spec hlv .errRetInMainCode rfl ir
        ("main code starts at: " ++ toLC3Hex color ++ ".\n")
      exact ⟨⟨{ m₁.s with stackHasMessedUp := true }, m₁.pkg⟩, by rw [hraise]; rfl, hlevel⟩
    · exact ⟨m, rfl, rfl⟩
  · exact ⟨m, rfl, rfl⟩

theorem executeJMP_isOk (hlv : Leveled m.pkg.issueLevel) (ir : InstValue) :
    ∃ m', executeJMP m ir = .ok m' := by
  obtain ⟨m₁, hcheck, hlevel₁⟩ := checkRetInMainCode_isOk hlv ir
  refine Except.exists_bind_eq_ok_iff.2 ⟨m₁, hcheck, ?_⟩
  rw [← hlevel₁] at hlv
  split
  · obtain ⟨m₂, hget, -, hlevel₂, -⟩ := getReg_spec closed_any hlv (all_any _) ir.baseR ir
    refine Except.exists_bind_eq_ok_iff.2 ⟨_, hget, ?_⟩
    rw [← hlevel₂] at hlv
    dsimp only
    split
    · exact symbolicPC_isOk hlv ir
    · rename_i c hconst
      exact setPC_isOk hconst m₂ ir
  · exact ⟨_, rfl⟩

theorem executeJSRR_isOk (hlv : Leveled m.pkg.issueLevel) (ir : InstValue) :
    ∃ m', executeJSRR m ir = .ok m' := by
  obtain ⟨m₁, hget, -, hlevel, -⟩ := getReg_spec closed_any hlv (all_any _) ir.baseR ir
  refine Except.exists_bind_eq_ok_iff.2 ⟨_, hget, ?_⟩
  rw [← hlevel] at hlv
  dsimp only
  split
  · exact symbolicPC_isOk hlv ir
  · rename_i c hconst
    exact Except.exists_bind_eq_ok_iff.2 ⟨_, rfl, setPC_isOk hconst _ ir⟩

theorem executeNOT_isOk (hlv : Leveled m.pkg.issueLevel) (ir : InstValue) :
    ∃ m', executeNOT m ir = .ok m' := by
  obtain ⟨m₁, hget⟩ := getReg_isOk hlv ir.sr1 ir
  exact Except.exists_bind_eq_ok_iff.2 ⟨_, hget, _, rfl⟩

/-- A trap fails exactly when its vector can be read and is not constant. -/
theorem executeTRAP_isOk_iff (hlv : Leveled m.pkg.issueLevel) (hnormal : m.s.status = .normal) :
    (∃ m', executeTRAP m ir = .ok m') ↔ ¬ (ir.sourceContent ≠ "INSTANT_HALT" ∧
      ¬ m.s.ReadBreaks m.pkg.issueLevel ir.vec8 ∧ (m.s.cellExpr ir.vec8).asConst = none) := by
  unfold executeTRAP
  split
  · rename_i hinstant
    simp only [hinstant, ne_eq, not_true_eq_false, false_and, not_false_eq_true, iff_true]
    exact ⟨_, rfl⟩
  · rename_i hinstant
    let m₀ : Mach := ⟨(m.s.setReg 7 (some (.const m.s.pc))).mark (.gpr 7) ir, m.pkg⟩
    have hlv₀ : Leveled m₀.pkg.issueLevel := hlv
    obtain ⟨m₁, hread, -, -, hstatus⟩ := memReadData_spec hlv₀ ir.vec8 ir
    have hstatus : m₁.s.status = .normal ↔ ¬ m.s.ReadBreaks m.pkg.issueLevel ir.vec8 :=
      hstatus.trans (and_iff_right hnormal)
    simp only [setRegWord_gpr, Except.ok_bind']
    rw [hread, Except.ok_bind']
    simp only [ne_eq, hinstant, not_false_eq_true, true_and, ← hstatus]
    split
    · rename_i hne
      exact ⟨fun _ h => hne h.1, fun _ => ⟨_, rfl⟩⟩
    · rename_i hne
      rw [Except.exists_bind_eq_ok_iff]
      have hcell : m₀.s.cellExpr ir.vec8 = m.s.cellExpr ir.vec8 := rfl
      rw [hcell, castConstant]
      cases hconst : (m.s.cellExpr ir.vec8).asConst with
      | some c => exact ⟨fun _ h => (by cases h.2), fun _ => ⟨c, rfl, _, rfl⟩⟩
      | none =>
          constructor
          · rintro ⟨c, hc, -⟩
            cases hc
          · intro h
            exact absurd ⟨by simpa using hne, rfl⟩ h

theorem executeRTI_isOk_iff (hlv : Leveled m.pkg.issueLevel) :
    (∃ m', executeRTI m ir = .ok m') ↔ ¬ m.pkg.issueLevel .errInvalidInst = none := by
  constructor
  · rintro ⟨m', h⟩ hnone
    obtain ⟨m₁, hraise, -⟩ := Except.bind_eq_ok_iff.1 h
    obtain ⟨⟨pkg, accepted⟩, hraise, -⟩ := Except.bind_eq_ok_iff.1 hraise
    obtain ⟨⟨level, hlevel⟩, -⟩ := IssuePackage.raiseIssue_eq_ok rfl hraise
    cases hlevel.symm.trans hnone
  · intro hne
    obtain ⟨m₁, hraise, -, hassert⟩ := newStateIssue_fatal (hlv.invalid.resolve_left hne) ir _
    exact Except.exists_bind_eq_ok_iff.2
      ⟨m₁, hraise, Except.exists_bind_eq_ok_iff.2 ⟨(), hassert, _, rfl⟩⟩

end Mach

/-! ## Instructions that may fork -/

namespace Executor

variable {ex : Executor} {m : Mach} {ir : InstValue} {lv : IssueType → Option Level}
variable {access : Mach → Word → Except Abort Mach} {instances : List (Word × State)}

/-- The accesses all succeed when each of them does. -/
theorem accessEach_isOk_iff {F : Word → Prop} {pkg : IssuePackage} (hlv : pkg.issueLevel = lv)
    (haccess : ∀ i ∈ instances, ∀ pkg : IssuePackage, pkg.issueLevel = lv →
      ((∃ m, access ⟨i.2, pkg⟩ i.1 = .ok m) ↔ ¬ F i.1))
    (hlevel : ∀ i ∈ instances, ∀ (pkg : IssuePackage) m, access ⟨i.2, pkg⟩ i.1 = .ok m →
      m.pkg.issueLevel = pkg.issueLevel) :
    (∃ r, accessEach access pkg instances = .ok r) ↔ ∀ i ∈ instances, ¬ F i.1 := by
  induction instances generalizing pkg with
  | nil => exact ⟨fun _ _ hi => (List.not_mem_nil hi).elim, fun _ => ⟨_, rfl⟩⟩
  | cons i rest ih =>
      have htail : ∀ {m}, access ⟨i.2, pkg⟩ i.1 = .ok m →
          ((∃ r, accessEach access m.pkg rest = .ok r) ↔ ∀ j ∈ rest, ¬ F j.1) := fun {m} hm =>
        ih ((hlevel i (.head _) pkg m hm).trans hlv) (fun j hj => haccess j (.tail _ hj))
          fun j hj => hlevel j (.tail _ hj)
      have hhead := haccess i (.head _) pkg hlv
      rw [List.forall_mem_cons, accessEach, Except.exists_bind_eq_ok_iff]
      constructor
      · rintro ⟨m, hm, hrest⟩
        obtain ⟨r, hrest, -⟩ := Except.exists_bind_eq_ok_iff.1 hrest
        exact ⟨hhead.1 ⟨m, hm⟩, (htail hm).1 ⟨r, hrest⟩⟩
      · rintro ⟨hF, hrest⟩
        obtain ⟨m, hm⟩ := hhead.2 hF
        obtain ⟨r, hr⟩ := (htail hm).2 hrest
        exact ⟨m, hm, Except.exists_bind_eq_ok_iff.2 ⟨r, hr, _, rfl⟩⟩

/-- An access fails exactly when it fails at some address that is possible. -/
theorem handleExpr_isOk_iff {F : Word → Prop} {addr : WordExpr} (hwf : ex.WF)
    (howns : ex.Owns m.s.constraints) (hnormal : addr.asConst = none → m.s.status = .normal)
    (haccess : ∀ t, m.s.Copy t → ∀ pkg : IssuePackage, pkg.issueLevel = m.pkg.issueLevel →
      ∀ v, (∃ m', access ⟨t, pkg⟩ v = .ok m') ↔ ¬ F v)
    (hframes : ∀ {m m' : Mach} {v : Word}, access m v = .ok m' → m.Frames Mach.Any m') :
    (∃ r, ex.handleExpr m addr access = .ok r) ↔
      ∀ a, m.s.constraints.Sat a → ¬ F (addr.eval a) := by
  have heach : ∀ {instances uid}, Forks m.s addr uid instances →
      ((∃ r, accessEach access m.pkg instances = .ok r) ↔
        ∀ a, m.s.constraints.Sat a → ¬ F (addr.eval a)) := by
    intro instances uid hforks
    rw [accessEach_isOk_iff rfl
      (fun i hi pkg hpkg => haccess i.2 (hforks.copy i hi) pkg hpkg i.1)
      fun i _ pkg m' hm => by obtain ⟨ev, h⟩ := hframes hm; exact h.raises.issueLevel]
    constructor
    · intro hF a ha
      obtain ⟨i, hi, heq⟩ := hforks.covers a ha
      rw [heq]
      exact hF i hi
    · intro hF i hi
      obtain ⟨a, ha⟩ := hforks.satisfiable i hi
      obtain ⟨ha, heq⟩ := (hforks.sat_iff i hi a).1 ha
      rw [← heq]
      exact hF a ha
  unfold handleExpr
  cases hconst : addr.asConst with
  | some c =>
      have hforks : Forks m.s addr 0 _ := forks_const howns.satisfiable hconst
      rw [← heach hforks]
      simp only [accessEach, Except.exists_bind_eq_ok_iff]
      constructor
      · rintro ⟨m', hm', -⟩
        exact ⟨m', hm', _, rfl, _, rfl⟩
      · rintro ⟨m', hm', -⟩
        exact ⟨m', hm', _, rfl⟩
  | none =>
      obtain ⟨ex', instances, hfork, hne⟩ :=
        forkOnRange_isOk addr hwf howns (hnormal hconst)
      have hforks := (forkOnRange_spec hwf howns hfork).1
      have hne : instances.isEmpty = false := by simpa using hne
      rw [← heach hforks]
      simp only [hfork, Except.ok_bind', hne, Bool.false_eq_true, if_false]
      rw [Except.exists_bind_eq_ok_iff]
      constructor
      · rintro ⟨r, hr, -⟩
        exact ⟨r, hr⟩
      · rintro ⟨r, hr⟩
        exact ⟨r, hr, _, rfl⟩

theorem loadEach_isOk {addr : WordExpr} (hwf : ex.WF) (howns : ex.Owns m.s.constraints)
    (hlv : Leveled m.pkg.issueLevel) (hnormal : addr.asConst = none → m.s.status = .normal) :
    ∃ r, ex.handleExprLD m addr ir = .ok r := by
  refine (handleExpr_isOk_iff (F := fun _ => False) hwf howns hnormal ?_ ?_).2 fun _ _ h => h
  · intro t _ pkg hpkg v
    rw [not_false_eq_true, iff_true]
    exact Mach.loadFrom_isOk (m := ⟨t, pkg⟩) (by rw [hpkg]; exact hlv) v ir
  · exact fun h => (Mach.loadFrom_effects Mach.closed_any (Mach.all_any _) h).frames

theorem storeEach_isOk_iff {addr : WordExpr} {value : Option WordExpr} (hwf : ex.WF)
    (howns : ex.Owns m.s.constraints) (hlv : Leveled m.pkg.issueLevel)
    (hnormal : addr.asConst = none → m.s.status = .normal) :
    (∃ r, ex.handleExprST m addr value ir = .ok r) ↔
      ∀ a, m.s.constraints.Sat a → ¬ m.s.StoreFails value (addr.eval a) := by
  refine handleExpr_isOk_iff hwf howns hnormal ?_ ?_
  · rintro t ⟨tag, rfl⟩ pkg hpkg v
    exact Mach.memWriteData_isOk_iff (m := ⟨m.s.tagged tag, pkg⟩) (by rw [hpkg]; exact hlv)
  · exact fun h => Mach.memWriteData_frames Mach.closed_any (Mach.all_any _) (fun _ _ => trivial) h

/-- A base register that is read for the first time makes the address constant, so that
nothing is forked after the state may have been broken. -/
theorem getReg_address (hlv : Leveled m.pkg.issueLevel) (r : Fin 8) (ir : InstValue) (c : Word) :
    ∃ m', getReg m r ir = .ok (m', (m.s.reg r).getD (.const 0)) ∧ m.Effects Mach.Any m' ∧
      ((ExprBuilder.add ((m.s.reg r).getD (.const 0)) (.const c)).asConst = none →
        m' = m) := by
  obtain ⟨m', hget⟩ := Mach.getReg_isOk hlv r ir
  have heff := (Mach.getReg_effects Mach.closed_any (Mach.all_any _) hget).1
  refine ⟨m', hget, heff, ?_⟩
  rcases Mach.getReg_eq_ok hget with ⟨hreg, rfl⟩ | ⟨hnone, -, m₁, hm₁, rfl⟩
  · exact fun _ => rfl
  · intro hconst
    rw [hnone] at hconst
    cases hconst

theorem executeLDR_isOk (hwf : ex.WF) (howns : ex.Owns m.s.constraints)
    (hlv : Leveled m.pkg.issueLevel) (hnormal : m.s.status = .normal) (ir : InstValue) :
    ∃ r, ex.executeLDR m ir = .ok r := by
  obtain ⟨m₁, hget, heff, hsame⟩ := getReg_address hlv ir.baseR ir ir.imm6
  refine Except.exists_bind_eq_ok_iff.2 ⟨_, hget, loadEach_isOk hwf ?_ ?_ fun hconst => ?_⟩
  · rw [heff.same.constraints]
    exact howns
  · rw [heff.issueLevel]
    exact hlv
  · rw [hsame hconst]
    exact hnormal

theorem executeSTR_isOk_iff (hwf : ex.WF) (howns : ex.Owns m.s.constraints)
    (hlv : Leveled m.pkg.issueLevel) (hnormal : m.s.status = .normal) :
    (∃ r, ex.executeSTR m ir = .ok r) ↔ ∀ a, m.s.constraints.Sat a →
      ¬ m.s.StoreFails (m.s.reg ir.sr)
        (((m.s.reg ir.baseR).getD (.const 0)).eval a + ir.imm6) := by
  obtain ⟨m₁, hget, heff, hsame⟩ := getReg_address hlv ir.baseR ir ir.imm6
  have howns₁ : ex.Owns m₁.s.constraints := by
    rw [heff.same.constraints]
    exact howns
  unfold executeSTR
  rw [hget, Except.ok_bind']
  dsimp only
  rw [storeEach_isOk_iff hwf howns₁]
  · simp only [heff.same.constraints, ExprBuilder.eval_add, WordExpr.eval, State.StoreFails,
      heff.same.latestNonOSInst, getRegBypass]
  · rw [heff.issueLevel]
    exact hlv
  · intro hconst
    rw [hsame hconst]
    exact hnormal

theorem readMidAddr_isOk_iff {go : Mach → WordExpr → Except Abort StepResult}
    (hlv : Leveled m.pkg.issueLevel) (hnormal : m.s.status = .normal) :
    (∃ r, ex.readMidAddr m ir go = .ok r) ↔
      (¬ m.s.ReadBreaks m.pkg.issueLevel (m.s.pc + ir.imm9) → ∀ m', Mach.SameData m.s m'.s →
        m'.pkg.issueLevel = m.pkg.issueLevel → m'.s.status = .normal →
        memReadData m (m.s.pc + ir.imm9) ir none =
          .ok (m', some (m.s.cellExpr (m.s.pc + ir.imm9))) →
        ∃ r, go m' (m.s.cellExpr (m.s.pc + ir.imm9)) = .ok r) := by
  obtain ⟨m₁, hread, hdata, hlevel, hstatus⟩ := Mach.memReadData_spec hlv (m.s.pc + ir.imm9) ir
  rw [and_iff_right hnormal] at hstatus
  unfold readMidAddr
  rw [hread, Except.ok_bind']
  simp only [← hstatus]
  split
  · rename_i hne
    exact ⟨fun _ h => absurd h hne, fun _ => ⟨_, rfl⟩⟩
  · rename_i hne
    have hnormal₁ : m₁.s.status = .normal := by simpa using hne
    constructor
    · intro h _ m' _ _ _ heq
      cases heq
      exact h
    · exact fun h => h hnormal₁ m₁ hdata hlevel hnormal₁ rfl

theorem executeLDI_isOk (hwf : ex.WF) (howns : ex.Owns m.s.constraints)
    (hlv : Leveled m.pkg.issueLevel) (hnormal : m.s.status = .normal) (ir : InstValue) :
    ∃ r, ex.executeLDI m ir = .ok r := by
  refine (readMidAddr_isOk_iff hlv hnormal).2 fun _ m' hdata hlevel hnormal' _ => ?_
  refine loadEach_isOk hwf ?_ ?_ fun _ => hnormal'
  · rw [hdata.constraints]
    exact howns
  · rw [hlevel]
    exact hlv

theorem executeSTI_isOk_iff (hwf : ex.WF) (howns : ex.Owns m.s.constraints)
    (hlv : Leveled m.pkg.issueLevel) (hnormal : m.s.status = .normal) :
    (∃ r, ex.executeSTI m ir = .ok r) ↔
      (¬ m.s.ReadBreaks m.pkg.issueLevel (m.s.pc + ir.imm9) → ∀ a, m.s.constraints.Sat a →
        ¬ m.s.StoreFails (m.s.reg ir.sr) ((m.s.cellExpr (m.s.pc + ir.imm9)).eval a)) := by
  have hgo : ∀ m', Mach.SameData m.s m'.s → m'.pkg.issueLevel = m.pkg.issueLevel →
      m'.s.status = .normal → ((∃ r, ex.handleExprST m' (m.s.cellExpr (m.s.pc + ir.imm9))
        (getRegBypass m' ir.sr) ir = .ok r) ↔ ∀ a, m.s.constraints.Sat a →
        ¬ m.s.StoreFails (m.s.reg ir.sr) ((m.s.cellExpr (m.s.pc + ir.imm9)).eval a)) := by
    intro m' hdata hlevel hnormal'
    rw [storeEach_isOk_iff hwf (by rw [hdata.constraints]; exact howns)
      (by rw [hlevel]; exact hlv) fun _ => hnormal']
    simp only [hdata.constraints, getRegBypass, hdata.reg, State.StoreFails, hdata.latestNonOSInst]
  obtain ⟨m₁, hread, hdata, hlevel, hstatus⟩ := Mach.memReadData_spec hlv (m.s.pc + ir.imm9) ir
  rw [and_iff_right hnormal] at hstatus
  unfold executeSTI
  rw [readMidAddr_isOk_iff hlv hnormal]
  constructor
  · exact fun h hread' => (hgo m₁ hdata hlevel (hstatus.2 hread')).1
      (h hread' m₁ hdata hlevel (hstatus.2 hread') hread)
  · exact fun h hread' m' hdata' hlevel' hnormal' _ =>
      (hgo m' hdata' hlevel' hnormal').2 (h hread')

theorem solveBRCond_isOk (hlv : Leveled m.pkg.issueLevel) (ir : InstValue) :
    ∃ p, ex.solveBRCond m ir = .ok p := by
  unfold solveBRCond
  split
  · exact ⟨_, rfl⟩
  split
  · exact ⟨_, rfl⟩
  obtain ⟨m₁, e, hget, -⟩ := Mach.getCCExpr_isOk hlv ir
  rw [hget, Except.ok_bind']
  dsimp only
  split <;> exact ⟨_, rfl⟩

theorem brCondition_zero (cc : Word) (a b : Assignment) :
    (brCondition cc (.const 0)).eval a = (brCondition cc (.const 0)).eval b := by
  unfold brCondition
  split_ifs <;> simp

/-- A branch is undecided only on a condition that depends on the inputs. It was found
without an issue, and both sides are possible. -/
theorem solveBRCond_unknown {m₁ : Mach} {brCond : Option BoolExpr} (exact : ex.solver.Exact)
    (hsat : m.s.constraints.Satisfiable) (hlv : Leveled m.pkg.issueLevel)
    (h : ex.solveBRCond m ir = .ok (m₁, .unknown, brCond)) :
    m₁ = m ∧ ∃ e, m.s.getCCExpr = some e ∧ brCond = some (brCondition ir.cc e) ∧
      (∃ a, m.s.constraints.Sat a ∧ (brCondition ir.cc e).eval a = true) ∧
      ∃ a, m.s.constraints.Sat a ∧ (brCondition ir.cc e).eval a = false := by
  rcases solveBRCond_eq_ok h with ⟨-, -, hbr⟩ | ⟨-, -, hbr⟩ | ⟨-, -, e, hget, rfl, hbr⟩
  · cases hbr
  · cases hbr
  have heff := (Mach.getCCExpr_effects Mach.closed_any (Mach.all_any _) hget).1
  rw [heff.same.constraints] at hbr
  obtain ⟨⟨a, ha, htrue⟩, b, hb, hfalse⟩ := Solver.evaluate_unknown exact hsat hbr.symm
  obtain ⟨m₂, e₂, hget₂, hnull, hsame⟩ := Mach.getCCExpr_isOk hlv ir
  cases hget.symm.trans hget₂
  cases hcc : m.s.getCCExpr with
  | none =>
      -- a null expression reads as 0, on which the condition is constant
      rw [hnull hcc] at htrue hfalse
      rw [brCondition_zero ir.cc a b, hfalse] at htrue
      cases htrue
  | some e' =>
      have he : e' = e := by
        unfold getCCExpr at hget
        rw [hcc] at hget
        cases hget
        rfl
      subst he
      exact ⟨hsame (by simp [hcc]), e', rfl, rfl, ⟨a, ha, htrue⟩, b, hb, hfalse⟩

/-- When a branch forks, the state is still `NORMAL` and both sides are possible. -/
theorem executeBR_isOk (hwf : ex.WF) (howns : ex.Owns m.s.constraints)
    (hlv : Leveled m.pkg.issueLevel) (hnormal : m.s.status = .normal) (ir : InstValue) :
    ∃ r, ex.executeBR m ir = .ok r := by
  obtain ⟨⟨m₁, br, brCond⟩, hsolve⟩ : ∃ p, ex.solveBRCond m ir = .ok p := solveBRCond_isOk hlv ir
  refine Except.exists_bind_eq_ok_iff.2 ⟨_, hsolve, ?_⟩
  cases br with
  | valid => exact ⟨_, rfl⟩
  | invalid => exact ⟨_, rfl⟩
  | unknown =>
      obtain ⟨rfl, e, -, rfl, ⟨a, ha, htrue⟩, b, hb, hfalse⟩ :=
        solveBRCond_unknown hwf.exact howns.satisfiable hlv hsolve
      obtain ⟨t, ht⟩ := State.addConstraint_isOk ha htrue
      have hfalse : (brCondition ir.cc e).createIsZero.eval b = true := by
        rw [BoolExpr.eval_createIsZero, hfalse]
        rfl
      obtain ⟨u, hu⟩ := State.addConstraint_isOk (s := { m₁.s with
        uid := ex.totalAllocatedStateCount, triggerNewIssue := false, coveredNewEdge := false,
        coveredNewSegment := false, avoidLoopReductionPostpone := false }) hb hfalse
      refine Except.exists_bind_eq_ok_iff.2 ⟨_, by rw [State.fork, if_pos hnormal]; rfl, ?_⟩
      refine Except.exists_bind_eq_ok_iff.2 ⟨t, ht, Except.exists_bind_eq_ok_iff.2 ⟨u, hu, ?_⟩⟩
      exact ⟨_, rfl⟩

theorem execute_isOk_iff (hwf : ex.WF) (howns : ex.Owns m.s.constraints)
    (hlv : Leveled m.pkg.issueLevel) (hnormal : m.s.status = .normal)
    (hm : m.s.All WordExpr.MulForm) :
    (∃ r, ex.execute m ir = .ok r) ↔ ¬ m.s.ExecuteFails m.pkg.issueLevel ir := by
  have hsimple : ∀ {x : Except Abort Mach},
      (∃ r, (x >>= fun m' => pure (⟨ex, m'.pkg, [m'.s]⟩ : StepResult)) = .ok r) ↔
        ∃ m', x = .ok m' := by
    intro x
    rw [Except.exists_bind_eq_ok_iff]
    exact ⟨fun ⟨m', h, _⟩ => ⟨m', h⟩, fun ⟨m', h⟩ => ⟨m', h, _, rfl⟩⟩
  unfold execute State.ExecuteFails
  cases hid : ir.instID with
  | ADD | ADDi =>
      simp only [executeSimple, hid, hsimple, not_false_eq_true, iff_true]
      exact Mach.executeADD_isOk hlv hm ir
  | AND | ANDi =>
      simp only [executeSimple, hid, hsimple, not_false_eq_true, iff_true]
      exact Mach.executeAND_isOk hlv ir
  | BR =>
      simp only [not_false_eq_true, iff_true]
      exact executeBR_isOk hwf howns hlv hnormal ir
  | JMP =>
      simp only [executeSimple, hid, hsimple, not_false_eq_true, iff_true]
      exact Mach.executeJMP_isOk hlv ir
  | JSR =>
      simp only [executeSimple, hid, hsimple, not_false_eq_true, iff_true]
      exact ⟨_, rfl⟩
  | JSRR =>
      simp only [executeSimple, hid, hsimple, not_false_eq_true, iff_true]
      exact Mach.executeJSRR_isOk hlv ir
  | LD =>
      simp only [executeSimple, hid, hsimple, not_false_eq_true, iff_true]
      exact Mach.loadFrom_isOk hlv (m.s.pc + ir.imm9) ir
  | LDI =>
      simp only [not_false_eq_true, iff_true]
      exact executeLDI_isOk hwf howns hlv hnormal ir
  | LDR =>
      simp only [not_false_eq_true, iff_true]
      exact executeLDR_isOk hwf howns hlv hnormal ir
  | LEA =>
      simp only [executeSimple, hid, hsimple, not_false_eq_true, iff_true]
      exact ⟨_, rfl⟩
  | NOT =>
      simp only [executeSimple, hid, hsimple, not_false_eq_true, iff_true]
      exact Mach.executeNOT_isOk hlv ir
  | ST =>
      simp only [executeSimple, hid, hsimple]
      exact Mach.memWriteData_isOk_iff hlv
  | STI =>
      simp only [not_and, not_exists]
      exact executeSTI_isOk_iff hwf howns hlv hnormal
  | STR =>
      simp only [not_exists, not_and]
      exact executeSTR_isOk_iff hwf howns hlv hnormal
  | TRAP =>
      simp only [executeSimple, hid, hsimple]
      exact Mach.executeTRAP_isOk_iff hlv hnormal
  | RTI =>
      simp only [executeSimple, hid, hsimple]
      exact Mach.executeRTI_isOk_iff hlv

/-- A step fails exactly on an instruction that fails. -/
theorem step_isOk_iff (hwf : ex.WF) (howns : ex.Owns m.s.constraints)
    (hlv : Leveled m.pkg.issueLevel) (hnormal : m.s.status = .normal)
    (hm : m.s.All WordExpr.MulForm) :
    (∃ r, ex.step m = .ok r) ↔ ¬ ∃ ir, m.s.mem.read m.s.pc = some (.inst ir) ∧
      (m.fetched ir).s.ExecuteFails m.pkg.issueLevel ir := by
  have hfatal : ∀ (type : IssueType) (note : String), mustBeError type = true →
      type ≠ .errInvalidInst → ∃ m' : Mach, (do
        let m ← m.newStateIssue type m.s.latestNonOSInst.1 note
        assertBroken m
        return (m, (none : Option InstValue))) = .ok (m', none) ∧ m'.s.status ≠ .normal := by
    intro type note hmust hne
    obtain ⟨m', hraise, hbroken, hassert⟩ :=
      Mach.newStateIssue_fatal (hlv.fatal type hmust hne) m.s.latestNonOSInst.1 note
    refine ⟨m', ?_, by rw [hbroken]; simp⟩
    rw [hraise, Except.ok_bind', hassert]
    rfl
  unfold step fetchInst
  cases hread : m.s.mem.read m.s.pc with
  | none =>
      obtain ⟨m', hm', hne⟩ := hfatal .errExecuteUninitializedMemory
        ("trying to execute addr " ++ toLC3Hex m.s.pc ++ ".\n") rfl (by simp)
      refine ⟨fun _ ⟨ir, hir, _⟩ => (by cases hir), fun _ => ?_⟩
      exact Except.exists_bind_eq_ok_iff.2 ⟨_, hm', _, if_pos hne⟩
  | some value =>
      cases value with
      | data d =>
          obtain ⟨m', hm', hne⟩ := hfatal .errExecuteDataAsInst
            ("trying to execute addr " ++ toLC3Hex m.s.pc ++ ".\n") rfl (by simp)
          refine ⟨fun _ ⟨ir, hir, _⟩ => (by cases hir), fun _ => ?_⟩
          exact Except.exists_bind_eq_ok_iff.2 ⟨_, hm', _, if_pos hne⟩
      | inst ir =>
          have hiff : (∃ r, ex.execute (m.fetched ir) ir = .ok r) ↔ _ :=
            execute_isOk_iff hwf howns hlv hnormal (fetched_all hm)
          have hinst : (∃ ir', some (MemValue.inst ir) = some (.inst ir') ∧
              (m.fetched ir').s.ExecuteFails m.pkg.issueLevel ir') ↔
              (m.fetched ir).s.ExecuteFails m.pkg.issueLevel ir :=
            ⟨fun ⟨ir', heq, h⟩ => by cases heq; exact h, fun h => ⟨ir, rfl, h⟩⟩
          rw [hinst]
          refine Iff.trans ?_ hiff
          simp only [pure_bind, hnormal, ne_eq, not_true_eq_false, if_false, stepFetched,
            updateIRAndPC_eq, Except.ok_bind']
          rw [if_neg (by simpa [recordFetch, State.jump, State.mark] using hnormal)]
          rfl

end Executor

end Klc3
