import Klc3.Verification.Executor.Reads

/-!
# References to states

What the issue package may newly point to: only states on which an issue was accepted, and
these carry the flag that keeps them from being released. A step refers to its results only.
-/

namespace Klc3

namespace IssuePackage

variable {pkg pkg' : IssuePackage}

/-- Some issue was detected on the state with this uid. -/
def RefersTo (pkg : IssuePackage) (uid : Nat) : Prop :=
  ∃ issue info, pkg.find issue = some info ∧ info.s = some uid

/-- The description of some issue needs the gold state with this uid. -/
def RefersToGold (pkg : IssuePackage) (uid : Nat) : Prop :=
  ∃ issue info arg, pkg.find issue = some info ∧ info.descCallbackArg = some arg ∧
    arg.goldState = uid

/-- The issues of the loader are not about states. -/
def Global (pkg : IssuePackage) : Prop :=
  ∀ issue info, pkg.find issue = some info → info.s = none ∧ info.descCallbackArg = none

theorem Global.refersTo (h : pkg.Global) (id : Nat) : ¬ pkg.RefersTo id := by
  rintro ⟨issue, info, hfind, hs⟩
  rw [(h issue info hfind).1] at hs
  cases hs

theorem Global.refersToGold (h : pkg.Global) (id : Nat) : ¬ pkg.RefersToGold id := by
  rintro ⟨issue, info, arg, hfind, harg, -⟩
  rw [(h issue info hfind).2] at harg
  cases harg

/-- An issue is only filed when it is accepted, and then with the given information. -/
theorem raiseIssue_isNew {type : IssueType} {location : Option Location} {info info' : IssueInfo}
    {accepted : Bool} {issue : Issue}
    (h : pkg.raiseIssue type location info = .ok (pkg', accepted))
    (hfind : pkg'.find issue = some info') :
    pkg.find issue = some info' ∨
      (info' = info ∧ accepted = true ∧ pkg.issueLevel type ≠ some .none ∧
        pkg.find ⟨type, location⟩ = none) := by
  unfold raiseIssue getIssueLevel at h
  cases hlevel : pkg.issueLevel type with
  | none => simp [hlevel] at h
  | some level =>
      simp only [hlevel, pure_bind] at h
      split at h
      · cases h
        exact .inl hfind
      · rename_i hne
        split at h
        · rename_i hnone
          cases h
          simp only [find, lookup_insertIssue _ _ info _ hnone] at hfind
          split at hfind
          · cases hfind
            exact .inr ⟨rfl, rfl, by simpa using hne, hnone⟩
          · exact .inl hfind
        · cases h
          exact .inl hfind

end IssuePackage

namespace Mach

/-- From `m` to `m'` only issues on the state were filed, with descriptions as `args` allows,
and the flag of the state is up to date. -/
structure Files (args : CallBackArg → Prop) (m m' : Mach) : Prop where
  uid : m'.s.uid = m.s.uid
  flag : m.s.triggerNewIssue = true → m'.s.triggerNewIssue = true
  isNew : ∀ issue info, m'.pkg.find issue = some info → m.pkg.find issue = some info ∨
    (info.s = some m.s.uid ∧ m'.s.triggerNewIssue = true ∧
      ∀ arg, info.descCallbackArg = some arg → args arg)

/-- Issues without a callback. -/
def noArgs (_ : CallBackArg) : Prop := False

variable {args : CallBackArg → Prop} {m m' m'' : Mach} {ir : InstValue}

theorem Files.refl (m : Mach) : Files args m m :=
  ⟨rfl, fun h => h, fun _ _ h => .inl h⟩

theorem Files.trans (h : Files args m m') (h' : Files args m' m'') : Files args m m'' where
  uid := h'.uid.trans h.uid
  flag hflag := h'.flag (h.flag hflag)
  isNew issue info hfind := by
    rcases h'.isNew issue info hfind with hold | ⟨huid, hflag, hargs⟩
    · rcases h.isNew issue info hold with hold | ⟨huid, hflag, hargs⟩
      · exact .inl hold
      · exact .inr ⟨huid, h'.flag hflag, hargs⟩
    · exact .inr ⟨huid.trans (congrArg some h.uid), hflag, hargs⟩

theorem Files.mono {args' : CallBackArg → Prop} (h : Files args m m')
    (hargs : ∀ arg, args arg → args' arg) : Files args' m m' where
  uid := h.uid
  flag := h.flag
  isNew issue info hfind := by
    rcases h.isNew issue info hfind with hold | ⟨huid, hflag, hall⟩
    · exact .inl hold
    · exact .inr ⟨huid, hflag, fun arg harg => hargs arg (hall arg harg)⟩

theorem Files.of_same {s' : State} (huid : s'.uid = m.s.uid)
    (hflag : s'.triggerNewIssue = m.s.triggerNewIssue) : Files args m ⟨s', m.pkg⟩ :=
  ⟨huid, fun h => hflag.trans h, fun _ _ h => .inl h⟩

/-- What `newStateIssue` files, it files for an issue that it accepts. -/
theorem newStateIssueWith_isNew {type : IssueType} {location : Option InstValue} {note : String}
    {arg : Option CallBackArg} {issue : Issue} {info : IssueInfo}
    (h : m.newStateIssueWith type location note arg = .ok m')
    (hfind : m'.pkg.find issue = some info) :
    m.pkg.find issue = some info ∨
      (info.s = some m.s.uid ∧ info.descCallbackArg = arg ∧ m'.s.triggerNewIssue = true ∧
        m.accepts type location = true) := by
  obtain ⟨⟨pkg, accepted⟩, hraise, h⟩ := Except.bind_eq_ok_iff.1 h
  obtain ⟨level, hlevel, h⟩ := Except.bind_eq_ok_iff.1 h
  cases h
  rcases IssuePackage.raiseIssue_isNew hraise hfind with hold | ⟨rfl, rfl, hne, hnone⟩
  · exact .inl hold
  · exact .inr ⟨rfl, rfl, by simp, by simp [accepts, hne, hnone]⟩

theorem newStateIssueWith_files {type : IssueType} {location : Option InstValue} {note : String}
    {arg : Option CallBackArg} (hargs : ∀ a, arg = some a → args a)
    (h : m.newStateIssueWith type location note arg = .ok m') : Files args m m' := by
  obtain ⟨⟨pkg, accepted⟩, hraise, h'⟩ := Except.bind_eq_ok_iff.1 h
  obtain ⟨level, hlevel, h'⟩ := Except.bind_eq_ok_iff.1 h'
  cases h'
  refine ⟨rfl, fun hflag => by simp [hflag], fun issue info hfind => ?_⟩
  rcases newStateIssueWith_isNew h hfind with hold | ⟨huid, harg, hflag, -⟩
  · exact .inl hold
  · exact .inr ⟨huid, hflag, fun a ha => hargs a (harg ▸ ha)⟩

theorem newStateIssue_files {type : IssueType} {location : Option InstValue} {note : String}
    (h : m.newStateIssue type location note = .ok m') : Files args m m' :=
  newStateIssueWith_files (fun a ha => by cases ha) h

/-! ## Instructions -/

theorem getReg_files {r : Fin 8} {e : WordExpr} (h : getReg m r ir = .ok (m', e)) :
    Files args m m' := by
  rcases getReg_eq_ok h with ⟨-, rfl⟩ | ⟨-, -, m₁, hraise, rfl⟩
  · exact .refl _
  · refine Files.trans ?_ (.of_same rfl rfl)
    rcases hraise with ⟨-, rfl⟩ | ⟨-, note, hraise⟩
    · exact .refl _
    · exact newStateIssue_files hraise

theorem getCCExpr_files {e : WordExpr} (h : getCCExpr m ir = .ok (m', e)) : Files args m m' := by
  unfold getCCExpr at h
  split at h
  · cases h
    exact .refl _
  · split at h
    · obtain ⟨m₁, hraise, h⟩ := Except.bind_eq_ok_iff.1 h
      cases h
      exact newStateIssue_files hraise
    · obtain ⟨m₁, hraise, h⟩ := Except.bind_eq_ok_iff.1 h
      cases h
      exact (newStateIssue_files hraise).trans (.of_same rfl rfl)

theorem warnOnRead_files {addr : Word} {value : MemValue}
    (h : warnOnRead m addr value ir = .ok m') : Files args m m' := by
  unfold warnOnRead at h
  split at h
  · split at h
    · exact newStateIssue_files h
    · cases h
      exact .refl _
  · exact newStateIssue_files h

theorem memReadData_files {addr : Word} {dr : Option (Fin 8)} {value : Option WordExpr}
    (h : memReadData m addr ir dr = .ok (m', value)) : Files args m m' := by
  unfold memReadData at h
  split at h
  · obtain ⟨m₁, hraise, h⟩ := Except.bind_eq_ok_iff.1 h
    cases h
    exact newStateIssue_files hraise
  · obtain ⟨m₁, hwarn, h⟩ := Except.bind_eq_ok_iff.1 h
    have hfiles : Files args m m₁ := warnOnRead_files hwarn
    split at h
    · cases h
      exact hfiles
    · split at h
      · cases h
        exact hfiles
      · split at h
        · cases h
          exact hfiles
        · obtain ⟨m₂, hraise, h⟩ := Except.bind_eq_ok_iff.1 h
          cases h
          exact hfiles.trans ((newStateIssue_files hraise).trans (.of_same rfl rfl))

theorem checkOverwrite_files {addr : Word} {goesOn : Bool}
    (h : checkOverwrite m addr ir = .ok (m', goesOn)) : Files args m m' := by
  unfold checkOverwrite at h
  split at h
  · obtain ⟨m₁, hraise, h⟩ := Except.bind_eq_ok_iff.1 h
    cases h
    exact newStateIssue_files hraise
  · split at h
    · obtain ⟨m₁, hraise, h⟩ := Except.bind_eq_ok_iff.1 h
      cases h
      exact newStateIssue_files hraise
    · cases h
      exact .refl _
  · obtain ⟨m₁, hraise, h⟩ := Except.bind_eq_ok_iff.1 h
    obtain ⟨_, -, h⟩ := Except.bind_eq_ok_iff.1 h
    cases h
    exact newStateIssue_files hraise

theorem Halting.files (h : Halting m m') : Files args m m' := by
  cases h with
  | trap _ _ _ h =>
      subst h
      exact .of_same rfl rfl
  | manual _ _ _ _ h =>
      have hhalt : Files args m ⟨{ m.s with status := .halted }, m.pkg⟩ := .of_same rfl rfl
      exact hhalt.trans (newStateIssue_files h)

theorem Storing.files {addr : Word} {value : Option WordExpr} (h : Storing m addr value ir m') :
    Files args m m' := by
  cases h with
  | plain _ h =>
      subst h
      exact .of_same rfl rfl
  | display _ _ _ h =>
      subst h
      exact .of_same rfl rfl
  | displayNull m₁ note _ _ hraise h =>
      subst h
      have hstore : Files args m ⟨m.s.store addr value ir, m.pkg⟩ := .of_same rfl rfl
      exact hstore.trans ((newStateIssue_files hraise).trans (.of_same rfl rfl))

theorem memWriteData_files {addr : Word} {value : Option WordExpr}
    (h : memWriteData m addr value ir = .ok m') : Files args m m' := by
  rcases memWriteData_eq_ok h with hcheck | ⟨e, rfl, -, -, hhalt⟩ | ⟨m₁, hcheck, -, hstore⟩
  · exact checkOverwrite_files hcheck
  · have hstore : Files args m ⟨m.s.store 0xFFFE value ir, m.pkg⟩ := .of_same rfl rfl
    exact hstore.trans hhalt.files
  · exact (checkOverwrite_files hcheck).trans hstore.files

theorem loadFrom_files {addr : Word} (h : Executor.loadFrom ir m addr = .ok m') :
    Files args m m' := by
  obtain ⟨⟨m₁, data⟩, hread, h⟩ := Except.bind_eq_ok_iff.1 h
  have hfiles : Files args m m₁ := memReadData_files hread
  dsimp only at h
  split at h
  · cases h
    exact hfiles
  · rw [setRegAndCC_eq] at h
    cases h
    exact hfiles.trans (.of_same rfl rfl)

theorem symbolicPC_files (h : symbolicPC m ir = .ok m') : Files args m m' := by
  obtain ⟨⟨note, hraise⟩, -⟩ := symbolicPC_eq_ok h
  exact newStateIssue_files hraise

theorem checkRetInMainCode_files (h : checkRetInMainCode m ir = .ok m') : Files args m m' := by
  rcases checkRetInMainCode_eq_ok h with ⟨-, -, -, -, m₁, note, hraise, rfl⟩ | ⟨-, rfl⟩
  · exact (newStateIssue_files hraise).trans (.of_same rfl rfl)
  · exact .refl _

/-- A jump through a register, whose value is a constant or breaks the state. -/
theorem jumpTo_files {newPC : WordExpr}
    (h : (match newPC.asConst with
      | none => symbolicPC m ir
      | some _ => setRegExpr m .pc (some newPC) ir) = .ok m') : Files args m m' := by
  split at h
  · exact symbolicPC_files h
  · rename_i c hc
    rw [WordExpr.asConst_eq_some hc, setRegExpr_pc] at h
    cases h
    exact .of_same rfl rfl

theorem executeJMP_files (h : executeJMP m ir = .ok m') : Files args m m' := by
  obtain ⟨m₁, hcheck, h⟩ := Except.bind_eq_ok_iff.1 h
  have hfiles : Files args m m₁ := checkRetInMainCode_files hcheck
  split at h
  · obtain ⟨⟨m₂, newPC⟩, hget, h⟩ := Except.bind_eq_ok_iff.1 h
    exact hfiles.trans ((getReg_files hget).trans (jumpTo_files h))
  · cases h
    exact hfiles

theorem link_files {r : Fin 8} {w : Word} {m₁ : Mach}
    (h : setRegWord m (.gpr r) w ir = .ok m₁) : Files args m m₁ := by
  rw [setRegWord_gpr] at h
  cases h
  exact .of_same rfl rfl

theorem executeJSRR_files (h : executeJSRR m ir = .ok m') : Files args m m' := by
  obtain ⟨⟨m₁, newPC⟩, hget, h⟩ := Except.bind_eq_ok_iff.1 h
  refine (getReg_files hget).trans ?_
  dsimp only at h
  split at h
  · exact symbolicPC_files h
  · rename_i c hc
    obtain ⟨m₂, hlink, h⟩ := Except.bind_eq_ok_iff.1 h
    rw [WordExpr.asConst_eq_some hc, setRegExpr_pc] at h
    cases h
    exact (link_files hlink).trans (.of_same rfl rfl)

theorem executeADD_files (h : executeADD m ir = .ok m') : Files args m m' := by
  obtain ⟨⟨m₁, op1⟩, hget, h⟩ := Except.bind_eq_ok_iff.1 h
  have hfiles : Files args m m₁ := getReg_files hget
  have hsum : ∀ {m₂ : Mach} {op2 : WordExpr}, Files args m₁ m₂ →
      (addResult op1 op2 >>= fun e => setRegAndCC m₂ ir.dr (some e) ir) = .ok m' →
      Files args m m' := by
    intro m₂ op2 hfiles₂ h
    obtain ⟨e, -, h⟩ := Except.bind_eq_ok_iff.1 h
    rw [setRegAndCC_eq] at h
    cases h
    exact hfiles.trans (hfiles₂.trans (.of_same rfl rfl))
  dsimp only at h
  split at h
  · obtain ⟨⟨m₂, op2⟩, hget₂, h⟩ := Except.bind_eq_ok_iff.1 h
    exact hsum (getReg_files hget₂) h
  · exact hsum (.refl m₁) h

theorem warnOnAndOperand_files {r : Fin 8} {other : Option WordExpr}
    (h : warnOnAndOperand m r other ir = .ok m') : Files args m m' := by
  unfold warnOnAndOperand at h
  split at h
  · obtain ⟨m₁, hraise, h⟩ := Except.bind_eq_ok_iff.1 h
    exact (newStateIssue_files hraise).trans (link_files h)
  · cases h
    exact .refl _

theorem executeAND_files (h : executeAND m ir = .ok m') : Files args m m' := by
  obtain ⟨m₁, m₂, hwarn, hwarn', rfl⟩ := executeAND_eq_ok h
  have hstep : ∀ {c : Bool} {m m' : Mach} {r : Fin 8} {other : Option WordExpr},
      (if c then warnOnAndOperand m r other ir else pure m) = .ok m' → Files args m m' := by
    intro c m m' r other h
    split at h
    · exact warnOnAndOperand_files h
    · cases h
      exact .refl _
  exact (hstep hwarn).trans ((hstep hwarn').trans (.of_same rfl rfl))

theorem executeTRAP_files (h : executeTRAP m ir = .ok m') : Files args m m' := by
  unfold executeTRAP at h
  split at h
  · cases h
    exact .of_same rfl rfl
  · obtain ⟨m₁, hlink, h⟩ := Except.bind_eq_ok_iff.1 h
    obtain ⟨⟨m₂, newPC⟩, hread, h⟩ := Except.bind_eq_ok_iff.1 h
    have hfiles : Files args m m₂ := (link_files hlink).trans (memReadData_files hread)
    dsimp only at h
    split at h
    · cases h
      exact hfiles
    · split at h
      · cases h
      · obtain ⟨c, -, h⟩ := Except.bind_eq_ok_iff.1 h
        rw [setRegWord_pc] at h
        cases h
        exact hfiles.trans (.of_same rfl rfl)

theorem executeRTI_files (h : executeRTI m ir = .ok m') : Files args m m' := by
  obtain ⟨m₁, hraise, h⟩ := Except.bind_eq_ok_iff.1 h
  obtain ⟨_, -, h⟩ := Except.bind_eq_ok_iff.1 h
  cases h
  exact newStateIssue_files hraise

theorem executeSimple_files (h : Executor.executeSimple m ir = .ok m') : Files args m m' := by
  unfold Executor.executeSimple at h
  split at h
  · exact executeADD_files h
  · exact executeADD_files h
  · exact executeAND_files h
  · exact executeAND_files h
  · exact executeJMP_files h
  · obtain ⟨m₁, hlink, h⟩ := Except.bind_eq_ok_iff.1 h
    rw [setRegWord_pc] at h
    cases h
    exact (link_files hlink).trans (.of_same rfl rfl)
  · exact executeJSRR_files h
  · exact loadFrom_files h
  · obtain ⟨m₁, hlink, h⟩ := Except.bind_eq_ok_iff.1 h
    cases h
    exact (link_files hlink).trans (.of_same rfl rfl)
  · obtain ⟨⟨m₁, op⟩, hget, h⟩ := Except.bind_eq_ok_iff.1 h
    cases h
    exact (getReg_files hget).trans (.of_same rfl rfl)
  · exact memWriteData_files h
  · exact executeTRAP_files h
  · exact executeRTI_files h

theorem solveBRCond_files {ex : Executor} {br : Validity} {cond : Option BoolExpr}
    (h : ex.solveBRCond m ir = .ok (m', br, cond)) : Files args m m' := by
  rcases Executor.solveBRCond_eq_ok h with ⟨-, rfl, -⟩ | ⟨-, rfl, -⟩ | ⟨-, -, e, hget, -⟩
  · exact .refl _
  · exact .refl _
  · exact getCCExpr_files hget

end Mach

/-! ## Steps -/

namespace Executor

open Mach (Files noArgs)
open PossibleValues (Value)

variable {ex ex' : Executor} {m m₁ m' : Mach} {ir : InstValue} {r : StepResult}

/-- The results of a step are new states and the stepped state itself, and new issues are
on flagged ones of them. -/
structure Allocates (ex : Executor) (m : Mach) (r : StepResult) : Prop where
  results : ∃ forks t, r.states = forks ++ [t] ∧
    forks.map State.uid = List.range' ex.totalAllocatedStateCount forks.length ∧
    r.ex.totalAllocatedStateCount = ex.totalAllocatedStateCount + forks.length ∧
    t.uid = m.s.uid ∧ (m.s.triggerNewIssue = true → t.triggerNewIssue = true)
  isNew : ∀ issue info, r.pkg.find issue = some info → m.pkg.find issue = some info ∨
    (info.descCallbackArg = none ∧
      ∃ t ∈ r.states, info.s = some t.uid ∧ t.triggerNewIssue = true)

theorem Allocates.of_files (h : Files noArgs m m₁) (h' : Allocates ex m₁ r) :
    Allocates ex m r := by
  obtain ⟨forks, t, hstates, huids, hcount, huid, hflag⟩ := h'.results
  refine ⟨⟨forks, t, hstates, huids, hcount, huid.trans h.uid, fun hm => hflag (h.flag hm)⟩, ?_⟩
  intro issue info hfind
  rcases h'.isNew issue info hfind with hold | hnew
  · rcases h.isNew issue info hold with hold | ⟨huid₁, hflag₁, hargs⟩
    · exact .inl hold
    · refine .inr ⟨Option.eq_none_iff_forall_not_mem.2 fun a ha => hargs a ha, t, ?_, ?_, hflag hflag₁⟩
      · rw [hstates]
        exact List.mem_append_right _ (List.mem_singleton.2 rfl)
      · rw [huid₁, huid, h.uid]
  · exact .inr hnew

theorem Allocates.single (h : Files noArgs m m')
    (hcount : ex'.totalAllocatedStateCount = ex.totalAllocatedStateCount) :
    Allocates ex m ⟨ex', m'.pkg, [m'.s]⟩ :=
  .of_files h ⟨⟨[], m'.s, rfl, rfl, hcount, rfl, fun h => h⟩, fun _ _ hfind => .inl hfind⟩

/-- The instances of a fork, of which the last one is the state itself. -/
theorem forkOnValues_instances {s : State} {single : Bool} {uid : Nat} {values : List Value}
    {instances : List (Word × State)} (hne : values ≠ [])
    (h : forkOnValues s single uid values = .ok instances) :
    instances.length = values.length ∧ ∃ forks v t, instances = forks ++ [(v, t)] ∧
      (forks.map fun i => i.2.uid) = List.range' uid forks.length ∧
      t.uid = s.uid ∧ t.triggerNewIssue = s.triggerNewIssue := by
  induction values generalizing uid instances with
  | nil => exact absurd rfl hne
  | cons value rest ih =>
      obtain ⟨v, c⟩ := value
      cases rest with
      | nil =>
          unfold forkOnValues at h
          dsimp only at h
          split at h
          · cases h
            exact ⟨rfl, [], v, s, rfl, rfl, rfl, rfl⟩
          · obtain ⟨t, hadd, h⟩ := Except.bind_eq_ok_iff.1 h
            cases h
            obtain ⟨cs, -, rfl⟩ := State.addConstraint_eq_ok hadd
            exact ⟨rfl, [], v, _, rfl, rfl, rfl, rfl⟩
      | cons value' rest =>
          obtain ⟨t, hfork, h⟩ := Except.bind_eq_ok_iff.1 h
          obtain ⟨t', hadd, h⟩ := Except.bind_eq_ok_iff.1 h
          obtain ⟨instances', hrest, h⟩ := Except.bind_eq_ok_iff.1 h
          cases h
          obtain ⟨hlen, forks, v', u, rfl, huids, hu⟩ := ih (by simp) hrest
          obtain ⟨-, rfl⟩ := State.fork_eq_ok hfork
          obtain ⟨cs, -, rfl⟩ := State.addConstraint_eq_ok hadd
          refine ⟨congrArg Nat.succ hlen, _ :: forks, v', u, rfl, ?_, hu⟩
          rw [List.map_cons, huids, List.length_cons, List.range'_succ]

variable {access : Mach → Word → Except Abort Mach} {pkg pkg' : IssuePackage}
variable {instances : List (Word × State)} {states : List State}

theorem accessEach_files
    (haccess : ∀ {m m' : Mach} {c : Word}, access m c = .ok m' → Files noArgs m m')
    (h : accessEach access pkg instances = .ok (pkg', states)) :
    List.Forall₂ (fun i t => t.uid = i.2.uid ∧
      (i.2.triggerNewIssue = true → t.triggerNewIssue = true)) instances states ∧
    ∀ issue info, pkg'.find issue = some info → pkg.find issue = some info ∨
      (info.descCallbackArg = none ∧
        ∃ t ∈ states, info.s = some t.uid ∧ t.triggerNewIssue = true) := by
  induction instances generalizing pkg states with
  | nil =>
      cases h
      exact ⟨.nil, fun _ _ hfind => .inl hfind⟩
  | cons i rest ih =>
      obtain ⟨m, haccessed, h⟩ := Except.bind_eq_ok_iff.1 h
      obtain ⟨⟨pkg₁, states₁⟩, hrest, h⟩ := Except.bind_eq_ok_iff.1 h
      cases h
      have hfiles := haccess haccessed
      obtain ⟨heach, hnew⟩ := ih hrest
      refine ⟨.cons ⟨hfiles.uid, hfiles.flag⟩ heach, fun issue info hfind => ?_⟩
      rcases hnew issue info hfind with hold | ⟨harg, t, ht, ht'⟩
      · rcases hfiles.isNew issue info hold with hold | ⟨huid, hflag, hargs⟩
        · exact .inl hold
        · refine .inr ⟨Option.eq_none_iff_forall_not_mem.2 fun a ha => hargs a ha, m.s, ?_, ?_, hflag⟩
          · exact List.mem_cons_self
          · rw [huid, hfiles.uid]
      · exact .inr ⟨harg, t, List.mem_cons_of_mem _ ht, ht'⟩

theorem handleExpr_allocates {addr : WordExpr}
    (haccess : ∀ {m m' : Mach} {c : Word}, access m c = .ok m' → Files noArgs m m')
    (h : ex.handleExpr m addr access = .ok r) : Allocates ex m r := by
  unfold handleExpr at h
  split at h
  · obtain ⟨m', haccessed, h⟩ := Except.bind_eq_ok_iff.1 h
    cases h
    exact .single (haccess haccessed) rfl
  · obtain ⟨⟨ex₁, instances⟩, hfork, h⟩ := Except.bind_eq_ok_iff.1 h
    dsimp only at h
    split at h
    · cases h
    · rename_i hne
      obtain ⟨⟨pkg, states⟩, heach, h⟩ := Except.bind_eq_ok_iff.1 h
      cases h
      obtain ⟨⟨ex₂, values⟩, hvalues, hfork⟩ := Except.bind_eq_ok_iff.1 hfork
      obtain ⟨instances', hinstances, hfork⟩ := Except.bind_eq_ok_iff.1 hfork
      cases hfork
      have hcount := evalPossibleValuesWithCache_count hvalues
      have hvalues : values ≠ [] := by
        rintro rfl
        cases hinstances
        exact hne rfl
      obtain ⟨hlen, forks, v, t, rfl, huids, huid, hflag⟩ := forkOnValues_instances hvalues hinstances
      obtain ⟨hstates, hnew⟩ := accessEach_files haccess heach
      obtain ⟨front, t', rfl, hfront, huid', hflag'⟩ := hstates.concat_left
      have hlen' : forks.length = front.length := hfront.length_eq
      refine ⟨⟨front, t', rfl, ?_, ?_, huid'.trans huid, fun hm => hflag' (hflag.trans hm)⟩, hnew⟩
      · rw [← hlen', ← hcount, ← huids]
        exact (hfront.map_eq_map fun i t hR => hR.1.symm).symm
      · have hforks : values.length - 1 = forks.length := by
          rw [← hlen]
          simp
        change ex₂.totalAllocatedStateCount + (values.length - 1) = _
        rw [hforks, hcount, hlen']

theorem executeLDR_allocates (h : ex.executeLDR m ir = .ok r) : Allocates ex m r := by
  obtain ⟨⟨m₁, base⟩, hget, h⟩ := Except.bind_eq_ok_iff.1 h
  exact .of_files (Mach.getReg_files hget) (handleExpr_allocates Mach.loadFrom_files h)

theorem executeSTR_allocates (h : ex.executeSTR m ir = .ok r) : Allocates ex m r := by
  obtain ⟨⟨m₁, base⟩, hget, h⟩ := Except.bind_eq_ok_iff.1 h
  exact .of_files (Mach.getReg_files hget) (handleExpr_allocates Mach.memWriteData_files h)

theorem readMidAddr_allocates {access : Mach → Mach → Word → Except Abort Mach}
    (haccess : ∀ {m₁ m m' : Mach} {c : Word}, access m₁ m c = .ok m' → Files noArgs m m')
    (h : ex.readMidAddr m ir (fun m addr => ex.handleExpr m addr (access m)) = .ok r) :
    Allocates ex m r := by
  obtain ⟨m₁, mid, hread, ⟨-, rfl⟩ | ⟨-, e, -, hgo⟩⟩ := readMidAddr_eq_ok h
  · exact .single (Mach.memReadData_files hread) rfl
  · exact .of_files (Mach.memReadData_files hread) (handleExpr_allocates haccess hgo)

theorem executeBR_allocates (h : ex.executeBR m ir = .ok r) : Allocates ex m r := by
  obtain ⟨m₁, br, cond, hsolve, hr⟩ := executeBR_eq_ok h
  have hfiles : Files noArgs m m₁ := Mach.solveBRCond_files hsolve
  rcases hr with ⟨-, rfl⟩ | ⟨-, rfl⟩ | ⟨-, -, c, cs₀, cs₁, -, -, -, rfl⟩
  · have hjump : Files noArgs m₁ ⟨m₁.s.jump (m₁.s.pc + ir.imm9) ir, m₁.pkg⟩ := .of_same rfl rfl
    exact .single (hfiles.trans hjump) rfl
  · exact .single hfiles rfl
  · exact .of_files hfiles
      ⟨⟨[_], _, rfl, rfl, rfl, rfl, fun h => h⟩, fun _ _ hfind => .inl hfind⟩

theorem execute_allocates (h : ex.execute m ir = .ok r) : Allocates ex m r := by
  unfold execute at h
  split at h
  · exact executeBR_allocates h
  · exact executeLDR_allocates h
  · exact readMidAddr_allocates Mach.loadFrom_files h
  · exact executeSTR_allocates h
  · exact readMidAddr_allocates Mach.memWriteData_files h
  · obtain ⟨m', hsimple, h⟩ := Except.bind_eq_ok_iff.1 h
    cases h
    exact .single (Mach.executeSimple_files hsimple) rfl

theorem step_allocates (h : ex.step m = .ok r) : Allocates ex m r := by
  rcases step_eq_ok h with ⟨type, note, m', -, hraise, -, rfl⟩ | ⟨ir, -, ⟨-, rfl⟩ | ⟨-, h⟩⟩
  · exact .single (Mach.newStateIssue_files hraise) rfl
  · exact .single (.refl m) rfl
  · have hfetch : Files noArgs m (m.fetched ir) := .of_same rfl rfl
    exact .of_files hfetch (execute_allocates h)

theorem stepUnlessFork_allocates (h : ex.stepUnlessFork m = .ok (.inr r)) : Allocates ex m r := by
  by_cases hbranch : ∀ ir, m.s.mem.read m.s.pc = some (.inst ir) → m.s.status = .normal →
      ir.instID ≠ .BR
  · rw [stepUnlessFork_eq_step hbranch] at h
    obtain ⟨r', hstep, h⟩ := Except.map_eq_ok_iff.1 h
    cases h
    exact step_allocates hstep
  · push Not at hbranch
    obtain ⟨ir, hread, hnormal, hid⟩ := hbranch
    rw [stepUnlessFork_eq_branch hread hnormal hid] at h
    obtain ⟨⟨m₁, br, cond⟩, hsolve, h⟩ := Except.bind_eq_ok_iff.1 h
    have hfetch : Files noArgs m (m₁.fetched ir) :=
      (Mach.solveBRCond_files hsolve).trans (.of_same rfl rfl)
    dsimp only at h
    split at h
    · cases h
    · obtain ⟨r', hrun, h⟩ := Except.map_eq_ok_iff.1 h
      cases h
      rcases stepFetched_eq_ok hrun with ⟨-, rfl⟩ | ⟨-, hrun⟩
      · exact .single hfetch rfl
      · exact .of_files hfetch (execute_allocates hrun)

end Executor

end Klc3
