import Klc3.Verification.MainLoop.Runs

/-!
# The warm-up of the gold program

With `returnImmediatelyIfWillFork` a step looks ahead at branches only. It still forks on
the address of a load or a store, and then the warm-up has several states where it expects
one.
-/

namespace Klc3

open IssuePackage (Leveled)

/-! ## Forking on an address -/

namespace State

/-- Two inputs of the state give the expression different values. -/
def Varies (s : State) (e : WordExpr) : Prop :=
  ∃ a b, s.constraints.Sat a ∧ s.constraints.Sat b ∧ e.eval a ≠ e.eval b

/-- The loads and stores whose address varies. `LDI` and `STI` get to it unless reading it
from memory ends the state. -/
def ForksOnAddress (lv : IssueType → Option Level) (s : State) (ir : InstValue) : Prop :=
  match ir.instID with
  | .LDR | .STR => s.Varies ((s.reg ir.baseR).getD (.const 0))
  | .LDI | .STI => ¬ s.ReadBreaks lv (s.pc + ir.imm9) ∧ s.Varies (s.cellExpr (s.pc + ir.imm9))
  | _ => False

theorem varies_congr {s t : State} (h : t.constraints = s.constraints) (e : WordExpr) :
    t.Varies e ↔ s.Varies e := by
  unfold Varies
  rw [h]

theorem varies_add (s : State) (e : WordExpr) (c : Word) :
    s.Varies (ExprBuilder.add e (.const c)) ↔ s.Varies e := by
  simp [Varies, WordExpr.eval]

end State

/-- The next instruction is one that fails or that forks on an address. -/
def Mach.FailsOrForks (m : Mach) : Prop :=
  ∃ ir, m.s.mem.read m.s.pc = some (.inst ir) ∧
    ((m.fetched ir).s.ExecuteFails m.pkg.issueLevel ir ∨
      (m.fetched ir).s.ForksOnAddress m.pkg.issueLevel ir)

namespace Executor

variable {ex : Executor} {m m' : Mach} {r : StepResult} {ir : InstValue} {s : State}
variable {expr addr : WordExpr} {uid : Nat} {instances : List (Word × State)}
variable {access : Mach → Word → Except Abort Mach}

/-- A state stays alone exactly when the expression has one value. -/
theorem Forks.length_eq_one_iff (hs : s.constraints.Satisfiable)
    (h : Forks s expr uid instances) : instances.length = 1 ↔ ¬ s.Varies expr := by
  constructor
  · rintro hlen ⟨a, b, ha, hb, hne⟩
    obtain ⟨i, rfl⟩ := List.length_eq_one_iff.1 hlen
    obtain ⟨j, hj, hja⟩ := h.covers a ha
    obtain ⟨k, hk, hkb⟩ := h.covers b hb
    obtain rfl := List.mem_singleton.1 hj
    obtain rfl := List.mem_singleton.1 hk
    exact hne (hja.trans hkb.symm)
  · intro hsame
    obtain ⟨a, ha⟩ := hs
    obtain ⟨i, hi, -⟩ := h.covers a ha
    -- every instance has an input, and all inputs give the same value
    have hvalue : ∀ v ∈ instances.map Prod.fst, v = expr.eval a := by
      intro v hv
      obtain ⟨j, hj, rfl⟩ := List.mem_map.1 hv
      obtain ⟨b, hb⟩ := h.satisfiable j hj
      obtain ⟨hb, hjb⟩ := (h.sat_iff j hj b).1 hb
      by_contra hne
      exact hsame ⟨a, b, ha, hb, fun heq => hne (hjb.symm.trans heq.symm)⟩
    have hsub : instances.map Prod.fst ⊆ [expr.eval a] := fun v hv => by simp [hvalue v hv]
    have hle : (instances.map Prod.fst).length ≤ 1 := h.nodup.length_le_of_subset hsub
    have hpos : 0 < instances.length := List.length_pos_of_mem hi
    simp only [List.length_map] at hle
    omega

theorem handleExpr_single_iff (hwf : ex.WF) (howns : ex.Owns m.s.constraints)
    (h : ex.handleExpr m addr access = .ok r) :
    r.states.length = 1 ↔ ¬ m.s.Varies addr := by
  obtain ⟨instances, hforks, -, -, -, -, heach⟩ := handleExpr_eq_ok hwf howns h
  have hlen := (accessEach_rule (I := fun _ => True) (R := fun _ _ => True) trivial
    (fun _ _ _ _ _ _ => ⟨trivial, trivial⟩) heach).1.length_eq
  rw [← hlen]
  exact hforks.length_eq_one_iff howns.satisfiable

theorem readMidAddr_single_iff (access : Mach → Mach → Word → Except Abort Mach)
    (hwf : ex.WF) (howns : ex.Owns m.s.constraints) (hlv : Leveled m.pkg.issueLevel)
    (hnormal : m.s.status = .normal)
    (h : ex.readMidAddr m ir (fun m addr => ex.handleExpr m addr (access m)) = .ok r) :
    r.states.length = 1 ↔ ¬ (¬ m.s.ReadBreaks m.pkg.issueLevel (m.s.pc + ir.imm9) ∧
      m.s.Varies (m.s.cellExpr (m.s.pc + ir.imm9))) := by
  obtain ⟨m₁, hread, hdata, -, hstatus⟩ := Mach.memReadData_spec hlv (m.s.pc + ir.imm9) ir
  obtain ⟨m₂, mid, hread', hcases⟩ := readMidAddr_eq_ok h
  cases hread.symm.trans hread'
  rcases hcases with ⟨hne, rfl⟩ | ⟨hnormal₁, e, he, hgo⟩
  · have hbreaks : m.s.ReadBreaks m.pkg.issueLevel (m.s.pc + ir.imm9) := by
      by_contra hread
      exact hne (hstatus.2 ⟨hnormal, hread⟩)
    exact iff_of_true rfl fun hread => hread.1 hbreaks
  · cases he
    rw [handleExpr_single_iff hwf (by rw [hdata.constraints]; exact howns) hgo,
      State.varies_congr hdata.constraints, and_iff_right (hstatus.1 hnormal₁).2]

/-- An instruction other than a branch forks exactly on an address. -/
theorem execute_single_iff (hwf : ex.WF) (howns : ex.Owns m.s.constraints)
    (hlv : Leveled m.pkg.issueLevel) (hnormal : m.s.status = .normal) (hid : ir.instID ≠ .BR)
    (h : ex.execute m ir = .ok r) :
    r.states.length = 1 ↔ ¬ m.s.ForksOnAddress m.pkg.issueLevel ir := by
  have hsimple : ∀ {F : Prop}, ¬ F → (do
      let m ← executeSimple m ir
      return ⟨ex, m.pkg, [m.s]⟩) = Except.ok r → (r.states.length = 1 ↔ ¬ F) := by
    intro F hF h
    obtain ⟨m', -, h⟩ := Except.bind_eq_ok_iff.1 h
    cases h
    exact iff_of_true rfl hF
  -- the base register is read first, which leaves the constraints
  have hbase : ∀ access : Mach → Mach → Word → Except Abort Mach,
      (getReg m ir.baseR ir >>= fun p =>
        ex.handleExpr p.1 (ExprBuilder.add p.2 (.const ir.imm6)) (access p.1)) = .ok r →
      (r.states.length = 1 ↔ ¬ m.s.Varies ((m.s.reg ir.baseR).getD (.const 0))) := by
    intro access h
    obtain ⟨m₁, hget, heff, -⟩ := getReg_address hlv ir.baseR ir ir.imm6
    rw [hget, Except.ok_bind'] at h
    rw [handleExpr_single_iff hwf (by rw [heff.same.constraints]; exact howns) h,
      State.varies_add, State.varies_congr heff.same.constraints]
  unfold execute at h
  unfold State.ForksOnAddress
  cases hid' : ir.instID
  case BR => exact absurd hid' hid
  case LDR =>
    rw [hid'] at h
    exact hbase (fun _ => loadFrom ir) h
  case STR =>
    rw [hid'] at h
    exact hbase (fun _ m' addr => memWriteData m' addr (getRegBypass m ir.sr) ir) h
  case LDI =>
    rw [hid'] at h
    exact readMidAddr_single_iff (fun _ => loadFrom ir) hwf howns hlv hnormal h
  case STI =>
    rw [hid'] at h
    exact readMidAddr_single_iff
      (fun m₁ m addr => memWriteData m addr (getRegBypass m₁ ir.sr) ir) hwf howns hlv hnormal h
  all_goals
    rw [hid'] at h
    exact hsimple not_false h

/-! ## Steps that would not fork -/

/-- A step that keeps to its promise: it returns true with the state it was given, or false
with everything as it was. -/
def StepsAlone (ex : Executor) (m : Mach) : Prop :=
  (∃ r t, ex.stepUnlessFork m = .ok (.inr r) ∧ r.states = [t] ∧ t.uid = m.s.uid) ∨
    ex.stepUnlessFork m = .ok (.inl m)

/-- A step of the warm-up is one of the executor, from a state that has at most looked at
the condition codes. -/
theorem stepUnlessFork_results {P : WordExpr → Prop} (hP : Closed P) (hwf : ex.WF)
    (howns : ex.Owns m.s.constraints) (hm : m.s.All P)
    (h : ex.stepUnlessFork m = .ok (.inr r)) :
    ∃ m₀ : Mach, m₀.s.constraints = m.s.constraints ∧ m₀.s.uid = m.s.uid ∧
      m₀.pkg.issueLevel = m.pkg.issueLevel ∧ Results P ex m₀ r := by
  by_cases hbranch : ∀ ir, m.s.mem.read m.s.pc = some (.inst ir) → m.s.status = .normal →
      ir.instID ≠ .BR
  · rw [stepUnlessFork_eq_step hbranch] at h
    obtain ⟨r', hstep, h⟩ := Except.map_eq_ok_iff.1 h
    cases h
    obtain ⟨m₀, rfl | ⟨-, ir, -, rfl⟩, hresults⟩ := step_results hP hwf howns hm hstep
    · exact ⟨m₀, rfl, rfl, rfl, hresults⟩
    · exact ⟨m.fetched ir, rfl, rfl, rfl, hresults⟩
  · push Not at hbranch
    obtain ⟨ir, hread, hnormal, hid⟩ := hbranch
    rw [stepUnlessFork_eq_branch hread hnormal hid] at h
    obtain ⟨⟨m₁, br, cond⟩, hsolve, h⟩ := Except.bind_eq_ok_iff.1 h
    have heff := solveBRCond_effects hP hm hsolve
    have howns₁ : ex.Owns (m₁.fetched ir).s.constraints := by
      change ex.Owns m₁.s.constraints
      rw [heff.same.constraints]
      exact howns
    refine ⟨m₁.fetched ir, heff.same.constraints, heff.same.uid, heff.issueLevel, ?_⟩
    dsimp only at h
    split at h
    · cases h
    · obtain ⟨r', hrun, h⟩ := Except.map_eq_ok_iff.1 h
      cases h
      rcases stepFetched_eq_ok hrun with ⟨-, rfl⟩ | ⟨-, hrun⟩
      · exact .of_frames hwf howns₁.satisfiable
          (Mach.Effects.refl (fetched_all heff.all)).frames
      · exact execute_results hP hwf howns₁ (fetched_all heff.all) hrun

/-- A branch that was decided is decided in the same way when it is executed. -/
theorem executeBR_decided {m₁ : Mach} {br : Validity} {cond : Option BoolExpr}
    (exact : ex.solver.Exact) (hsat : m.s.constraints.Satisfiable)
    (hlv : Leveled m.pkg.issueLevel) (hsolve : ex.solveBRCond m ir = .ok (m₁, br, cond))
    (hbr : br ≠ .unknown) (h : ex.executeBR (m₁.fetched ir) ir = .ok r) :
    r.states.length = 1 := by
  obtain ⟨m₂, br₂, cond₂, hsolve₂, hcases⟩ := executeBR_eq_ok h
  rcases hcases with ⟨-, rfl⟩ | ⟨-, rfl⟩ | ⟨rfl, -⟩
  · rfl
  · rfl
  exfalso
  have heff := solveBRCond_effects Mach.closed_any (Mach.all_any _) hsolve
  have hreads := Mach.solveBRCond_reads hsolve
  have hsat₁ : (m₁.fetched ir).s.constraints.Satisfiable := by
    change m₁.s.constraints.Satisfiable
    rw [heff.same.constraints]
    exact hsat
  have hlv₁ : Leveled (m₁.fetched ir).pkg.issueLevel := by
    change Leveled m₁.pkg.issueLevel
    rw [heff.issueLevel]
    exact hlv
  obtain ⟨-, e, he, -, ⟨a, ha, htrue⟩, b, hb, hfalse⟩ :=
    solveBRCond_unknown exact hsat₁ hlv₁ hsolve₂
  have he : m₁.s.getCCExpr = some e := he
  obtain ⟨rg, hrg, hreg⟩ := Option.bind_eq_some_iff.1 he
  rcases hreads.reg rg with hsame | ⟨-, hzero⟩
  · -- the condition codes were initialized, so the first look was at the same condition
    have hcc : m.s.getCCExpr = some e := by
      rw [State.getCCExpr, ← hreads.ccRef, hrg, Option.bind_some, ← hsame]
      exact hreg
    rcases solveBRCond_eq_ok hsolve with ⟨hzero, -⟩ | ⟨hseven, -⟩ | ⟨-, -, e', hget, -, hbr'⟩
    · rcases solveBRCond_eq_ok hsolve₂ with ⟨-, -, hbr₂⟩ | ⟨-, -, hbr₂⟩ | ⟨hne, -⟩
      · cases hbr₂
      · cases hbr₂
      · exact hne hzero
    · rcases solveBRCond_eq_ok hsolve₂ with ⟨-, -, hbr₂⟩ | ⟨-, -, hbr₂⟩ | ⟨-, hne, -⟩
      · cases hbr₂
      · cases hbr₂
      · exact hne hseven
    · have hget' : getCCExpr m ir = .ok (m, e) := by
        unfold getCCExpr
        rw [hcc]
        rfl
      cases hget.symm.trans hget'
      cases br with
      | unknown => exact hbr rfl
      | valid =>
          have := (Solver.evaluate_valid_iff exact hsat).1 hbr'.symm b hb
          rw [hfalse] at this
          cases this
      | invalid =>
          have := (Solver.evaluate_invalid_iff exact hsat).1 hbr'.symm a ha
          rw [htrue] at this
          cases this
  · rw [hzero] at hreg
    cases hreg
    rw [brCondition_zero ir.cc a b, hfalse] at htrue
    cases htrue

theorem stepUnlessFork_alone (hwf : ex.WF) (howns : ex.Owns m.s.constraints)
    (h : ex.stepUnlessFork m = .ok (.inr r)) (hlen : r.states.length = 1) :
    ∃ t, r.states = [t] ∧ t.uid = m.s.uid := by
  obtain ⟨m₀, -, huid, -, hresults⟩ :=
    stepUnlessFork_results Mach.closed_any hwf howns (Mach.all_any _) h
  obtain ⟨t, ht⟩ := List.length_eq_one_iff.1 hlen
  have huids := hresults.uids
  rw [ht] at huids
  simp only [List.map_cons, List.map_nil, List.length_cons, List.length_nil, zero_add,
    tsub_self, List.range'_zero, List.nil_append, List.cons.injEq, and_true] at huids
  exact ⟨t, ht, huids.trans huid⟩

theorem step_single_iff (hwf : ex.WF) (howns : ex.Owns m.s.constraints)
    (hlv : Leveled m.pkg.issueLevel) (hnormal : m.s.status = .normal)
    (hbranch : ∀ ir, m.s.mem.read m.s.pc = some (.inst ir) → ir.instID ≠ .BR)
    (h : ex.step m = .ok r) :
    r.states.length = 1 ↔ ¬ ∃ ir, m.s.mem.read m.s.pc = some (.inst ir) ∧
      (m.fetched ir).s.ForksOnAddress m.pkg.issueLevel ir := by
  rcases step_eq_ok h with ⟨type, note, m', hfetch, -, -, rfl⟩ | ⟨ir, hread, hcases⟩
  · refine iff_of_true rfl ?_
    rintro ⟨ir, hread, -⟩
    rcases hfetch with ⟨hnone, -⟩ | ⟨⟨d, hdata⟩, -⟩
    · cases hread.symm.trans hnone
    · cases hread.symm.trans hdata
  · rcases hcases with ⟨hne, -⟩ | ⟨-, hrun⟩
    · exact absurd hnormal hne
    · rw [execute_single_iff (m := m.fetched ir) hwf howns hlv hnormal (hbranch ir hread) hrun]
      refine not_congr ⟨fun hforks => ⟨ir, hread, hforks⟩, ?_⟩
      rintro ⟨ir', hread', hforks⟩
      cases hread.symm.trans hread'
      exact hforks

/-- A step keeps to its promise except on an instruction that fails or that forks on an
address. -/
theorem stepsAlone_iff (hwf : ex.WF) (howns : ex.Owns m.s.constraints)
    (hlv : Leveled m.pkg.issueLevel) (hnormal : m.s.status = .normal)
    (hm : m.s.All WordExpr.MulForm) :
    ex.StepsAlone m ↔ ¬ m.FailsOrForks := by
  by_cases hbranch : ∀ ir, m.s.mem.read m.s.pc = some (.inst ir) → ir.instID ≠ .BR
  · have hisOk := step_isOk_iff hwf howns hlv hnormal hm
    have hstep : ex.stepUnlessFork m = .inr <$> ex.step m :=
      stepUnlessFork_eq_step fun ir hread _ => hbranch ir hread
    constructor
    · rintro (⟨r, t, hrun, hstates, -⟩ | hrun)
      · obtain ⟨r', hr, heq⟩ := Except.map_eq_ok_iff.1 (hstep.symm.trans hrun)
        cases heq
        have hsingle := (step_single_iff hwf howns hlv hnormal hbranch hr).1 (by rw [hstates]; rfl)
        rintro ⟨ir, hread, hfails | hforks⟩
        · exact hisOk.1 ⟨r, hr⟩ ⟨ir, hread, hfails⟩
        · exact hsingle ⟨ir, hread, hforks⟩
      · obtain ⟨r', -, heq⟩ := Except.map_eq_ok_iff.1 (hstep.symm.trans hrun)
        cases heq
    · intro hgood
      obtain ⟨r, hr⟩ := hisOk.2 fun ⟨ir, hread, hfails⟩ => hgood ⟨ir, hread, .inl hfails⟩
      have hrun : ex.stepUnlessFork m = .ok (.inr r) := by
        rw [hstep, hr]
        rfl
      have hlen := (step_single_iff hwf howns hlv hnormal hbranch hr).2
        fun ⟨ir, hread, hforks⟩ => hgood ⟨ir, hread, .inr hforks⟩
      obtain ⟨t, hstates, huid⟩ := stepUnlessFork_alone hwf howns hrun hlen
      exact .inl ⟨r, t, hrun, hstates, huid⟩
  · push Not at hbranch
    obtain ⟨ir, hread, hid⟩ := hbranch
    refine iff_of_true ?_ ?_
    · have heq : ex.stepUnlessFork m = _ := stepUnlessFork_eq_branch hread hnormal hid
      obtain ⟨⟨m₁, br, cond⟩, hsolve⟩ : ∃ p, ex.solveBRCond m ir = .ok p :=
        solveBRCond_isOk hlv ir
      rw [hsolve, Except.ok_bind'] at heq
      dsimp only at heq
      by_cases hbr : br = .unknown
      · subst hbr
        obtain ⟨rfl, -⟩ := solveBRCond_unknown hwf.exact howns.satisfiable hlv hsolve
        exact .inr (heq.trans (if_pos rfl))
      · rw [if_neg hbr] at heq
        have heff := solveBRCond_effects Mach.closed_any (Mach.all_any _) hsolve
        have howns₁ : ex.Owns (m₁.fetched ir).s.constraints := by
          change ex.Owns m₁.s.constraints
          rw [heff.same.constraints]
          exact howns
        -- an issue about the condition codes may have ended the state
        have hrun : ∃ r, ex.stepFetched m₁ ir = .ok r ∧ r.states.length = 1 := by
          unfold stepFetched
          rw [updateIRAndPC_eq, Except.ok_bind']
          split
          · exact ⟨_, rfl, rfl⟩
          · rename_i hnormal₁
            obtain ⟨r, hr⟩ := executeBR_isOk hwf howns₁ (m := m₁.fetched ir)
              (by change Leveled m₁.pkg.issueLevel; rw [heff.issueLevel]; exact hlv)
              (not_not.1 hnormal₁) ir
            refine ⟨r, ?_, executeBR_decided hwf.exact howns.satisfiable hlv hsolve hbr hr⟩
            unfold execute
            rw [hid]
            exact hr
        obtain ⟨r, hr, hlen⟩ := hrun
        rw [hr] at heq
        obtain ⟨t, hstates, huid⟩ := stepUnlessFork_alone hwf howns heq hlen
        exact .inl ⟨r, t, heq, hstates, huid⟩
    · rintro ⟨ir', hread', h⟩
      cases hread.symm.trans hread'
      simp [State.ExecuteFails, State.ForksOnAddress, hid] at h

end Executor

/-! ## The warm-up -/

/-- The warm-up goes on with the state it has, the only result of a step, or it ends with
everything as it is. -/
def Gold.Advances (g : Gold) : Prop :=
  (∃ r t, g.ex.stepUnlessFork ⟨g.startup, g.pkg⟩ = .ok (.inr r) ∧ r.states = [t] ∧
    t.uid = g.startup.uid ∧ Options.warmUpNext g = .ok (some ⟨r.ex, r.pkg, t⟩)) ∨
  (g.ex.stepUnlessFork ⟨g.startup, g.pkg⟩ = .ok (.inl ⟨g.startup, g.pkg⟩) ∧
    Options.warmUpNext g = .ok none)

namespace Options

variable {solver : Solver} {o : Options} {p : Program} {g g' : Gold}

/-- The warm-up of a gold program passes through `g`. -/
def WarmsThrough (o : Options) (solver : Solver) (p : Program) (g : Gold) : Prop :=
  ∃ ex s, (Executor.new solver o.forkOnSymAddrThreshold p.baseMem).createInitState p.constraints
    p.initPC = .ok (ex, s) ∧ Loop.Reaches warmUpNext ⟨ex, o.issuePackage, s⟩ g

/-- What the warm-up keeps. -/
structure WarmUpInv (o : Options) (g : Gold) : Prop where
  wf : g.ex.WF
  owns : g.ex.Owns g.startup.constraints
  all : g.startup.All WordExpr.MulForm
  issueLevel : g.pkg.issueLevel = o.issuePackage.issueLevel

theorem warmUpNext_inv (hg : o.WarmUpInv g) (h : warmUpNext g = .ok (some g')) :
    o.WarmUpInv g' := by
  unfold warmUpNext at h
  split at h
  · cases h
  obtain ⟨m | r, hstep, h⟩ := Except.bind_eq_ok_iff.1 h
  · cases h
  dsimp only at h
  split at h
  · cases h
  rename_i t hlast
  split at h
  · cases h
  cases h
  have ht := List.mem_of_getLast? hlast
  obtain ⟨m₀, hcs, -, hlevel, hresults⟩ :=
    Executor.stepUnlessFork_results closed_mulForm hg.wf hg.owns hg.all hstep
  have hmem : t.constraints.Sat ∈ r.states.map fun t => t.constraints.Sat :=
    List.mem_map_of_mem ht
  refine ⟨hresults.wf, ⟨hresults.splits.inhabited _ hmem, fun a ha => ?_⟩,
    hresults.all t ht, (hresults.recorded.issueLevel.trans hlevel).trans hg.issueLevel⟩
  have ha₀ : m₀.s.constraints.Sat a := (hresults.splits.covers a).2 ⟨_, hmem, ha⟩
  rw [hcs] at ha₀
  rw [hresults.grows.initConstraints]
  exact hg.owns.init a ha₀

theorem WarmsThrough.inv (exact : solver.Exact) (hmem : p.Loadable)
    (h : o.WarmsThrough solver p g) : o.WarmUpInv g := by
  obtain ⟨ex, s, hinit, hreach⟩ := h
  refine hreach.invariant (motive := o.WarmUpInv) ?_ fun _ _ => warmUpNext_inv
  obtain ⟨⟨cs, rfl⟩, -, hsat, rfl⟩ := Executor.createInitState_spec exact hinit
  refine ⟨⟨exact, by simp [Executor.new]⟩, ⟨hsat, fun _ ha => ha⟩, ?_, rfl⟩
  refine ⟨by simp [State.init], ?_, by simp [State.init]⟩
  exact State.all_mem_of_baseMem closed_mulForm rfl fun addr v e hv he =>
    (hmem addr v e hv he).mulForm

theorem advances_iff (hnormal : g.startup.status = .normal) :
    g.Advances ↔ g.ex.StepsAlone ⟨g.startup, g.pkg⟩ := by
  constructor
  · rintro (⟨r, t, hstep, hstates, huid, -⟩ | ⟨hstep, -⟩)
    · exact .inl ⟨r, t, hstep, hstates, huid⟩
    · exact .inr hstep
  · have hnext : warmUpNext g = _ := if_neg (not_not.2 hnormal)
    rintro (⟨r, t, hstep, hstates, huid⟩ | hstep)
    · refine .inl ⟨r, t, hstep, hstates, huid, ?_⟩
      rw [hnext, hstep, Except.ok_bind']
      simp [hstates]
    · refine .inr ⟨hstep, ?_⟩
      rw [hnext, hstep]
      rfl

/-- In every exploration and in every warm-up, a step keeps to its promise unless the next
instruction fails or forks on an address. In a warm-up that is when it goes on with all
that it has; where the instruction forks, it does not go on in a `NORMAL` state. -/
theorem reachable_alone_iff (exact : solver.Exact) (hpkg : o.issuePackage.Configured) :
    (∀ (gold : Option Gold) (fuel : Nat) (E₀ E : Exploration), o.test.Loadable →
      E₀.Starts solver o gold → E₀.Reaches fuel E → ∀ s ∈ E.frontier, s.status = .normal →
      (E.session.ex.StepsAlone ⟨s, E.session.pkg⟩ ↔ ¬ Mach.FailsOrForks ⟨s, E.session.pkg⟩)) ∧
    ∀ (p : Program) (g : Gold), p.Loadable → o.WarmsThrough solver p g →
      g.startup.status = .normal →
      (g.ex.StepsAlone ⟨g.startup, g.pkg⟩ ↔ ¬ Mach.FailsOrForks ⟨g.startup, g.pkg⟩) ∧
      (g.Advances ↔ ¬ Mach.FailsOrForks ⟨g.startup, g.pkg⟩) ∧
      (Mach.FailsOrForks ⟨g.startup, g.pkg⟩ →
        ∀ g', warmUpNext g = .ok (some g') → g'.startup.status ≠ .normal) := by
  constructor
  · intro gold fuel E₀ E hmem hstart hreach s hs hnormal
    have hinit : E₀.Inv WordExpr.MulForm solver o :=
      hstart.inv closed_mulForm exact fun addr v e hv he => (hmem addr v e hv he).mulForm
    have hinv := Exploration.Reaches.inv closed_mulForm hinit hreach
    refine Executor.stepsAlone_iff (m := ⟨s, E.session.pkg⟩) hinv.wf (hinv.owns hs) ?_ hnormal
      (hinv.all s hs)
    rw [hinv.issueLevel]
    exact hpkg.leveled
  · intro p g hmem hwarm hnormal
    have hinv := hwarm.inv exact hmem
    have hlv : Leveled g.pkg.issueLevel := by
      rw [hinv.issueLevel]
      exact hpkg.leveled
    have halone : g.ex.StepsAlone ⟨g.startup, g.pkg⟩ ↔ ¬ Mach.FailsOrForks ⟨g.startup, g.pkg⟩ :=
      Executor.stepsAlone_iff hinv.wf hinv.owns hlv hnormal hinv.all
    refine ⟨halone, (advances_iff hnormal).trans halone, ?_⟩
    intro hforks g' hnext hnormal'
    have hnot := mt halone.1 (not_not.2 hforks)
    unfold warmUpNext at hnext
    rw [if_neg (not_not.2 hnormal)] at hnext
    obtain ⟨m | r, hstep, hnext⟩ := Except.bind_eq_ok_iff.1 hnext
    · cases hnext
    dsimp only at hnext
    split at hnext
    · cases hnext
    split at hnext
    · cases hnext
    · rename_i hguard
      cases hnext
      have hlen : r.states.length = 1 := by
        by_contra hlen
        exact hguard ⟨hnormal', hlen⟩
      obtain ⟨t, hstates, huid⟩ := Executor.stepUnlessFork_alone hinv.wf hinv.owns hstep hlen
      exact hnot (.inl ⟨r, t, hstep, hstates, huid⟩)

end Options

/-- A program that loads through a pointer it is given. -/
def Program.indirect : Program where
  mem :=
    [(0x3000, .inst ⟨0x3000, 0x2001, ⟨.LD, .RL, 0xF000, 0x2000⟩, by decide, false, [],
        "indirect.asm", 1, "LD R0, INPUT"⟩),
     (0x3001, .inst ⟨0x3001, 0x6200, ⟨.LDR, .RRI6, 0xF000, 0x6000⟩, by decide, false, [],
        "indirect.asm", 2, "LDR R1, R0, #0"⟩),
     (0x3002, .data ⟨some (.read .sample 0), false, false⟩)]
  constraints := []
  initPC := 0x3000
  preferences := []

theorem Program.indirect_loadable : Program.indirect.Loadable := by
  intro addr v e hv he
  have hv := ConstraintSet.mem_of_lookup_eq_some hv
  simp only [Program.indirect, List.mem_cons, Prod.mk.injEq, List.not_mem_nil, or_false] at hv
  rcases hv with ⟨-, rfl⟩ | ⟨-, rfl⟩ | ⟨-, rfl⟩ <;> cases he <;> trivial

/-- The first step of its warm-up is a plain load. -/
theorem indirect_advances : ∃ g : Gold,
    Options.sample.WarmsThrough Solver.ideal .indirect g ∧ g.startup.pc = 0x3000 ∧
    g.Advances := by
  have hinit : ∃ ex s, (Executor.new Solver.ideal Options.sample.forkOnSymAddrThreshold
      Program.indirect.baseMem).createInitState Program.indirect.constraints
      Program.indirect.initPC = .ok (ex, s) ∧
      s = State.init 0 Program.indirect.baseMem 0x3000 := ⟨_, _, rfl, rfl⟩
  obtain ⟨ex, s, hinit, rfl⟩ := hinit
  have hwarm : Options.sample.WarmsThrough Solver.ideal .indirect
      ⟨ex, Options.sample.issuePackage, State.init 0 Program.indirect.baseMem 0x3000⟩ :=
    ⟨ex, _, hinit, .refl⟩
  have hiff := ((Options.reachable_alone_iff (o := Options.sample) Solver.ideal_exact .empty).2 _ _
    Program.indirect_loadable hwarm rfl).2.1
  refine ⟨_, hwarm, rfl, hiff.2 ?_⟩
  rintro ⟨ir, hread, hfails | hforks⟩
  · cases hread
    exact hfails
  · cases hread
    exact hforks

/-- The second forks on the address, although it is asked not to. -/
theorem indirect_forks : ∃ (g : Gold) (r : StepResult), Program.indirect.Loadable ∧
    Options.sample.issuePackage.Configured ∧
    Options.sample.WarmsThrough Solver.ideal .indirect g ∧ g.startup.status = .normal ∧
    g.ex.stepUnlessFork ⟨g.startup, g.pkg⟩ = .ok (.inr r) ∧ 1 < r.states.length ∧
    ¬ g.ex.StepsAlone ⟨g.startup, g.pkg⟩ ∧ ¬ g.Advances := by
  have hinit : ∃ ex s g, (Executor.new Solver.ideal Options.sample.forkOnSymAddrThreshold
      Program.indirect.baseMem).createInitState Program.indirect.constraints
      Program.indirect.initPC = .ok (ex, s) ∧
      Options.warmUpNext ⟨ex, Options.sample.issuePackage, s⟩ = .ok (some g) ∧
      g.startup.status = .normal ∧ g.startup.constraints = [] ∧
      g.startup.reg 0 = some (.read .sample 0) ∧
      ∃ ir, g.startup.mem.read g.startup.pc = some (.inst ir) ∧ ir.instID = .LDR ∧ ir.baseR = 0 :=
    ⟨_, _, _, rfl, rfl, rfl, rfl, rfl, _, rfl, rfl, rfl⟩
  obtain ⟨ex, s, g, hinit, hnext, hnormal, hcs, hreg, ir, hread, hid, hbase⟩ := hinit
  have hwarm : Options.sample.WarmsThrough Solver.ideal .indirect g :=
    ⟨ex, s, hinit, .single hnext⟩
  have hinv := hwarm.inv Solver.ideal_exact Program.indirect_loadable
  have hlv : Leveled g.pkg.issueLevel := by
    rw [hinv.issueLevel]
    exact IssuePackage.Configured.empty.leveled
  have hforks : Mach.FailsOrForks ⟨g.startup, g.pkg⟩ := by
    refine ⟨ir, hread, .inr ?_⟩
    unfold State.ForksOnAddress
    rw [hid]
    refine ⟨fun _ _ => 0, fun _ _ => 1, ?_, ?_, ?_⟩
    · change g.startup.constraints.Sat _
      simp [hcs]
    · change g.startup.constraints.Sat _
      simp [hcs]
    · change ((g.startup.reg ir.baseR).getD (.const 0)).eval _ ≠
        ((g.startup.reg ir.baseR).getD (.const 0)).eval _
      rw [hbase, hreg]
      decide
  have hnot : ¬ g.ex.StepsAlone ⟨g.startup, g.pkg⟩ := fun h =>
    (Executor.stepsAlone_iff hinv.wf hinv.owns hlv hnormal hinv.all).1 h hforks
  have hsame : ∀ ir', g.startup.mem.read g.startup.pc = some (.inst ir') → ir' = ir := by
    intro ir' hread'
    cases hread'.symm.trans hread
    rfl
  obtain ⟨r, hr⟩ := (Executor.step_isOk_iff (m := ⟨g.startup, g.pkg⟩) hinv.wf hinv.owns hlv
    hnormal hinv.all).2 (by
      rintro ⟨ir', hread', hfails⟩
      rw [hsame ir' hread'] at hfails
      simp [State.ExecuteFails, hid] at hfails)
  have hstep : g.ex.stepUnlessFork ⟨g.startup, g.pkg⟩ = .ok (.inr r) := by
    rw [Executor.stepUnlessFork_eq_step fun ir' hread' _ => by simp [hsame ir' hread', hid], hr]
    rfl
  refine ⟨g, r, Program.indirect_loadable, .empty, hwarm, hnormal, hstep, ?_, hnot,
    mt (Options.advances_iff hnormal).1 hnot⟩
  by_contra hlen
  have huids := (Executor.step_spec closed_mulForm hinv.wf hinv.owns hinv.all hr).uids
  have hpos : 0 < r.states.length := by
    rw [← List.length_map (f := State.uid), huids]
    simp
  obtain ⟨t, hstates, huid⟩ :=
    Executor.stepUnlessFork_alone hinv.wf hinv.owns hstep (by omega)
  exact hnot (.inl ⟨r, t, hstep, hstates, huid⟩)

end Klc3
