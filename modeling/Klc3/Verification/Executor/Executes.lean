import Klc3.Verification.Executor.Terminal

/-!
# What an instruction does to one result

Derivations of the result states of a step, one rule for each way in which an instruction
comes to a result. They hold whatever the solver answers; that the address of an access
is a value of its expression needs an exact one.
-/

namespace Klc3

/-- An instruction other than the five that may fork. -/
def InstValue.isSimple (ir : InstValue) : Bool :=
  match ir.instID with
  | .BR | .LDR | .LDI | .STR | .STI => false
  | _ => true

namespace Executor

variable {ex : Executor} {m m₁ : Mach} {ir : InstValue} {r : StepResult} {t : State}
variable {addr : WordExpr} {access : Mach → Word → Except Abort Mach}

/-- One of the accesses of `handleExpr`: the access at `c`, in a copy of the state. -/
inductive Accesses (ex : Executor) (m : Mach) (addr : WordExpr)
    (access : Mach → Word → Except Abort Mach) : State → Prop
  | intro (u : State) (c : Word) (pkg : IssuePackage) (m' : Mach) (hcopy : m.s.Copy u)
      (haddr : ex.WF → ex.Owns m.s.constraints → ∀ a, u.constraints.Sat a → addr.eval a = c)
      (haccess : access ⟨u, pkg⟩ c = .ok m') : Accesses ex m addr access m'.s

theorem mem_handleExpr (h : ex.handleExpr m addr access = .ok r) (ht : t ∈ r.states) :
    Accesses ex m addr access t := by
  unfold handleExpr at h
  split at h
  · rename_i c hconst
    obtain ⟨m', haccess, h⟩ := Except.bind_eq_ok_iff.1 h
    cases h
    obtain rfl := List.mem_singleton.1 ht
    refine .intro m.s c m.pkg m' (.refl _) (fun _ _ a _ => ?_) haccess
    obtain ⟨d, rfl⟩ := WordExpr.isConst_iff.1 (Option.isSome_of_eq_some hconst)
    cases hconst
    rfl
  · obtain ⟨⟨ex₁, instances⟩, hfork, h⟩ := Except.bind_eq_ok_iff.1 h
    dsimp only at h
    split at h
    · cases h
    · obtain ⟨⟨pkg, states⟩, heach, h⟩ := Except.bind_eq_ok_iff.1 h
      cases h
      have hcopy : ∀ i ∈ instances, m.s.Copy i.2 := by
        obtain ⟨⟨ex₂, values⟩, -, hfork⟩ := Except.bind_eq_ok_iff.1 hfork
        obtain ⟨instances', hvalues, heq⟩ := Except.bind_eq_ok_iff.1 hfork
        cases heq
        exact forkOnValues_copy hvalues
      obtain ⟨hall, -⟩ := accessEach_rule (I := fun _ => True)
        (R := fun i t => ∃ pkg m', access ⟨i.2, pkg⟩ i.1 = .ok m' ∧ t = m'.s) trivial
        (fun i _ pkg m' _ hrun => ⟨⟨pkg, m', hrun, rfl⟩, trivial⟩) heach
      obtain ⟨i, hi, pkg', m', haccess, rfl⟩ := hall.exists_left ht
      refine .intro i.2 i.1 pkg' m' (hcopy i hi) (fun hwf howns a ha => ?_) haccess
      exact (((forkOnRange_spec hwf howns hfork).1.sat_iff i hi a).1 ha).2

/-- How the instruction `ir` gets from `m` to a result. -/
inductive Executes (ex : Executor) (m : Mach) (ir : InstValue) : State → Prop
  | simple (m' : Mach) (hid : ir.isSimple = true) (h : executeSimple m ir = .ok m') :
      Executes ex m ir m'.s
  | falls (m₁ : Mach) (br : Validity) (cond : Option BoolExpr) (u : State) (hid : ir.instID = .BR)
      (hsolve : ex.solveBRCond m ir = .ok (m₁, br, cond)) (hcopy : m₁.s.Copy u) :
      Executes ex m ir u
  | branches (m₁ : Mach) (br : Validity) (cond : Option BoolExpr) (u : State)
      (hid : ir.instID = .BR) (hsolve : ex.solveBRCond m ir = .ok (m₁, br, cond))
      (hcopy : m₁.s.Copy u) : Executes ex m ir (u.jump (u.pc + ir.imm9) ir)
  | loads (m₁ : Mach) (base : WordExpr) (t : State) (hid : ir.instID = .LDR)
      (hget : getReg m ir.baseR ir = .ok (m₁, base))
      (h : Accesses ex m₁ (ExprBuilder.add base (.const ir.imm6)) (loadFrom ir) t) :
      Executes ex m ir t
  | stores (m₁ : Mach) (base : WordExpr) (t : State) (hid : ir.instID = .STR)
      (hget : getReg m ir.baseR ir = .ok (m₁, base))
      (h : Accesses ex m₁ (ExprBuilder.add base (.const ir.imm6))
        (fun m' c => memWriteData m' c (m.s.reg ir.sr) ir) t) : Executes ex m ir t
  | stops (m₁ : Mach) (mid : Option WordExpr) (hid : ir.instID = .LDI ∨ ir.instID = .STI)
      (hread : memReadData m (m.s.pc + ir.imm9) ir none = .ok (m₁, mid))
      (hne : m₁.s.status ≠ .normal) : Executes ex m ir m₁.s
  | loadsIndirect (m₁ : Mach) (mid : WordExpr) (t : State) (hid : ir.instID = .LDI)
      (hread : memReadData m (m.s.pc + ir.imm9) ir none = .ok (m₁, some mid))
      (hnormal : m₁.s.status = .normal) (h : Accesses ex m₁ mid (loadFrom ir) t) :
      Executes ex m ir t
  | storesIndirect (m₁ : Mach) (mid : WordExpr) (t : State) (hid : ir.instID = .STI)
      (hread : memReadData m (m.s.pc + ir.imm9) ir none = .ok (m₁, some mid))
      (hnormal : m₁.s.status = .normal)
      (h : Accesses ex m₁ mid (fun m c => memWriteData m c (m₁.s.reg ir.sr) ir) t) :
      Executes ex m ir t

theorem mem_executeBR (hid : ir.instID = .BR) (h : ex.executeBR m ir = .ok r) (ht : t ∈ r.states) :
    Executes ex m ir t := by
  obtain ⟨m₁, br, cond, hsolve, h⟩ := executeBR_eq_ok h
  rcases h with ⟨-, rfl⟩ | ⟨-, rfl⟩ | ⟨-, -, c, cs₀, cs₁, -, -, -, rfl⟩
  · obtain rfl := List.mem_singleton.1 ht
    exact .branches m₁ br cond m₁.s hid hsolve (.refl _)
  · obtain rfl := List.mem_singleton.1 ht
    exact .falls m₁ br cond m₁.s hid hsolve (.refl _)
  · simp only [List.mem_cons, List.not_mem_nil, or_false] at ht
    rcases ht with rfl | rfl
    · exact .falls m₁ br cond _ hid hsolve ⟨_, rfl⟩
    · exact .branches m₁ br cond { m₁.s with constraints := cs₁ } hid hsolve
        ⟨⟨m₁.s.uid, cs₁, m₁.s.triggerNewIssue, m₁.s.coveredNewEdge, m₁.s.coveredNewSegment,
          m₁.s.avoidLoopReductionPostpone⟩, rfl⟩

theorem mem_execute (h : ex.execute m ir = .ok r) (ht : t ∈ r.states) : Executes ex m ir t := by
  unfold execute at h
  cases hid : ir.instID <;> simp only [hid] at h
  case BR => exact mem_executeBR hid h ht
  case LDR =>
    obtain ⟨⟨m₁, base⟩, hget, h⟩ := Except.bind_eq_ok_iff.1 h
    exact .loads m₁ base t hid hget (mem_handleExpr h ht)
  case STR =>
    obtain ⟨⟨m₁, base⟩, hget, h⟩ := Except.bind_eq_ok_iff.1 h
    exact .stores m₁ base t hid hget (mem_handleExpr h ht)
  case LDI =>
    obtain ⟨m₁, mid, hread, ⟨hne, rfl⟩ | ⟨hnormal, e, rfl, h⟩⟩ := readMidAddr_eq_ok h
    · obtain rfl := List.mem_singleton.1 ht
      exact .stops m₁ mid (.inl hid) hread hne
    · exact .loadsIndirect m₁ e t hid hread hnormal (mem_handleExpr h ht)
  case STI =>
    obtain ⟨m₁, mid, hread, ⟨hne, rfl⟩ | ⟨hnormal, e, rfl, h⟩⟩ := readMidAddr_eq_ok h
    · obtain rfl := List.mem_singleton.1 ht
      exact .stops m₁ mid (.inr hid) hread hne
    · exact .storesIndirect m₁ e t hid hread hnormal (mem_handleExpr h ht)
  all_goals
    obtain ⟨m', hrun, h⟩ := Except.bind_eq_ok_iff.1 h
    cases h
    obtain rfl := List.mem_singleton.1 ht
    exact .simple m' (by simp [InstValue.isSimple, hid]) hrun

/-- How a step gets to a result: a state that has stopped stays as it is, the fetch fails,
or the fetched instruction is executed. -/
inductive Steps (ex : Executor) (m : Mach) : State → Prop
  | stopped (hne : m.s.status ≠ .normal) : Steps ex m m.s
  | fails (m' : Mach) (type : IssueType) (note : String)
      (hfetch : ∀ ir, m.s.mem.read m.s.pc ≠ some (.inst ir))
      (hraise : m.newStateIssue type m.s.latestNonOSInst.1 note = .ok m')
      (hbroken : m'.s.status = .broken) : Steps ex m m'.s
  | executes (ir : InstValue) (t : State) (hfetch : m.s.mem.read m.s.pc = some (.inst ir))
      (hnormal : m.s.status = .normal) (h : Executes ex (m.fetched ir) ir t) : Steps ex m t

theorem mem_step (h : ex.step m = .ok r) (ht : t ∈ r.states) : Steps ex m t := by
  rcases step_eq_ok h with ⟨type, note, m', hfetch, hraise, hbroken, rfl⟩ | ⟨ir, hread, h⟩
  · obtain rfl := List.mem_singleton.1 ht
    refine .fails m' type note (fun ir hir => ?_) hraise hbroken
    rcases hfetch with ⟨hnone, -⟩ | ⟨⟨d, hdata⟩, -⟩
    · rw [hnone] at hir
      cases hir
    · rw [hdata] at hir
      cases hir
  · rcases h with ⟨hne, rfl⟩ | ⟨hnormal, h⟩
    · obtain rfl := List.mem_singleton.1 ht
      exact .stopped hne
    · exact .executes ir t hread hnormal (mem_execute h ht)

/-- How a step of the warm-up gets to a result. The condition of a branch is looked at
before the instruction is fetched, and looking at it may raise an issue. -/
inductive WarmsUp (ex : Executor) (m : Mach) : State → Prop
  | steps (t : State) (h : Steps ex m t) : WarmsUp ex m t
  | breaks (ir : InstValue) (m₁ : Mach) (br : Validity) (cond : Option BoolExpr)
      (hfetch : m.s.mem.read m.s.pc = some (.inst ir))
      (hsolve : ex.solveBRCond m ir = .ok (m₁, br, cond)) (hne : m₁.s.status ≠ .normal) :
      WarmsUp ex m (m₁.fetched ir).s
  | branches (ir : InstValue) (m₁ : Mach) (br : Validity) (cond : Option BoolExpr) (t : State)
      (hfetch : m.s.mem.read m.s.pc = some (.inst ir))
      (hsolve : ex.solveBRCond m ir = .ok (m₁, br, cond)) (hnormal : m₁.s.status = .normal)
      (hid : ir.instID = .BR) (h : Executes ex (m₁.fetched ir) ir t) : WarmsUp ex m t

theorem stepFetched_eq_ok (h : ex.stepFetched m ir = .ok r) :
    (m.s.status ≠ .normal ∧ r = ⟨ex, m.pkg, [(m.fetched ir).s]⟩) ∨
      (m.s.status = .normal ∧ ex.execute (m.fetched ir) ir = .ok r) := by
  unfold stepFetched at h
  rw [updateIRAndPC_eq] at h
  simp only [Except.ok_bind'] at h
  split at h
  · rename_i hne
    cases h
    exact .inl ⟨hne, rfl⟩
  · rename_i hnormal
    exact .inr ⟨not_not.1 hnormal, h⟩

theorem fetchInst_inst {m' : Mach} (h : fetchInst m = .ok (m', some ir)) :
    m' = m ∧ m.s.mem.read m.s.pc = some (.inst ir) := by
  unfold fetchInst at h
  dsimp only at h
  split at h
  · rename_i hread
    cases h
    exact ⟨rfl, hread⟩
  · obtain ⟨m₁, -, h⟩ := Except.bind_eq_ok_iff.1 h
    obtain ⟨_, -, h⟩ := Except.bind_eq_ok_iff.1 h
    cases h
  · obtain ⟨m₁, -, h⟩ := Except.bind_eq_ok_iff.1 h
    obtain ⟨_, -, h⟩ := Except.bind_eq_ok_iff.1 h
    cases h

/-- Except at a branch, the warm-up takes the step that the main loop would take. -/
theorem stepUnlessFork_eq_step
    (h : ∀ ir, m.s.mem.read m.s.pc = some (.inst ir) → m.s.status = .normal → ir.instID ≠ .BR) :
    ex.stepUnlessFork m = .inr <$> ex.step m := by
  unfold stepUnlessFork step
  cases hfetch : fetchInst m with
  | error e => rfl
  | ok fetched =>
      obtain ⟨m', ir?⟩ := fetched
      simp only [Except.ok_bind']
      split
      · rfl
      · rename_i hnormal
        cases ir? with
        | none => rfl
        | some ir =>
            obtain ⟨rfl, hread⟩ := fetchInst_inst hfetch
            dsimp only
            rw [if_neg (h ir hread (not_not.1 hnormal))]

theorem stepUnlessFork_eq_branch (hread : m.s.mem.read m.s.pc = some (.inst ir))
    (hnormal : m.s.status = .normal) (hid : ir.instID = .BR) :
    ex.stepUnlessFork m = (do
      let (m, br, _) ← ex.solveBRCond m ir
      if br = .unknown then return .inl m
      .inr <$> ex.stepFetched m ir) := by
  unfold stepUnlessFork fetchInst
  simp only [hread]
  exact (if_neg (not_not.2 hnormal)).trans (if_pos hid)

theorem mem_stepUnlessFork (h : ex.stepUnlessFork m = .ok (.inr r)) (ht : t ∈ r.states) :
    WarmsUp ex m t := by
  by_cases hbranch : ∀ ir, m.s.mem.read m.s.pc = some (.inst ir) → m.s.status = .normal →
      ir.instID ≠ .BR
  · rw [stepUnlessFork_eq_step hbranch] at h
    obtain ⟨r', hstep, h⟩ := Except.map_eq_ok_iff.1 h
    cases h
    exact .steps t (mem_step hstep ht)
  · push Not at hbranch
    obtain ⟨ir, hread, hnormal, hid⟩ := hbranch
    rw [stepUnlessFork_eq_branch hread hnormal hid] at h
    obtain ⟨⟨m₁, br, cond⟩, hsolve, h⟩ := Except.bind_eq_ok_iff.1 h
    dsimp only at h
    split at h
    · cases h
    · obtain ⟨r', hrun, h⟩ := Except.map_eq_ok_iff.1 h
      cases h
      rcases stepFetched_eq_ok hrun with ⟨hne, rfl⟩ | ⟨hnormal₁, hrun⟩
      · obtain rfl := List.mem_singleton.1 ht
        exact .breaks ir m₁ br cond hread hsolve hne
      · exact .branches ir m₁ br cond t hread hsolve hnormal₁ hid (mem_execute hrun ht)

/-! ## Expressions -/

variable {P : WordExpr → Prop}

theorem Accesses.all (hm : m.s.All P)
    (haccess : ∀ {m m' : Mach} {c : Word}, m.s.All P → access m c = .ok m' → m'.s.All P)
    (h : Accesses ex m addr access t) : t.All P := by
  obtain ⟨u, c, pkg, m', hcopy, -, hrun⟩ := h
  exact haccess (hcopy.all hm) hrun

/-- What no instruction loses holds of the expressions of every result. -/
theorem Executes.all (hP : Closed P) (hm : m.s.All P) (h : Executes ex m ir t) : t.All P := by
  have hload : ∀ {m m' : Mach} {c : Word}, m.s.All P → loadFrom ir m c = .ok m' → m'.s.All P :=
    fun hm h => (Mach.loadFrom_effects hP hm h).all
  have hstore : ∀ {m₁ : Mach}, m₁.s.All P → ∀ {m m' : Mach} {c : Word}, m.s.All P →
      memWriteData m c (m₁.s.reg ir.sr) ir = .ok m' → m'.s.All P := by
    intro m₁ hm₁ m m' c hm h
    obtain ⟨ev, hframe⟩ := Mach.memWriteData_frames hP hm (fun e he => hm₁.reg _ e he) h
    exact hframe.all
  cases h with
  | simple m' _ h =>
      obtain ⟨ev, hframe⟩ := Mach.executeSimple_frames hP hm h
      exact hframe.all
  | falls m₁ br cond u _ hsolve hcopy =>
      exact hcopy.all (solveBRCond_effects hP hm hsolve).all
  | branches m₁ br cond u _ hsolve hcopy =>
      have hall := hcopy.all (solveBRCond_effects hP hm hsolve).all
      exact ⟨hall.reg, hall.mem, hall.out⟩
  | loads m₁ base _ _ hget h => exact h.all (Mach.getReg_effects hP hm hget).1.all hload
  | stores m₁ base _ _ hget h =>
      have hall := (Mach.getReg_effects hP hm hget).1.all
      exact h.all hall (hstore hm)
  | stops m₁ mid _ hread _ => exact (Mach.memReadData_effects hP hm hread).1.all
  | loadsIndirect m₁ mid _ _ hread _ h =>
      exact h.all (Mach.memReadData_effects hP hm hread).1.all hload
  | storesIndirect m₁ mid _ _ hread _ h =>
      have hall := (Mach.memReadData_effects hP hm hread).1.all
      exact h.all hall (hstore hall)

theorem Steps.all (hP : Closed P) (hm : m.s.All P) (h : Steps ex m t) : t.All P := by
  cases h with
  | stopped => exact hm
  | fails m' type note _ hraise _ => exact (Mach.newStateIssue_effects hm hraise).all
  | executes ir _ _ _ h => exact h.all hP (fetched_all hm)

theorem WarmsUp.all (hP : Closed P) (hm : m.s.All P) (h : WarmsUp ex m t) : t.All P := by
  cases h with
  | steps _ h => exact h.all hP hm
  | breaks ir m₁ br cond _ hsolve _ => exact fetched_all (solveBRCond_effects hP hm hsolve).all
  | branches ir m₁ br cond _ _ hsolve _ _ h =>
      exact h.all hP (fetched_all (solveBRCond_effects hP hm hsolve).all)

end Executor

end Klc3
