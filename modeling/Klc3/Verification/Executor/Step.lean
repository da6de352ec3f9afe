import Klc3.Lib.Pointwise
import Klc3.Verification.Executor.Frame
import Klc3.Verification.Executor.Fork

/-!
# What one step does

The result states of a step split the solutions of the state that was stepped, carry
its history on, and the issue package records what was raised on them.
-/

namespace Klc3

/-! ## Histories -/

namespace State

/-- `t` comes from `s` within one instruction: only the machine changed, and the logs
grew. -/
structure Descends (s t : State) : Prop where
  colorStack : t.colorStack = s.colorStack
  jsrStack : t.jsrStack = s.jsrStack
  baseMem : t.mem.baseMem = s.mem.baseMem
  latestInst : t.latestInst = s.latestInst
  latestNonOSInst : t.latestNonOSInst = s.latestNonOSInst
  stepCount : t.stepCount = s.stepCount
  statePath : t.statePath = s.statePath
  issueLog : s.issueLog <+: t.issueLog
  mcrLog : s.mcrLog <+: t.mcrLog

variable {s t u : State}

theorem Descends.trans (h : s.Descends t) (h' : t.Descends u) : s.Descends u :=
  ⟨h'.colorStack.trans h.colorStack, h'.jsrStack.trans h.jsrStack, h'.baseMem.trans h.baseMem,
    h'.latestInst.trans h.latestInst, h'.latestNonOSInst.trans h.latestNonOSInst,
    h'.stepCount.trans h.stepCount, h'.statePath.trans h.statePath,
    h.issueLog.trans h'.issueLog, h.mcrLog.trans h'.mcrLog⟩

theorem Copy.descends (h : s.Copy t) : s.Descends t := by
  obtain ⟨tag, rfl⟩ := h
  exact ⟨rfl, rfl, rfl, rfl, rfl, rfl, rfl, List.prefix_rfl, List.prefix_rfl⟩

theorem Copy.all {P : WordExpr → Prop} (h : s.Copy t) (hs : s.All P) : t.All P := by
  obtain ⟨tag, rfl⟩ := h
  exact ⟨hs.reg, hs.mem, hs.out⟩

theorem Copy.issueLog (h : s.Copy t) : t.issueLog = s.issueLog := by
  obtain ⟨tag, rfl⟩ := h
  rfl

theorem Copy.status (h : s.Copy t) : t.status = s.status := by
  obtain ⟨tag, rfl⟩ := h
  rfl

end State

namespace Mach

variable {P : WordExpr → Prop} {m m' : Mach}

theorem Frame.descends {ev : List Issue} (h : Frame P ev m m') : m.s.Descends m'.s :=
  ⟨h.same.colorStack, h.same.jsrStack, h.same.baseMem, h.same.latestInst,
    h.same.latestNonOSInst, h.same.stepCount, h.same.statePath,
    by rw [h.issueLog]; exact List.prefix_append _ _, h.mcrLog⟩

theorem Frames.descends (h : Frames P m m') : m.s.Descends m'.s :=
  let ⟨_, h⟩ := h
  h.descends

theorem Frames.all (h : Frames P m m') : m'.s.All P :=
  let ⟨_, h⟩ := h
  h.all

theorem Frames.same (h : Frames P m m') : m.s.Same m'.s :=
  let ⟨_, h⟩ := h
  h.same

end Mach

namespace IssuePackage

/-- The package after the states `ts`, which come from `s`, have raised issues. -/
structure Recorded (s : State) (ts : List State) (pkg pkg' : IssuePackage) : Prop where
  issueLevel : pkg'.issueLevel = pkg.issueLevel
  keeps : ∀ issue info, pkg.find issue = some info → pkg'.find issue = some info
  isNew : ∀ issue info, pkg'.find issue = some info → pkg.find issue = some info ∨
    ∃ t ∈ ts, info.s = some t.uid ∧ issue ∈ t.issueLog
  found : ∀ t ∈ ts, ∀ issue ∈ t.issueLog, issue ∉ s.issueLog →
    pkg.issueLevel issue.type ≠ some .none → (pkg'.find issue).isSome

variable {pkg pkg' pkg'' : IssuePackage} {s : State} {t t' : State} {ts ts' : List State}

theorem recorded_of_frame {P : WordExpr → Prop} {m m' : Mach} (h : m.Frames P m') :
    Recorded m.s [m'.s] m.pkg m'.pkg := by
  obtain ⟨ev, h⟩ := h
  refine ⟨h.raises.issueLevel, h.raises.keeps, ?_, ?_⟩
  · intro issue info hfind
    rcases h.raises.isNew issue info hfind with hold | ⟨-, hmem, -, huid⟩
    · exact .inl hold
    · refine .inr ⟨m'.s, by simp, by rw [h.same.uid, huid], ?_⟩
      rw [h.issueLog]
      exact List.mem_append_right _ hmem
  · intro t ht issue hissue hnew hlevel
    obtain rfl := List.mem_singleton.1 ht
    rw [h.issueLog, List.mem_append] at hissue
    exact h.raises.found issue (hissue.resolve_left hnew) hlevel

/-- First one state raises issues, then its successors do. -/
theorem Recorded.trans (h : Recorded s [t] pkg pkg') (h' : Recorded t ts pkg' pkg'')
    (hdesc : ∀ u ∈ ts, t.issueLog <+: u.issueLog) (huid : ∃ u ∈ ts, u.uid = t.uid) :
    Recorded s ts pkg pkg'' where
  issueLevel := h'.issueLevel.trans h.issueLevel
  keeps issue info hfind := h'.keeps issue info (h.keeps issue info hfind)
  isNew issue info hfind := by
    rcases h'.isNew issue info hfind with hold | hnew
    · rcases h.isNew issue info hold with hold | ⟨t', ht', hs, hissue⟩
      · exact .inl hold
      · obtain rfl := List.mem_singleton.1 ht'
        obtain ⟨u, hu, heq⟩ := huid
        exact .inr ⟨u, hu, by rw [heq, hs], (hdesc u hu).subset hissue⟩
    · exact .inr hnew
  found u hu issue hissue hnew hlevel := by
    by_cases hmid : issue ∈ t.issueLog
    · obtain ⟨info, hinfo⟩ :=
        Option.isSome_iff_exists.1 (h.found t (by simp) issue hmid hnew hlevel)
      rw [h'.keeps issue info hinfo]
      rfl
    · exact h'.found u hu issue hissue hmid (by rwa [h.issueLevel])

/-- Two groups of states raise issues one after the other. -/
theorem Recorded.append (h : Recorded s ts pkg pkg') (h' : Recorded s ts' pkg' pkg'') :
    Recorded s (ts ++ ts') pkg pkg'' where
  issueLevel := h'.issueLevel.trans h.issueLevel
  keeps issue info hfind := h'.keeps issue info (h.keeps issue info hfind)
  isNew issue info hfind := by
    rcases h'.isNew issue info hfind with hold | ⟨t', ht', hnew⟩
    · rcases h.isNew issue info hold with hold | ⟨t', ht', hnew⟩
      · exact .inl hold
      · exact .inr ⟨t', List.mem_append_left _ ht', hnew⟩
    · exact .inr ⟨t', List.mem_append_right _ ht', hnew⟩
  found u hu issue hissue hnew hlevel := by
    rcases List.mem_append.1 hu with hu | hu
    · obtain ⟨info, hinfo⟩ := Option.isSome_iff_exists.1 (h.found u hu issue hissue hnew hlevel)
      rw [h'.keeps issue info hinfo]
      rfl
    · exact h'.found u hu issue hissue hnew (by rwa [h.issueLevel])

theorem Recorded.nil (s : State) (pkg : IssuePackage) : Recorded s [] pkg pkg :=
  ⟨rfl, fun _ _ h => h, fun _ _ h => .inl h, by simp⟩

theorem Recorded.congr {s' : State} (h : Recorded s ts pkg pkg')
    (heq : s'.issueLog = s.issueLog) : Recorded s' ts pkg pkg' :=
  ⟨h.issueLevel, h.keeps, h.isNew, by rw [heq]; exact h.found⟩

end IssuePackage

/-- The machine about to execute a fetched instruction. -/
def Mach.fetched (m : Mach) (ir : InstValue) : Mach :=
  ⟨({ (Executor.recordFetch m ir).s with ir := .const ir.ir }.mark .ir ir).jump (m.s.pc + 1) ir,
    m.pkg⟩

/-! ## Results -/

namespace Executor

variable {P : WordExpr → Prop} {ex ex' : Executor} {m m' : Mach} {r : StepResult}

/-- The results of a step, or of a part of it that begins with `m`. -/
structure Results (P : WordExpr → Prop) (ex : Executor) (m : Mach) (r : StepResult) : Prop where
  grows : ex.Grows r.ex
  wf : r.ex.WF
  splits : Splits m.s.constraints.Sat (r.states.map fun t => t.constraints.Sat)
  uids : r.states.map State.uid =
    List.range' ex.totalAllocatedStateCount (r.states.length - 1) ++ [m.s.uid]
  count : r.ex.totalAllocatedStateCount =
    ex.totalAllocatedStateCount + (r.states.length - 1)
  descends : ∀ t ∈ r.states, m.s.Descends t
  all : ∀ t ∈ r.states, t.All P
  recorded : IssuePackage.Recorded m.s r.states m.pkg r.pkg

theorem Results.of_frames (hwf : ex.WF) (hsat : m.s.constraints.Satisfiable)
    (h : m.Frames P m') : Results P ex m ⟨ex, m'.pkg, [m'.s]⟩ where
  grows := .refl ex
  wf := hwf
  splits := by
    have heq := h.same.constraints
    simpa [heq] using Splits.single hsat
  uids := by simp [h.same.uid]
  count := by simp
  descends := by simpa using h.descends
  all := by simpa using h.all
  recorded := IssuePackage.recorded_of_frame h

theorem Results.uid_mem (h : Results P ex m r) : ∃ t ∈ r.states, t.uid = m.s.uid := by
  have hmem : m.s.uid ∈ r.states.map State.uid := by simp [h.uids]
  exact List.mem_map.1 hmem

/-- Results after a first part that does not fork. -/
theorem Results.of_trans (h : m.Frames P m') (h' : Results P ex m' r) : Results P ex m r where
  grows := h'.grows
  wf := h'.wf
  splits := by
    have hsplits := h'.splits
    rwa [h.same.constraints] at hsplits
  uids := by rw [h'.uids, h.same.uid]
  count := h'.count
  descends t ht := h.descends.trans (h'.descends t ht)
  all := h'.all
  recorded := (IssuePackage.recorded_of_frame h).trans h'.recorded
    (fun t ht => (h'.descends t ht).issueLog) h'.uid_mem

/-! ## Forked accesses -/

variable {access : Mach → Word → Except Abort Mach} {instances : List (Word × State)}
variable {states : List State} {pkg pkg' : IssuePackage} {addr : WordExpr}

/-- The rule for the loop over the instances: each makes its access with the package
that the ones before it left. -/
theorem accessEach_rule {I : IssuePackage → Prop} {R : Word × State → State → Prop} (hpkg : I pkg)
    (haccess : ∀ i ∈ instances, ∀ pkg m, I pkg → access ⟨i.2, pkg⟩ i.1 = .ok m →
      R i m.s ∧ I m.pkg)
    (h : accessEach access pkg instances = .ok (pkg', states)) :
    List.Forall₂ R instances states ∧ I pkg' := by
  induction instances generalizing pkg states with
  | nil =>
      cases h
      exact ⟨.nil, hpkg⟩
  | cons i rest ih =>
      obtain ⟨addr, t⟩ := i
      obtain ⟨m, hfirst, h⟩ := Except.bind_eq_ok_iff.1 h
      obtain ⟨⟨pkg₁, states₁⟩, hrest, h⟩ := Except.bind_eq_ok_iff.1 h
      cases h
      obtain ⟨hR, hI⟩ := haccess (addr, t) (by simp) pkg m hpkg hfirst
      obtain ⟨hforall, hI'⟩ := ih hI (fun i hi => haccess i (List.mem_cons_of_mem _ hi)) hrest
      exact ⟨.cons hR hforall, hI'⟩

theorem accessEach_recorded {s : State}
    (hframes : ∀ i ∈ instances, ∀ pkg m, access ⟨i.2, pkg⟩ i.1 = .ok m →
      Mach.Frames P ⟨i.2, pkg⟩ m)
    (hlog : ∀ i ∈ instances, i.2.issueLog = s.issueLog)
    (h : accessEach access pkg instances = .ok (pkg', states)) :
    IssuePackage.Recorded s states pkg pkg' := by
  induction instances generalizing pkg states with
  | nil =>
      cases h
      exact .nil s _
  | cons i rest ih =>
      obtain ⟨addr, t⟩ := i
      obtain ⟨m, haccess, h⟩ := Except.bind_eq_ok_iff.1 h
      obtain ⟨⟨pkg₁, states₁⟩, hrest, h⟩ := Except.bind_eq_ok_iff.1 h
      cases h
      have hfirst := IssuePackage.recorded_of_frame (hframes (addr, t) (by simp) _ m haccess)
      have hothers := ih (fun i hi => hframes i (List.mem_cons_of_mem _ hi))
        (fun i hi => hlog i (List.mem_cons_of_mem _ hi)) hrest
      exact (hfirst.congr (hlog (addr, t) (by simp)).symm).append hothers

theorem results_of_forks {expr : WordExpr} (hgrows : ex.Grows ex') (hwf : ex'.WF)
    (hcount : ex'.totalAllocatedStateCount =
      ex.totalAllocatedStateCount + (instances.length - 1))
    (hforks : Forks m.s expr ex.totalAllocatedStateCount instances)
    (hframes : ∀ i ∈ instances, ∀ pkg m, access ⟨i.2, pkg⟩ i.1 = .ok m →
      Mach.Frames P ⟨i.2, pkg⟩ m)
    (h : accessEach access m.pkg instances = .ok (pkg, states)) :
    Results P ex m ⟨ex', pkg, states⟩ := by
  obtain ⟨hall, -⟩ := accessEach_rule (I := fun _ => True)
    (R := fun i t => t.uid = i.2.uid ∧ t.constraints = i.2.constraints ∧ m.s.Descends t ∧ t.All P)
    trivial (by
      intro i hi pkg m' _ haccess
      have hframe := hframes i hi pkg m' haccess
      exact ⟨⟨hframe.same.uid, hframe.same.constraints,
        (hforks.copy i hi).descends.trans hframe.descends, hframe.all⟩, trivial⟩) h
  have hlen : instances.length = states.length := hall.length_eq
  have huids : instances.map (fun i => i.2.uid) = states.map State.uid :=
    hall.map_eq_map fun i t hR => hR.1.symm
  have hsat : instances.map (fun i => i.2.constraints.Sat) =
      states.map fun t => t.constraints.Sat :=
    hall.map_eq_map fun i t hR => by rw [hR.2.1]
  refine ⟨hgrows, hwf, ?_, ?_, by rw [hcount, hlen], ?_, ?_, ?_⟩
  · exact hsat ▸ hforks.splits
  · rw [← huids, hforks.uids, hlen]
  · intro t ht
    obtain ⟨i, -, -, -, hdesc, -⟩ := hall.exists_left ht
    exact hdesc
  · intro t ht
    obtain ⟨i, -, -, -, -, hP⟩ := hall.exists_left ht
    exact hP
  · exact accessEach_recorded hframes (fun i hi => (hforks.copy i hi).issueLog) h

/-- A memory access makes one access for every possible address. -/
theorem handleExpr_eq_ok (hwf : ex.WF) (howns : ex.Owns m.s.constraints)
    (h : ex.handleExpr m addr access = .ok r) :
    ∃ instances, Forks m.s addr ex.totalAllocatedStateCount instances ∧ ex.Grows r.ex ∧ r.ex.WF ∧
      r.ex.totalAllocatedStateCount =
        ex.totalAllocatedStateCount + (instances.length - 1) ∧
      (1 < instances.length → m.s.status = .normal) ∧
      accessEach access m.pkg instances = .ok (r.pkg, r.states) := by
  unfold handleExpr at h
  split at h
  · rename_i c hc
    obtain ⟨m₁, haccess, h⟩ := Except.bind_eq_ok_iff.1 h
    cases h
    exact ⟨[(c, m.s)], forks_const howns.satisfiable hc, .refl ex, hwf, by simp, by simp,
      by simp [accessEach, haccess]⟩
  · obtain ⟨⟨ex₁, instances⟩, hfork, h⟩ := Except.bind_eq_ok_iff.1 h
    dsimp only at h
    split at h
    · cases h
    · obtain ⟨⟨pkg, states⟩, heach, h⟩ := Except.bind_eq_ok_iff.1 h
      cases h
      obtain ⟨hforks, hgrows, hwf', hcount⟩ := forkOnRange_spec hwf howns hfork
      exact ⟨instances, hforks, hgrows, hwf', hcount, forkOnRange_normal hfork, heach⟩

theorem handleExpr_results (hwf : ex.WF) (howns : ex.Owns m.s.constraints) (hm : m.s.All P)
    (haccess : ∀ {m m' : Mach} {addr : Word}, m.s.All P → access m addr = .ok m' →
      m.Frames P m')
    (h : ex.handleExpr m addr access = .ok r) : Results P ex m r := by
  obtain ⟨instances, hforks, hgrows, hwf', hcount, -, heach⟩ := handleExpr_eq_ok hwf howns h
  exact results_of_forks hgrows hwf' hcount hforks
    (fun i hi pkg m' hrun => haccess ((hforks.copy i hi).all hm) hrun) heach

variable (hP : Closed P) {ir : InstValue}

include hP

theorem executeLDR_results (hwf : ex.WF) (howns : ex.Owns m.s.constraints) (hm : m.s.All P)
    (h : ex.executeLDR m ir = .ok r) : Results P ex m r := by
  obtain ⟨⟨m₁, base⟩, hget, h⟩ := Except.bind_eq_ok_iff.1 h
  obtain ⟨heff, -⟩ := Mach.getReg_effects hP hm hget
  refine .of_trans heff.frames (handleExpr_results hwf ?_ heff.all ?_ h)
  · rwa [heff.same.constraints]
  · exact fun hm haccess => (Mach.loadFrom_effects hP hm haccess).frames

theorem executeSTR_results (hwf : ex.WF) (howns : ex.Owns m.s.constraints) (hm : m.s.All P)
    (h : ex.executeSTR m ir = .ok r) : Results P ex m r := by
  obtain ⟨⟨m₁, base⟩, hget, h⟩ := Except.bind_eq_ok_iff.1 h
  obtain ⟨heff, -⟩ := Mach.getReg_effects hP hm hget
  refine .of_trans heff.frames (handleExpr_results hwf ?_ heff.all ?_ h)
  · rwa [heff.same.constraints]
  · exact fun hm₁ haccess => Mach.memWriteData_frames hP hm₁ (fun e he => hm.reg _ e he) haccess

omit hP in
/-- An indirect access first reads the address, and is given up when that breaks the
state. -/
theorem readMidAddr_eq_ok {go : Mach → WordExpr → Except Abort StepResult}
    (h : ex.readMidAddr m ir go = .ok r) :
    ∃ m₁ midAddr, memReadData m (m.s.pc + ir.imm9) ir none = .ok (m₁, midAddr) ∧
      ((m₁.s.status ≠ .normal ∧ r = ⟨ex, m₁.pkg, [m₁.s]⟩) ∨
        (m₁.s.status = .normal ∧ ∃ e, midAddr = some e ∧ go m₁ e = .ok r)) := by
  obtain ⟨⟨m₁, midAddr⟩, hread, h⟩ := Except.bind_eq_ok_iff.1 h
  refine ⟨m₁, midAddr, hread, ?_⟩
  dsimp only at h
  split at h
  · cases h
    exact .inl ⟨‹_›, rfl⟩
  · rename_i hnormal
    refine .inr ⟨by simpa using hnormal, ?_⟩
    split at h
    · cases h
    · exact ⟨_, rfl, h⟩

theorem readMidAddr_results {access : Mach → Mach → Word → Except Abort Mach} (hwf : ex.WF)
    (howns : ex.Owns m.s.constraints) (hm : m.s.All P)
    (haccess : ∀ {m₁ m m' : Mach} {addr : Word}, m₁.s.All P → m.s.All P →
      access m₁ m addr = .ok m' → m.Frames P m')
    (h : ex.readMidAddr m ir (fun m addr => ex.handleExpr m addr (access m)) = .ok r) :
    Results P ex m r := by
  obtain ⟨m₁, midAddr, hread, h⟩ := readMidAddr_eq_ok h
  obtain ⟨heff, -⟩ := Mach.memReadData_effects hP hm hread
  rcases h with ⟨-, rfl⟩ | ⟨-, e, rfl, h⟩
  · exact .of_frames hwf howns.satisfiable heff.frames
  · refine .of_trans heff.frames (handleExpr_results hwf ?_ heff.all (haccess heff.all) h)
    rwa [heff.same.constraints]

theorem executeLDI_results (hwf : ex.WF) (howns : ex.Owns m.s.constraints) (hm : m.s.All P)
    (h : ex.executeLDI m ir = .ok r) : Results P ex m r :=
  readMidAddr_results hP hwf howns hm
    (fun _ hm haccess => (Mach.loadFrom_effects hP hm haccess).frames) h

theorem executeSTI_results (hwf : ex.WF) (howns : ex.Owns m.s.constraints) (hm : m.s.All P)
    (h : ex.executeSTI m ir = .ok r) : Results P ex m r :=
  readMidAddr_results hP hwf howns hm
    (fun hm₁ hm haccess => Mach.memWriteData_frames hP hm (fun e he => hm₁.reg _ e he) haccess) h

/-! ## Branches -/

omit hP in
/-- The outcome of a branch is the answer of the solver on its condition. -/
theorem solveBRCond_eq_ok {br : Validity} {brCond : Option BoolExpr}
    (h : ex.solveBRCond m ir = .ok (m', br, brCond)) :
    (ir.cc = 0 ∧ m' = m ∧ br = .invalid) ∨ (ir.cc = 7 ∧ m' = m ∧ br = .valid) ∨
    (ir.cc ≠ 0 ∧ ir.cc ≠ 7 ∧ ∃ e, getCCExpr m ir = .ok (m', e) ∧
      brCond = some (brCondition ir.cc e) ∧
      br = ex.solver.evaluate m'.s.constraints (brCondition ir.cc e)) := by
  unfold solveBRCond at h
  split at h
  · cases h
    exact .inl ⟨‹_›, rfl, rfl⟩
  · split at h
    · cases h
      exact .inr (.inl ⟨‹_›, rfl, rfl⟩)
    · rename_i h0 h7
      obtain ⟨⟨m₁, e⟩, hget, h⟩ := Except.bind_eq_ok_iff.1 h
      refine .inr (.inr ⟨h0, h7, e, ?_⟩)
      dsimp only at h
      split at h
      · rename_i b hb
        cases h
        refine ⟨hget, rfl, ?_⟩
        rw [BoolExpr.asConst_eq_some hb]
        rfl
      · cases h
        exact ⟨hget, rfl, rfl⟩

theorem solveBRCond_effects {br : Validity} {brCond : Option BoolExpr} (hm : m.s.All P)
    (h : ex.solveBRCond m ir = .ok (m', br, brCond)) : m.Effects P m' := by
  rcases solveBRCond_eq_ok h with ⟨-, rfl, -⟩ | ⟨-, rfl, -⟩ | ⟨-, -, e, hget, -⟩
  · exact .refl hm
  · exact .refl hm
  · exact (Mach.getCCExpr_effects hP hm hget).1

omit hP in
/-- A branch is taken, not taken, or taken by one of two states. -/
theorem executeBR_eq_ok (h : ex.executeBR m ir = .ok r) :
    ∃ m₁ br brCond, ex.solveBRCond m ir = .ok (m₁, br, brCond) ∧
      ((br = .valid ∧ r = ⟨ex, m₁.pkg, [m₁.s.jump (m₁.s.pc + ir.imm9) ir]⟩) ∨
       (br = .invalid ∧ r = ⟨ex, m₁.pkg, [m₁.s]⟩) ∨
       (br = .unknown ∧ m₁.s.status = .normal ∧ ∃ c cs₀ cs₁, brCond = some c ∧
         m₁.s.constraints.addConstraint c.createIsZero = .ok cs₀ ∧
         m₁.s.constraints.addConstraint c = .ok cs₁ ∧
         r = ⟨{ ex with totalAllocatedStateCount := ex.totalAllocatedStateCount + 1 }, m₁.pkg,
           [m₁.s.tagged ⟨ex.totalAllocatedStateCount, cs₀, false, false, false, false⟩,
            { m₁.s with constraints := cs₁ }.jump (m₁.s.pc + ir.imm9) ir]⟩)) := by
  obtain ⟨⟨m₁, br, brCond⟩, hsolve, h⟩ := Except.bind_eq_ok_iff.1 h
  refine ⟨m₁, br, brCond, hsolve, ?_⟩
  cases br with
  | valid =>
      cases h
      exact .inl ⟨rfl, rfl⟩
  | invalid =>
      cases h
      exact .inr (.inl ⟨rfl, rfl⟩)
  | unknown =>
      refine .inr (.inr ⟨rfl, ?_⟩)
      dsimp only at h
      split at h
      · cases h
      · rename_i c
        obtain ⟨continue₀, hfork, h⟩ := Except.bind_eq_ok_iff.1 h
        obtain ⟨branch, hbranch, h⟩ := Except.bind_eq_ok_iff.1 h
        obtain ⟨continue₁, hcontinue, h⟩ := Except.bind_eq_ok_iff.1 h
        obtain ⟨hnormal, rfl⟩ := State.fork_eq_ok hfork
        obtain ⟨cs₁, hcs₁, rfl⟩ := State.addConstraint_eq_ok hbranch
        obtain ⟨cs₀, hcs₀, rfl⟩ := State.addConstraint_eq_ok hcontinue
        cases h
        exact ⟨hnormal, c, cs₀, cs₁, rfl, hcs₀, hcs₁, rfl⟩

theorem executeBR_results (hwf : ex.WF) (howns : ex.Owns m.s.constraints) (hm : m.s.All P)
    (h : ex.executeBR m ir = .ok r) : Results P ex m r := by
  obtain ⟨m₁, br, brCond, hsolve, h⟩ := executeBR_eq_ok h
  have heff := solveBRCond_effects hP hm hsolve
  rcases h with ⟨-, rfl⟩ | ⟨-, rfl⟩ | ⟨rfl, -, c, cs₀, cs₁, rfl, hcs₀, hcs₁, rfl⟩
  · exact .of_frames hwf howns.satisfiable (heff.trans (Mach.jump_effects heff.all)).frames
  · exact .of_frames hwf howns.satisfiable heff.frames
  · refine .of_trans heff.frames ?_
    have hsat₀ := fun a => ConstraintSet.addConstraint_sat_iff (a := a) hcs₀
    have hsat₁ := fun a => ConstraintSet.addConstraint_sat_iff (a := a) hcs₁
    -- both outcomes are possible, as the solver has answered
    have hboth : (∃ a, m₁.s.constraints.Sat a ∧ c.eval a = true) ∧
        ∃ a, m₁.s.constraints.Sat a ∧ c.eval a = false := by
      rcases solveBRCond_eq_ok hsolve with ⟨-, -, h⟩ | ⟨-, -, h⟩ | ⟨-, -, e, -, h, hbr⟩
      · cases h
      · cases h
      · cases h
        exact Solver.evaluate_unknown hwf.exact (by rw [heff.same.constraints]; exact howns.satisfiable)
          hbr.symm
    refine ⟨⟨rfl, rfl, rfl, Nat.le_succ _, rfl⟩, ⟨hwf.exact, hwf.cache⟩, ⟨?_, ?_, ?_⟩, by simp [State.tagged, State.jump, State.mark], by simp, ?_, ?_, ?_⟩
    · intro a
      simp only [List.map_cons, List.map_nil, List.mem_cons, List.not_mem_nil, or_false,
        exists_eq_or_imp, exists_eq_left]
      change _ ↔ cs₀.Sat a ∨ cs₁.Sat a
      rw [hsat₀, hsat₁, BoolExpr.eval_createIsZero]
      cases c.eval a <;> simp
    · simp only [List.map_cons, List.map_nil, List.pairwise_cons, List.mem_singleton, forall_eq,
        List.not_mem_nil, false_imp_iff, implies_true, List.Pairwise.nil, and_true]
      intro a h₀ h₁
      have hfalse := ((hsat₀ a).1 h₀).2
      rw [BoolExpr.eval_createIsZero, ((hsat₁ a).1 h₁).2] at hfalse
      cases hfalse
    · intro q hq
      obtain ⟨⟨a₁, ha₁, hc₁⟩, a₀, ha₀, hc₀⟩ := hboth
      simp only [List.map_cons, List.map_nil, List.mem_cons, List.not_mem_nil, or_false] at hq
      rcases hq with rfl | rfl
      · exact ⟨a₀, (hsat₀ a₀).2 ⟨ha₀, by simp [hc₀]⟩⟩
      · exact ⟨a₁, (hsat₁ a₁).2 ⟨ha₁, hc₁⟩⟩
    · intro t ht
      simp only [List.mem_cons, List.not_mem_nil, or_false] at ht
      rcases ht with rfl | rfl
      · exact ⟨rfl, rfl, rfl, rfl, rfl, rfl, rfl, List.prefix_rfl, List.prefix_rfl⟩
      · exact ⟨rfl, rfl, rfl, rfl, rfl, rfl, rfl, List.prefix_rfl, List.prefix_rfl⟩
    · intro t ht
      simp only [List.mem_cons, List.not_mem_nil, or_false] at ht
      rcases ht with rfl | rfl
      · exact ⟨heff.all.reg, heff.all.mem, heff.all.out⟩
      · exact ⟨heff.all.reg, heff.all.mem, heff.all.out⟩
    · refine ⟨rfl, fun _ _ h => h, fun _ _ h => .inl h, ?_⟩
      intro t ht issue hissue hnew
      simp only [List.mem_cons, List.not_mem_nil, or_false] at ht
      rcases ht with rfl | rfl
      · exact absurd hissue hnew
      · exact absurd hissue hnew

/-! ## Whole steps -/

theorem execute_results (hwf : ex.WF) (howns : ex.Owns m.s.constraints) (hm : m.s.All P)
    (h : ex.execute m ir = .ok r) : Results P ex m r := by
  unfold execute at h
  split at h
  · exact executeBR_results hP hwf howns hm h
  · exact executeLDR_results hP hwf howns hm h
  · exact executeLDI_results hP hwf howns hm h
  · exact executeSTR_results hP hwf howns hm h
  · exact executeSTI_results hP hwf howns hm h
  · obtain ⟨m₁, hsimple, h⟩ := Except.bind_eq_ok_iff.1 h
    cases h
    exact .of_frames hwf howns.satisfiable (Mach.executeSimple_frames hP hm hsimple)

omit hP in
/-- A step fails to fetch, finds the state not `NORMAL`, or executes an instruction. -/
theorem step_eq_ok (h : ex.step m = .ok r) :
    (∃ type note m', ((m.s.mem.read m.s.pc = none ∧ type = .errExecuteUninitializedMemory) ∨
        ((∃ d, m.s.mem.read m.s.pc = some (.data d)) ∧ type = .errExecuteDataAsInst)) ∧
      m.newStateIssue type m.s.latestNonOSInst.1 note = .ok m' ∧ m'.s.status = .broken ∧
      r = ⟨ex, m'.pkg, [m'.s]⟩) ∨
    (∃ ir, m.s.mem.read m.s.pc = some (.inst ir) ∧
      ((m.s.status ≠ .normal ∧ r = ⟨ex, m.pkg, [m.s]⟩) ∨
        (m.s.status = .normal ∧ ex.execute (m.fetched ir) ir = .ok r))) := by
  obtain ⟨⟨m₁, fetch⟩, hfetch, h⟩ := Except.bind_eq_ok_iff.1 h
  -- without an instruction the state is broken, which ends the step
  have hbroken : ∀ {type : IssueType} {note : String},
      (m.newStateIssue type m.s.latestNonOSInst.1 note >>= fun m => assertBroken m >>= fun _ =>
        pure (m, (none : Option InstValue))) = .ok (m₁, fetch) →
      m.newStateIssue type m.s.latestNonOSInst.1 note = .ok m₁ ∧ m₁.s.status = .broken ∧
        r = ⟨ex, m₁.pkg, [m₁.s]⟩ := by
    intro type note hrun
    obtain ⟨m₂, hraise, hrun⟩ := Except.bind_eq_ok_iff.1 hrun
    obtain ⟨_, hassert, hrun⟩ := Except.bind_eq_ok_iff.1 hrun
    cases hrun
    have hstatus := Mach.assertBroken_eq_ok hassert
    dsimp only at h
    rw [if_pos (by simp [hstatus])] at h
    cases h
    exact ⟨hraise, hstatus, rfl⟩
  unfold fetchInst at hfetch
  dsimp only at hfetch
  split at hfetch
  · rename_i ir hread
    cases hfetch
    refine .inr ⟨ir, hread, ?_⟩
    dsimp only at h
    split at h
    · cases h
      exact .inl ⟨‹_›, rfl⟩
    · rename_i hnormal
      have hnormal : m.s.status = .normal := by simpa using hnormal
      refine .inr ⟨hnormal, ?_⟩
      unfold stepFetched at h
      rw [updateIRAndPC_eq, Except.ok_bind', if_neg (by simpa [recordFetch, State.jump, State.mark]
        using hnormal)] at h
      exact h
  · rename_i hread
    obtain ⟨hraise, hstatus, hr⟩ := hbroken hfetch
    exact .inl ⟨_, _, m₁, .inl ⟨hread, rfl⟩, hraise, hstatus, hr⟩
  · rename_i d hread
    obtain ⟨hraise, hstatus, hr⟩ := hbroken hfetch
    exact .inl ⟨_, _, m₁, .inr ⟨⟨d, hread⟩, rfl⟩, hraise, hstatus, hr⟩

omit hP in
theorem fetched_all (hm : m.s.All P) : (m.fetched ir).s.All P :=
  ⟨hm.reg, hm.mem, hm.out⟩

/-- A step first records the instruction, if there is one, and then works on one
machine. -/
theorem step_results (hwf : ex.WF) (howns : ex.Owns m.s.constraints) (hm : m.s.All P)
    (h : ex.step m = .ok r) :
    ∃ m₀ : Mach, (m₀ = m ∨ m.s.status = .normal ∧
      ∃ ir, m.s.mem.read m.s.pc = some (.inst ir) ∧ m₀ = m.fetched ir) ∧ Results P ex m₀ r := by
  rcases step_eq_ok h with ⟨type, note, m', -, hraise, -, rfl⟩ |
    ⟨ir, hread, ⟨-, rfl⟩ | ⟨hnormal, h⟩⟩
  · exact ⟨m, .inl rfl, .of_frames hwf howns.satisfiable
      (Mach.newStateIssue_effects hm hraise).frames⟩
  · exact ⟨m, .inl rfl, .of_frames hwf howns.satisfiable (Mach.Effects.refl hm).frames⟩
  · exact ⟨m.fetched ir, .inr ⟨hnormal, ir, hread, rfl⟩,
      execute_results hP hwf howns (fetched_all hm) h⟩

/-- What a whole step guarantees for its results. -/
structure StepSpec (P : WordExpr → Prop) (ex : Executor) (m : Mach) (r : StepResult) : Prop where
  grows : ex.Grows r.ex
  wf : r.ex.WF
  splits : Splits m.s.constraints.Sat (r.states.map fun t => t.constraints.Sat)
  uids : r.states.map State.uid =
    List.range' ex.totalAllocatedStateCount (r.states.length - 1) ++ [m.s.uid]
  count : r.ex.totalAllocatedStateCount =
    ex.totalAllocatedStateCount + (r.states.length - 1)
  all : ∀ t ∈ r.states, t.All P
  recorded : IssuePackage.Recorded m.s r.states m.pkg r.pkg
  colorStack : ∀ t ∈ r.states, t.colorStack = m.s.colorStack
  jsrStack : ∀ t ∈ r.states, t.jsrStack = m.s.jsrStack
  baseMem : ∀ t ∈ r.states, t.mem.baseMem = m.s.mem.baseMem
  issueLog : ∀ t ∈ r.states, m.s.issueLog <+: t.issueLog
  mcrLog : ∀ t ∈ r.states, m.s.mcrLog <+: t.mcrLog

theorem step_spec (hwf : ex.WF) (howns : ex.Owns m.s.constraints) (hm : m.s.All P)
    (h : ex.step m = .ok r) : StepSpec P ex m r := by
  -- recording the instruction touches none of what is compared here
  have hspec : ∀ (m₀ : Mach), m₀.pkg = m.pkg → m₀.s.uid = m.s.uid →
      m₀.s.constraints = m.s.constraints → m₀.s.colorStack = m.s.colorStack →
      m₀.s.jsrStack = m.s.jsrStack → m₀.s.mem = m.s.mem → m₀.s.issueLog = m.s.issueLog →
      m₀.s.mcrLog = m.s.mcrLog → Results P ex m₀ r → StepSpec P ex m r := by
    intro m₀ hpkg huid hcs hcolor hjsr hmem hissue hmcr hresults
    refine ⟨hresults.grows, hresults.wf, hcs ▸ hresults.splits, huid ▸ hresults.uids,
      hresults.count, hresults.all, ?_, fun t ht => ?_, fun t ht => ?_, fun t ht => ?_,
      fun t ht => ?_, fun t ht => ?_⟩
    · exact hpkg ▸ hresults.recorded.congr hissue.symm
    · rw [(hresults.descends t ht).colorStack, hcolor]
    · rw [(hresults.descends t ht).jsrStack, hjsr]
    · rw [(hresults.descends t ht).baseMem, hmem]
    · exact hissue ▸ (hresults.descends t ht).issueLog
    · exact hmcr ▸ (hresults.descends t ht).mcrLog
  obtain ⟨m₀, rfl | ⟨-, ir, -, rfl⟩, hresults⟩ := step_results hP hwf howns hm h
  · exact hspec _ rfl rfl rfl rfl rfl rfl rfl rfl hresults
  · exact hspec (m.fetched ir) rfl rfl rfl rfl rfl rfl rfl rfl hresults

end Executor

end Klc3
