import Klc3.Verification.Executor.Initial
import Klc3.Verification.FlowGraph.Edges
import Klc3.Verification.MainLoop.Advance
import Klc3.Verification.Searcher.Basic

/-!
# Exploration

The main loop with the order in which states are fetched left open: any `NORMAL`
state that was produced and not stepped yet may be next. Both searchers are instances.
-/

namespace Klc3

/-! ## Initial states -/

/-- The expressions of a loaded memory, with the device registers in front of it. -/
theorem State.all_mem_of_baseMem {P : WordExpr → Prop} {s : State} {mem : Word → Option MemValue}
    (hP : Closed P) (hs : s.mem = ⟨mem, fun _ => none⟩)
    (h : ∀ addr v e, mem addr = some v → v.e = some e → P e) :
    ∀ addr v e, s.mem.read addr = some v → v.e = some e → P e := by
  intro addr v e hread he
  rw [hs] at hread
  unfold MemoryManager.read at hread
  split at hread
  · cases hread; cases he; exact hP.const _
  · split at hread
    · cases hread; cases he; exact hP.const _
    · split at hread
      · cases hread; cases he; exact hP.const _
      · split at hread
        · cases hread; cases he; exact hP.const _
        · exact h addr v e hread he

/-! ## Steps of an exploration -/

/-- A session with all the states that were produced and not stepped yet. -/
structure Exploration where
  session : Session
  frontier : List State

namespace Exploration

variable {fuel : Nat} {E E' : Exploration}

/-- Some state of the frontier is advanced. -/
def Next (fuel : Nat) (E E' : Exploration) : Prop :=
  ∃ before s after states, E.frontier = before ++ s :: after ∧
    E.session.advance fuel s = .ok (some (E'.session, states)) ∧
    E'.frontier = before ++ after ++ states

def Reaches (fuel : Nat) : Exploration → Exploration → Prop :=
  Relation.ReflTransGen (Next fuel)

/-- The exploration at the start of the main loop. -/
def Starts (solver : Solver) (o : Options) (gold : Option Gold) (E : Exploration) : Prop :=
  ∃ fa ex s, FlowAnalysis.new o.test.mem o.test.initPC = .ok fa ∧
    (Executor.new solver o.forkOnSymAddrThreshold o.test.baseMem).createInitState
      o.test.constraints o.test.initPC = .ok (ex, s) ∧
    E.session.ex = ex ∧ E.session.pkg = o.issuePackage ∧ E.session.gold = gold ∧
    E.session.fa = (fa.setupInitState s).1 ∧ E.session.limits = o.limits ∧
    E.session.crossChecker = ⟨solver, o.checkLists⟩ ∧ E.session.finalConstraintSets = [] ∧
    E.session.comparisons = [] ∧ E.frontier = [(fa.setupInitState s).2]

/-! ## The invariant -/

/-- What holds of every exploration of a program: the frontier splits the inputs, its
states have different uids, and the issue package records what was raised on them. -/
structure Inv (P : WordExpr → Prop) (solver : Solver) (o : Options) (E : Exploration) : Prop where
  solver_eq : E.session.ex.solver = solver
  baseMem_eq : E.session.ex.baseMem = o.test.baseMem
  wf : E.session.ex.WF
  init : ∀ a, E.session.ex.initConstraints.Sat a ↔ ∀ c ∈ o.test.constraints, c.eval a = true
  splits : Splits E.session.ex.initConstraints.Sat (E.frontier.map fun s => s.constraints.Sat)
  uids : (E.frontier.map State.uid).Nodup
  uid_lt : ∀ s ∈ E.frontier, s.uid < E.session.ex.totalAllocatedStateCount
  all : ∀ s ∈ E.frontier, s.All P
  baseMem : ∀ s ∈ E.frontier, s.mem.baseMem = o.test.baseMem
  issueLevel : E.session.pkg.issueLevel = o.issuePackage.issueLevel
  owner : ∀ issue info, E.session.pkg.find issue = some info →
    o.issuePackage.find issue = some info ∨
      ∃ s ∈ E.frontier, info.s = some s.uid ∧ issue ∈ s.issueLog
  found : ∀ s ∈ E.frontier, ∀ issue ∈ s.issueLog,
    o.issuePackage.issueLevel issue.type ≠ some .none → (E.session.pkg.find issue).isSome

variable {P : WordExpr → Prop} {solver : Solver} {o : Options} {gold : Option Gold}

theorem Inv.owns (h : Inv P solver o E) {s : State} (hs : s ∈ E.frontier) :
    E.session.ex.Owns s.constraints :=
  have hmem := List.mem_map_of_mem (f := fun s => s.constraints.Sat) hs
  ⟨h.splits.inhabited _ hmem, fun a ha => (h.splits.covers a).2 ⟨_, hmem, ha⟩⟩

theorem Starts.inv (hP : Closed P) (exact : solver.Exact)
    (hmem : ∀ addr v e, o.test.baseMem addr = some v → v.e = some e → P e)
    (h : Starts solver o gold E) : Inv P solver o E := by
  obtain ⟨fa, ex, s, -, hinit, hex, hpkg, -, -, -, -, -, -, hfrontier⟩ := h
  obtain ⟨⟨cs, rfl⟩, hsat, hsatisfiable, hex'⟩ := Executor.createInitState_spec exact hinit
  subst hex
  have hcs : E.session.ex.initConstraints = cs := by rw [hex']
  have hfrontier : E.frontier = [{ State.init 0 o.test.baseMem o.test.initPC with
      constraints := cs, colorStack := [fa.fg.initPC] }] := hfrontier
  constructor
  case solver_eq => rw [hex']; rfl
  case baseMem_eq => rw [hex']; rfl
  case wf =>
    rw [hex']
    exact ⟨exact, by simp [Executor.new]⟩
  case init => rw [hcs]; exact hsat
  case splits => simpa [hfrontier, hcs] using Splits.single hsatisfiable
  case uids => simp [hfrontier]
  case uid_lt => simp [hfrontier, hex', State.init, Executor.new]
  case all =>
    simp only [hfrontier, List.mem_singleton, forall_eq]
    refine ⟨by simp [State.init], ?_, by simp [State.init]⟩
    exact State.all_mem_of_baseMem hP rfl hmem
  case baseMem => simp [hfrontier, State.init]
  case issueLevel => rw [hpkg]
  case owner => rw [hpkg]; exact fun _ _ h => .inl h
  case found => simp [hfrontier, State.init]

/-- A step reuses the uid of its state and takes the others from the counter. -/
private theorem nodup_uids {before after : List State} {s : State} {n : Nat}
    (hnodup : ((before ++ s :: after).map State.uid).Nodup)
    (hlt : ∀ u ∈ before ++ s :: after, u.uid < n) (k : Nat) :
    (before.map State.uid ++ after.map State.uid ++ (List.range' n k ++ [s.uid])).Nodup := by
  have hperm : (before.map State.uid ++ after.map State.uid ++ (List.range' n k ++ [s.uid])).Perm
      ((before ++ s :: after).map State.uid ++ List.range' n k) := by
    simp only [List.map_append, List.map_cons, List.append_assoc]
    refine List.Perm.append_left _ ?_
    refine ((List.perm_append_singleton _ _).append_left _).trans ?_
    exact List.perm_middle
  rw [hperm.nodup_iff, List.nodup_append]
  refine ⟨hnodup, List.nodup_range', ?_⟩
  intro i hi j hj
  obtain ⟨u, hu, rfl⟩ := List.mem_map.1 hi
  rw [List.mem_range'_1] at hj
  have := hlt u hu
  omega

/-- One iteration keeps the invariant. -/
theorem Next.inv (hP : Closed P) (h : Inv P solver o E) (hnext : Next fuel E E') :
    Inv P solver o E' := by
  obtain ⟨before, s, after, states, hfrontier, hadvance, hfrontier'⟩ := hnext
  have hs : s ∈ E.frontier := by simp [hfrontier]
  obtain ⟨-, r, hstep, hex, hfollows⟩ := Session.advance_follows hadvance
  have hspec := Executor.step_spec hP h.wf (h.owns hs) (h.all s hs) hstep
  have hrecorded := Follows.recorded hspec.recorded hfollows
  have heach := hfollows.each
  have hmaps : r.states.map State.uid = states.map State.uid ∧
      (r.states.map fun t => t.constraints.Sat) = states.map fun t => t.constraints.Sat :=
    ⟨heach.map_eq_map fun t t' hR => (State.core_uid hR.1).symm,
      heach.map_eq_map fun t t' hR => by rw [State.core_constraints hR.1]⟩
  have huids := h.uids
  have hlt := h.uid_lt
  have hcover := h.splits
  rw [hfrontier] at huids hlt hcover
  have hin : ∀ u, u ∈ before ∨ u ∈ after → u ∈ E.frontier := by
    intro u hu
    rw [hfrontier]
    rcases hu with hu | hu <;> simp [hu]
  constructor
  case solver_eq => rw [hex, hspec.grows.solver, h.solver_eq]
  case baseMem_eq => rw [hex, hspec.grows.baseMem, h.baseMem_eq]
  case wf => rw [hex]; exact hspec.wf
  case init => rw [hex, hspec.grows.initConstraints]; exact h.init
  case splits =>
    rw [hex, hspec.grows.initConstraints, hfrontier', List.map_append, List.map_append, ← hmaps.2]
    rw [List.map_append, List.map_cons] at hcover
    exact hcover.refine_part hspec.splits
  case uids =>
    rw [hfrontier', List.map_append, List.map_append, ← hmaps.1, hspec.uids]
    exact nodup_uids huids hlt _
  case uid_lt =>
    intro u hu
    rw [hex, hspec.count]
    rw [hfrontier', List.mem_append, List.mem_append] at hu
    rcases hu with hu | hu
    · have := h.uid_lt u (hin u hu)
      omega
    · have hmem : u.uid ∈ r.states.map State.uid := by
        rw [hmaps.1]
        exact List.mem_map_of_mem hu
      rw [hspec.uids, List.mem_append, List.mem_range'_1, List.mem_singleton] at hmem
      have := h.uid_lt s hs
      dsimp only at hmem
      omega
  case all =>
    intro u hu
    rw [hfrontier', List.mem_append, List.mem_append] at hu
    rcases hu with hu | hu
    · exact h.all u (hin u hu)
    · obtain ⟨t, ht, hcore, -⟩ := heach.exists_left hu
      exact (hspec.all t ht).of_core hcore
  case baseMem =>
    intro u hu
    rw [hfrontier', List.mem_append, List.mem_append] at hu
    rcases hu with hu | hu
    · exact h.baseMem u (hin u hu)
    · obtain ⟨t, ht, hcore, -⟩ := heach.exists_left hu
      rw [State.core_mem hcore, hspec.baseMem t ht, h.baseMem s hs]
  case issueLevel => rw [hrecorded.issueLevel, h.issueLevel]
  case owner =>
    intro issue info hfind
    rcases hrecorded.isNew issue info hfind with hold | ⟨u, hu, huid, hissue⟩
    · rcases h.owner issue info hold with hinit | ⟨u, hu, huid, hissue⟩
      · exact .inl hinit
      · refine .inr ?_
        rw [hfrontier, List.mem_append, List.mem_cons] at hu
        rcases hu with hu | rfl | hu
        · exact ⟨u, by simp [hfrontier', hu], huid, hissue⟩
        · -- the issue goes on with the result that keeps the uid
          have hmem : u.uid ∈ states.map State.uid := by
            rw [← hmaps.1, hspec.uids]
            simp
          obtain ⟨u', hu', heq⟩ := List.mem_map.1 hmem
          obtain ⟨t, ht, -, hlog, -⟩ := heach.exists_left hu'
          exact ⟨u', by simp [hfrontier', hu'], by rw [huid, heq],
            hlog.subset ((hspec.issueLog t ht).subset hissue)⟩
        · exact ⟨u, by simp [hfrontier', hu], huid, hissue⟩
    · exact .inr ⟨u, by simp [hfrontier', hu], huid, hissue⟩
  case found =>
    intro u hu issue hissue hlevel
    have hold : ∀ v ∈ E.frontier, issue ∈ v.issueLog → (E'.session.pkg.find issue).isSome := by
      intro v hv hmem
      obtain ⟨info, hinfo⟩ := Option.isSome_iff_exists.1 (h.found v hv issue hmem hlevel)
      rw [hrecorded.keeps issue info hinfo]
      rfl
    rw [hfrontier', List.mem_append, List.mem_append] at hu
    rcases hu with hu | hu
    · exact hold u (hin u hu) hissue
    · by_cases hmem : issue ∈ s.issueLog
      · exact hold s hs hmem
      · exact hrecorded.found u hu issue hissue hmem (by rwa [h.issueLevel])

theorem Reaches.inv (hP : Closed P) (h : Inv P solver o E) (hreach : Reaches fuel E E') :
    Inv P solver o E' := by
  induction hreach with
  | refl => exact h
  | tail _ hnext ih => exact Next.inv hP ih hnext

/-! ## Paths -/

/-- One step at the state `s` of the frontier. -/
def NextAt (fuel : Nat) (E : Exploration) (before : List State) (s : State)
    (after states : List State) (E' : Exploration) : Prop :=
  E.frontier = before ++ s :: after ∧
    E.session.advance fuel s = .ok (some (E'.session, states)) ∧
    E'.frontier = before ++ after ++ states

/-- A state of the frontier with a record of the path that led to it. `record` says what a
step from one state to another adds; steps of other states add nothing. -/
inductive Traced {γ : Type} (fuel : Nat) (record : State → State → γ → γ) (E₀ : Exploration)
    (g₀ : γ) : Exploration → State → γ → Prop
  | start {s : State} (hs : s ∈ E₀.frontier) : Traced fuel record E₀ g₀ E₀ s g₀
  | stepped {E E' : Exploration} {before after states : List State} {s t : State} {g : γ}
      (h : Traced fuel record E₀ g₀ E s g) (hnext : NextAt fuel E before s after states E')
      (ht : t ∈ states) : Traced fuel record E₀ g₀ E' t (record s t g)
  | other {E E' : Exploration} {before after states : List State} {s u : State} {g : γ}
      (h : Traced fuel record E₀ g₀ E s g) (hnext : NextAt fuel E before u after states E')
      (hs : s ∈ before ++ after) : Traced fuel record E₀ g₀ E' s g

/-- Every state of the frontier is at the end of a path. -/
theorem Reaches.traced {γ : Type} {record : State → State → γ → γ} {E₀ : Exploration} {g₀ : γ}
    (hreach : E₀.Reaches fuel E) {s : State} (hs : s ∈ E.frontier) :
    ∃ g, Traced fuel record E₀ g₀ E s g := by
  induction hreach generalizing s with
  | refl => exact ⟨g₀, .start hs⟩
  | tail _ hnext ih =>
      obtain ⟨before, u, after, states, hnext⟩ := hnext
      obtain ⟨hfrontier, -, hfrontier'⟩ := id hnext
      rw [hfrontier', List.mem_append] at hs
      rcases hs with hs | hs
      · obtain ⟨g, hg⟩ := ih (s := s) (by
          rw [hfrontier]
          rcases List.mem_append.1 hs with hs | hs <;> simp [hs])
        exact ⟨g, .other hg hnext hs⟩
      · obtain ⟨g, hg⟩ := ih (s := u) (by simp [hfrontier])
        exact ⟨_, .stepped hg hnext hs⟩

/-- What holds of the initial states and is kept by steps holds along every path. -/
theorem Traced.rule {γ : Type} {record : State → State → γ → γ} {E₀ : Exploration} {g₀ g : γ}
    {s : State} {I : State → γ → Prop} (hP : Closed P) (hinv : E₀.Inv P solver o)
    (start : ∀ s ∈ E₀.frontier, I s g₀)
    (step : ∀ E s g r t t', Inv P solver o E → s ∈ E.frontier → I s g → s.status = .normal →
      E.session.ex.step ⟨s, E.session.pkg⟩ = .ok r → t ∈ r.states → t'.core = t.core →
      (t'.status = t.status ∨ t'.status = .broken) → I t' (record s t' g))
    (h : Traced fuel record E₀ g₀ E s g) : Inv P solver o E ∧ s ∈ E.frontier ∧ I s g := by
  induction h with
  | start hs => exact ⟨hinv, hs, start _ hs⟩
  | stepped _ hnext ht ih =>
      obtain ⟨hinv, hs, hI⟩ := ih
      have hinv' := Next.inv hP hinv ⟨_, _, _, _, hnext⟩
      obtain ⟨-, hadvance, hfrontier⟩ := hnext
      obtain ⟨hnormal, r, hstep, -, hfollows⟩ := Session.advance_follows hadvance
      obtain ⟨t, htr, hcore, -, hstatus, -⟩ := hfollows.each.exists_left ht
      refine ⟨hinv', ?_, step _ _ _ r t _ hinv hs hI hnormal hstep htr hcore hstatus⟩
      rw [hfrontier]
      exact List.mem_append_right _ ht
  | other _ hnext hs ih =>
      refine ⟨Next.inv hP ih.1 ⟨_, _, _, _, hnext⟩, ?_, ih.2.2⟩
      rw [hnext.2.2]
      exact List.mem_append_left _ hs

end Exploration

/-! ## The main loop explores -/

namespace Searcher

variable {searcher searcher' : Searcher} {s : State}

/-- The states in a searcher, in no particular order. -/
def states (searcher : Searcher) : List State :=
  searcher.normalStates ++ searcher.completedStates

theorem fetch_perm (h : searcher.fetch = some (s, searcher')) :
    searcher.states.Perm (s :: searcher'.states) := by
  obtain ⟨hnormal, hdone⟩ := fetch_spec h
  rw [states, states, hdone]
  exact hnormal.append_right _

theorem push_perm (searcher : Searcher) (ss : List State) :
    (searcher.push ss).states.Perm (searcher.states ++ ss) := by
  obtain ⟨hnormal, hdone⟩ := searcher.push_spec ss
  have hsplit : (ss.filter (fun s => s.status = .normal) ++
      ss.filter (fun s => s.status ≠ .normal)).Perm ss := by
    have := List.filter_append_perm (fun s : State => decide (s.status = .normal)) ss
    simpa using this
  rw [states, states, hdone]
  refine (hnormal.append_right _).trans ?_
  rw [List.append_assoc, List.append_assoc]
  refine List.Perm.append_left _ ((List.perm_append_comm_assoc _ _ _).trans ?_)
  exact hsplit.append_left _

end Searcher

namespace MainLoop

variable {fuel : Nat} {l l' : MainLoop} {E : Exploration}

/-- An exploration that has the states of a main loop. -/
structure Agrees (l : MainLoop) (E : Exploration) : Prop where
  session : E.session = l.session
  frontier : E.frontier.Perm l.searcher.states

/-- An iteration of the main loop is one of its exploration. -/
theorem next_explores (h : Agrees l E) (hnext : l.next fuel = .ok (some l')) :
    ∃ E', E.Next fuel E' ∧ Agrees l' E' := by
  unfold next at hnext
  split at hnext
  · cases hnext
  · rename_i s searcher hfetch
    obtain ⟨result, hadvance, hnext⟩ := Except.bind_eq_ok_iff.1 hnext
    cases result with
    | none => cases hnext
    | some result =>
        obtain ⟨session, states⟩ := result
        cases hnext
        have hperm := h.frontier.trans (Searcher.fetch_perm hfetch)
        obtain ⟨before, after, hfrontier⟩ := List.append_of_mem (hperm.symm.subset (by simp : s ∈ _))
        rw [hfrontier] at hperm
        have hrest := (List.perm_middle.symm.trans hperm).cons_inv
        refine ⟨⟨session, before ++ after ++ states⟩,
          ⟨before, s, after, states, hfrontier, by rw [h.session]; exact hadvance, rfl⟩, rfl, ?_⟩
        exact (hrest.append_right states).trans (Searcher.push_perm searcher states).symm

theorem reaches_explores (h : Agrees l E) (hreach : Loop.Reaches (next fuel) l l') :
    ∃ E', E.Reaches fuel E' ∧ Agrees l' E' := by
  induction hreach with
  | refl => exact ⟨E, .refl, h⟩
  | tail _ hnext ih =>
      obtain ⟨E₁, hreach₁, hagrees₁⟩ := ih
      obtain ⟨E₂, hnext₂, hagrees₂⟩ := next_explores hagrees₁ hnext
      exact ⟨E₂, .tail hreach₁ hnext₂, hagrees₂⟩

end MainLoop

/-- The main loop starts with an exploration of the initial state alone. -/
theorem Options.start_explores {solver : Solver} {o : Options} {gold : Option Gold} {l : MainLoop}
    (hempty : o.searcher.states = []) (h : o.start solver gold = .ok l) :
    ∃ E, E.Starts solver o gold ∧ l.Agrees E := by
  obtain ⟨fa, hfa, h⟩ := Except.bind_eq_ok_iff.1 h
  obtain ⟨⟨ex, s⟩, hinit, h⟩ := Except.bind_eq_ok_iff.1 h
  cases h
  refine ⟨⟨_, [(fa.setupInitState s).2]⟩,
    ⟨fa, ex, s, hfa, hinit, rfl, rfl, rfl, rfl, rfl, rfl, rfl, rfl, rfl⟩, rfl, ?_⟩
  have hperm := Searcher.push_perm o.searcher [(fa.setupInitState s).2]
  rw [hempty] at hperm
  exact hperm.symm

/-! ## A program -/

/-- The input that `Program.sample` reads. -/
def SymArray.sample : SymArray := ⟨"INPUT", 1⟩

/-- A program that branches on its input and halts. -/
def Program.sample : Program where
  mem :=
    [(0x3000, .inst ⟨0x3000, 0x2002, ⟨.LD, .RL, 0xF000, 0x2000⟩, matchInst_load, false, [],
        "sample.asm", 1, "LD R0, INPUT"⟩),
     (0x3001, .inst ⟨0x3001, 0x0400, ⟨.BR, .CL, 0xF000, 0x0000⟩, matchInst_branch, false, [],
        "sample.asm", 2, "BRz DONE"⟩),
     (0x3002, .inst ⟨0x3002, 0xF025, ⟨.TRAP, .V, 0xFF00, 0xF000⟩, matchInst_halt, false, ["DONE"],
        "sample.asm", 3, "INSTANT_HALT"⟩),
     (0x3003, .data ⟨some (.read .sample 0), false, false⟩)]
  constraints := []
  initPC := 0x3000
  preferences := []

/-- `Program.sample` without a gold program. -/
def Options.sample : Options where
  test := .sample
  gold := none
  issuePackage := .empty
  checkLists := CrossChecker.defaultCheckLists
  limits := .none
  forkOnSymAddrThreshold := 0
  searcher := .simpleFILO [] []

theorem sample_starts : ∃ E, Exploration.Starts Solver.ideal .sample none E :=
  have hstart : ∃ l, Options.sample.start Solver.ideal none = .ok l := ⟨_, rfl⟩
  let ⟨_, hl⟩ := hstart
  let ⟨E, hE, _⟩ := Options.start_explores rfl hl
  ⟨E, hE⟩

end Klc3
