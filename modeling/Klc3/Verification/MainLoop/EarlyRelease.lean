import Klc3.Model.DuplicateColors
import Klc3.Verification.MainLoop.Code
import Klc3.Verification.Searcher.Retention

/-!
# Reported states stay alive

Along every run of the main loop with early release, nothing that the issue package, the
arguments of its callbacks or a searcher point to has been released.
-/

namespace Klc3

open Mach (Files noArgs)

/-! ## Trackers -/

namespace SubroutineTracker

variable {fa fa' : FlowAnalysis} {m m' : Mach} {executed : InstValue}
variable {args : CallBackArg → Prop}

theorem updateOnReturn_files (h : updateOnReturn fa m executed = .ok (fa', m')) :
    Files args m m' := by
  unfold updateOnReturn at h
  split at h
  · cases h
    exact .refl m
  · split at h
    · cases h
    · split at h
      · dsimp only at h
        split at h
        · cases h
        · split at h
          · cases h
            exact .of_same rfl rfl
          · cases h
      · obtain ⟨m₁, hraise, h⟩ := Except.bind_eq_ok_iff.1 h
        cases h
        exact (Mach.newStateIssue_files hraise).trans (.of_same rfl rfl)

theorem updateOnReturnInMain_files (h : updateOnReturnInMain fa m executed = .ok (fa', m')) :
    Files args m m' := by
  unfold updateOnReturnInMain at h
  split at h
  · cases h
  · rename_i color rest _
    dsimp only at h
    rw [Except.ite_bind_eq] at h
    obtain ⟨label, -, h⟩ := Except.bind_eq_ok_iff.1 h
    obtain ⟨m₁, hraise, h⟩ := Except.bind_eq_ok_iff.1 h
    cases h
    exact (Mach.newStateIssue_files hraise).trans (.of_same rfl rfl)

theorem updateOnInst_files (h : updateOnInst fa m executed = .ok (fa', m')) : Files args m m' := by
  unfold updateOnInst at h
  split at h
  · obtain ⟨⟨fa₁, s⟩, hcall, h⟩ := Except.bind_eq_ok_iff.1 h
    cases h
    rw [updateOnCall_eq_ok hcall]
    exact .of_same rfl rfl
  · split at h
    · split at h
      · exact updateOnReturn_files h
      · exact updateOnReturnInMain_files h
    · cases h
      exact .refl m

theorem updateColors_files (h : updateColors fa m = .ok (fa', m')) : Files args m m' := by
  unfold updateColors at h
  split at h
  · cases h
    exact .refl m
  · split at h
    · cases h
      exact .refl m
    · obtain ⟨⟨fa₁, m₁⟩, hinst, h⟩ := Except.bind_eq_ok_iff.1 h
      dsimp only at h
      split at h
      · cases h
        exact updateOnInst_files hinst
      · split at h
        · cases h
        · obtain ⟨fa₂, -, h⟩ := Except.bind_eq_ok_iff.1 h
          cases h
          exact updateOnInst_files hinst

theorem postCheckState_files {initPC : Word} (h : postCheckState initPC m = .ok m') :
    Files args m m' := by
  unfold postCheckState at h
  split at h
  · cases h
    exact .refl m
  · split at h
    · cases h
    · split at h
      · exact Mach.newStateIssue_files h
      · cases h
        exact .refl m

end SubroutineTracker

theorem Limits.checkLimitOnState_files {l : Limits} {m m' : Mach} {args : CallBackArg → Prop}
    (h : l.checkLimitOnState m = .ok m') : Files args m m' := by
  unfold checkLimitOnState at h
  split at h
  · exact Mach.newStateIssue_files (reach_eq_ok h).1
  · split at h
    · exact Mach.newStateIssue_files (reach_eq_ok h).1
    · split at h
      · exact Mach.newStateIssue_files (reach_eq_ok h).1
      · cases h
        exact .refl m

/-! ## References -/

section References

variable {args : CallBackArg → Prop} {m m' : Mach} {id : Nat}

theorem Mach.Files.refersTo (h : Files args m m') (hid : m'.pkg.RefersTo id) :
    m.pkg.RefersTo id ∨ (id = m.s.uid ∧ m'.s.triggerNewIssue = true) := by
  obtain ⟨issue, info, hfind, hs⟩ := hid
  rcases h.isNew issue info hfind with hold | ⟨huid, hflag, -⟩
  · exact .inl ⟨issue, info, hold, hs⟩
  · rw [huid] at hs
    cases hs
    exact .inr ⟨rfl, hflag⟩

theorem Mach.Files.refersToGold (h : Files args m m') (hid : m'.pkg.RefersToGold id) :
    m.pkg.RefersToGold id ∨ ∃ arg, args arg ∧ arg.goldState = id := by
  obtain ⟨issue, info, arg, hfind, harg, hgold⟩ := hid
  rcases h.isNew issue info hfind with hold | ⟨-, -, hargs⟩
  · exact .inl ⟨issue, info, arg, hold, harg, hgold⟩
  · exact .inr ⟨arg, hargs arg harg, hgold⟩

/-- Without callbacks no new gold state is referred to. -/
theorem Mach.Files.sameGold (h : Files noArgs m m') (hid : m'.pkg.RefersToGold id) :
    m.pkg.RefersToGold id := by
  rcases h.refersToGold hid with hold | ⟨arg, hargs, -⟩
  · exact hold
  · cases hargs

theorem Executor.Allocates.refersTo {ex : Executor} {r : StepResult} (h : ex.Allocates m r)
    (hid : r.pkg.RefersTo id) :
    m.pkg.RefersTo id ∨ ∃ t ∈ r.states, id = t.uid ∧ t.triggerNewIssue = true := by
  obtain ⟨issue, info, hfind, hs⟩ := hid
  rcases h.isNew issue info hfind with hold | ⟨-, t, ht, huid, hflag⟩
  · exact .inl ⟨issue, info, hold, hs⟩
  · rw [huid] at hs
    cases hs
    exact .inr ⟨t, ht, rfl, hflag⟩

theorem Executor.Allocates.refersToGold {ex : Executor} {r : StepResult} (h : ex.Allocates m r)
    (hid : r.pkg.RefersToGold id) : m.pkg.RefersToGold id := by
  obtain ⟨issue, info, arg, hfind, harg, hgold⟩ := hid
  rcases h.isNew issue info hfind with hold | ⟨hnone, -⟩
  · exact ⟨issue, info, arg, hold, harg, hgold⟩
  · rw [hnone] at harg
    cases harg

end References

/-! ## Comparing -/

/-- A comparison files issues on the test state whose callbacks need the gold state, and
flags the gold state when it does. -/
structure CrossChecker.Refers (gold : State) (m : Mach) (v : Verdict) : Prop where
  files : Files (fun arg => arg.goldState = gold.uid) m v.test
  flag : gold.triggerNewIssue = true → v.goldTriggersNewIssue = true
  gold : ∀ id, v.test.pkg.RefersToGold id → m.pkg.RefersToGold id ∨
    (id = gold.uid ∧ v.goldTriggersNewIssue = true)

theorem CrossChecker.compare_refers {c : CrossChecker} {gold : State} {m : Mach}
    {cs : ConstraintSet} {v : CrossChecker.Verdict} (h : c.compare gold m cs = .ok v) :
    Refers gold m v := by
  refine Except.foldlM_ok_induction (motive := fun _ v => Refers gold m v)
    ⟨.refl m, fun h => h, fun _ h => .inl h⟩ ?_ h
  intro done list v v' hrefers hstep
  unfold compareList at hstep
  split at hstep
  · cases hstep
    exact hrefers
  · obtain ⟨⟨failed, note, cs⟩, -, hstep⟩ := Except.bind_eq_ok_iff.1 hstep
    dsimp only at hstep
    split at hstep
    · cases hstep
      exact ⟨hrefers.files, hrefers.flag, hrefers.gold⟩
    · obtain ⟨m', hraise, hstep⟩ := Except.bind_eq_ok_iff.1 hstep
      cases hstep
      have hfiles : Files (fun arg => arg.goldState = gold.uid) v.test m' :=
        Mach.newStateIssueWith_files (fun a ha => by cases ha; rfl) hraise
      refine ⟨hrefers.files.trans hfiles, fun hgold => ?_, fun id hid => ?_⟩
      · simp [hrefers.flag hgold]
      · obtain ⟨issue, info, arg, hfind, harg, hid⟩ := hid
        rcases Mach.newStateIssueWith_isNew hraise hfind with hold | ⟨-, harg', -, haccepts⟩
        · rcases hrefers.gold id ⟨issue, info, arg, hold, harg, hid⟩ with hold | ⟨huid, hflag⟩
          · exact .inl hold
          · exact .inr ⟨huid, by simp [hflag]⟩
        · rw [harg] at harg'
          cases harg'
          exact .inr ⟨hid.symm, by simp [haccepts]⟩

namespace Session.Checking

variable {c c' : Checking} {gold gold' : State} {golds golds' before : List State}
variable {a : StateAllocator} {σ : AnySearcher} {startup : Option Nat}

/-- A comparison files issues on the test state. -/
structure Compares (c c' : Checking) : Prop where
  files : Files (fun _ => True) ⟨c.test, c.session.pkg⟩ ⟨c'.test, c'.session.pkg⟩
  core : c'.test.core = c.test.core
  ex : c'.session.ex = c.session.ex
  fa : c'.session.fa = c.session.fa

theorem Compares.refl (c : Checking) : Compares c c :=
  ⟨.refl _, rfl, rfl, rfl⟩

theorem Compares.trans {c'' : Checking} (h : Compares c c') (h' : Compares c' c'') :
    Compares c c'' where
  files := h.files.trans h'.files
  core := h'.core.trans h.core
  ex := h'.ex.trans h.ex
  fa := h'.fa.trans h.fa

theorem compareState_compares {constraints : ConstraintSet}
    (h : c.compareState gold constraints = .ok (c', gold')) :
    Compares c c' ∧ gold'.uid = gold.uid ∧ gold'.status = gold.status ∧
    (gold.triggerNewIssue = true → gold'.triggerNewIssue = true) ∧
    ∀ id, c'.session.pkg.RefersToGold id → c.session.pkg.RefersToGold id ∨
      (id = gold.uid ∧ gold'.triggerNewIssue = true) := by
  obtain ⟨v, hcompare, h⟩ := Except.bind_eq_ok_iff.1 h
  cases h
  have hrefers := CrossChecker.compare_refers hcompare
  exact ⟨⟨hrefers.files.mono fun _ _ => trivial, (compare_tracked hcompare).core, rfl, rfl⟩,
    rfl, rfl, hrefers.flag, hrefers.gold⟩

end Session.Checking

/-! ## The check for shared code -/

/-- Issues without a state leave the references as they are. -/
theorem IssuePackage.newGlobalIssue_refers {pkg pkg' : IssuePackage} {type : IssueType}
    {location : InstValue} {note : String} (h : pkg.newGlobalIssue type location note = .ok pkg') :
    (∀ id, pkg'.RefersTo id → pkg.RefersTo id) ∧
      ∀ id, pkg'.RefersToGold id → pkg.RefersToGold id := by
  obtain ⟨⟨pkg₁, accepted⟩, hraise, h⟩ := Except.bind_eq_ok_iff.1 h
  cases h
  constructor
  · rintro id ⟨issue, info, hfind, hs⟩
    rcases raiseIssue_isNew hraise hfind with hold | ⟨rfl, -⟩
    · exact ⟨issue, info, hold, hs⟩
    · cases hs
  · rintro id ⟨issue, info, arg, hfind, harg, hid⟩
    rcases raiseIssue_isNew hraise hfind with hold | ⟨rfl, -⟩
    · exact ⟨issue, info, arg, hold, harg, hid⟩
    · cases harg

namespace FlowAnalysis

variable {fa : FlowAnalysis}

theorem reportDuplicate_refers {pkg pkg' : IssuePackage} {inst : InstValue}
    {colors lastColors : List Word}
    (h : fa.reportDuplicate pkg inst colors lastColors = .ok pkg') :
    (∀ id, pkg'.RefersTo id → pkg.RefersTo id) ∧
      ∀ id, pkg'.RefersToGold id → pkg.RefersToGold id := by
  unfold reportDuplicate at h
  split at h
  · dsimp only at h
    rw [Except.ite_bind_eq] at h
    obtain ⟨note, -, h⟩ := Except.bind_eq_ok_iff.1 h
    exact IssuePackage.newGlobalIssue_refers h
  · cases h
    exact ⟨fun _ hid => hid, fun _ hid => hid⟩

theorem checkDuplicateColorsOnPath_refers {n : Nat} {c c' : DuplicateCheck} {node : Word}
    {lastColors : List Word} (h : checkDuplicateColorsOnPath n fa c node lastColors = .ok c') :
    (∀ id, c'.pkg.RefersTo id → c.pkg.RefersTo id) ∧
      ∀ id, c'.pkg.RefersToGold id → c.pkg.RefersToGold id := by
  induction n generalizing c c' node lastColors with
  | zero =>
      cases h
      exact ⟨fun _ hid => hid, fun _ hid => hid⟩
  | succ n ih =>
      unfold checkDuplicateColorsOnPath at h
      split at h
      · cases h
        exact ⟨fun _ hid => hid, fun _ hid => hid⟩
      · split at h
        · cases h
        · obtain ⟨pkg, hreport, h⟩ := Except.bind_eq_ok_iff.1 h
          obtain ⟨hstates, hgold⟩ := reportDuplicate_refers hreport
          refine Except.foldlM_ok_induction (motive := fun _ (c' : DuplicateCheck) =>
            (∀ id, c'.pkg.RefersTo id → c.pkg.RefersTo id) ∧
              ∀ id, c'.pkg.RefersToGold id → c.pkg.RefersToGold id) ⟨hstates, hgold⟩ ?_ h
          intro done e c₁ c₂ hrefers hstep
          split at hstep
          · obtain ⟨hstates', hgold'⟩ := ih hstep
            exact ⟨fun id hid => hrefers.1 id (hstates' id hid),
              fun id hid => hrefers.2 id (hgold' id hid)⟩
          · cases hstep
            exact hrefers

theorem checkDuplicateColors_refers {pkg : IssuePackage} {c : DuplicateCheck}
    (h : fa.checkDuplicateColors pkg = .ok c) :
    (∀ id, c.pkg.RefersTo id → pkg.RefersTo id) ∧
      ∀ id, c.pkg.RefersToGold id → pkg.RefersToGold id := by
  refine Except.foldlM_ok_induction (motive := fun _ (c : DuplicateCheck) =>
    (∀ id, c.pkg.RefersTo id → pkg.RefersTo id) ∧
      ∀ id, c.pkg.RefersToGold id → pkg.RefersToGold id)
    ⟨fun _ hid => hid, fun _ hid => hid⟩ ?_ h
  intro done node c₁ c₂ hrefers hstep
  split at hstep
  · cases hstep
    exact hrefers
  · obtain ⟨hstates, hgold⟩ := checkDuplicateColorsOnPath_refers hstep
    exact ⟨fun id hid => hrefers.1 id (hstates id hid), fun id hid => hrefers.2 id (hgold id hid)⟩

end FlowAnalysis

/-! ## The warm-up -/

namespace Options

variable {solver : Solver} {o : Options} {fuel : Nat} {p : Program} {g g' : Gold}

theorem warmUpNext_allocated (hg : g.startup.uid < g.ex.totalAllocatedStateCount)
    (h : warmUpNext g = .ok (some g')) : g'.startup.uid < g'.ex.totalAllocatedStateCount := by
  unfold warmUpNext at h
  split at h
  · cases h
  · obtain ⟨r, hstep, h⟩ := Except.bind_eq_ok_iff.1 h
    cases r with
    | inl m => cases h
    | inr r =>
        dsimp only at h
        split at h
        · cases h
        · rename_i s hlast
          split at h
          · cases h
          · cases h
            obtain ⟨forks, t, hstates, -, hcount, huid, -⟩ :=
              (Executor.stepUnlessFork_allocates hstep).results
            rw [hstates, List.getLast?_concat] at hlast
            cases hlast
            change s.uid < r.ex.totalAllocatedStateCount
            rw [huid, hcount]
            exact Nat.lt_of_lt_of_le hg (Nat.le_add_right _ _)

/-- The state in which the warm-up ends was allocated by the executor of the gold program. -/
theorem warmUp_allocated (h : o.warmUp solver fuel p = .ok (some g)) :
    g.startup.uid < g.ex.totalAllocatedStateCount := by
  obtain ⟨⟨ex, s⟩, hinit, h⟩ := Except.bind_eq_ok_iff.1 h
  obtain ⟨g', hrun, h⟩ := Except.bind_eq_ok_iff.1 h
  have hstart : s.uid < ex.totalAllocatedStateCount := by
    obtain ⟨cs, rfl⟩ := Executor.createInitState_init hinit
    rw [Executor.createInitState_eq] at hinit
    obtain ⟨s', -, hinit⟩ := Except.map_eq_ok_iff.1 hinit
    cases hinit
    exact Nat.lt_succ_self 0
  cases g' with
  | none => cases h
  | some g' =>
      dsimp only at h
      split at h
      · cases h
        exact (Loop.run_invariant (motive := fun g : Gold =>
          g.startup.uid < g.ex.totalAllocatedStateCount) hrun hstart
          fun _ _ => warmUpNext_allocated).1
      · cases h

end Options

/-! ## Where the states are -/

namespace State

variable {mem : List (Word × MemValue)} {fg : FlowGraph} {s s' t : State}

/-- What a state still has of the program that was loaded: its instructions, the last
executed one of the user among them. -/
structure Placed (mem : List (Word × MemValue)) (s : State) : Prop where
  insts : ∀ addr i, s.mem.read addr = some (.inst i) → mem.lookup addr = some (.inst i)
  latest : ∀ i, s.latestNonOSInst.1 = some i →
    mem.lookup i.addr = some (.inst i) ∧ i.belongsToOS = false

theorem Placed.congr (h : s.Placed mem) (hmem : s'.mem = s.mem)
    (hlatest : s'.latestNonOSInst = s.latestNonOSInst) : s'.Placed mem :=
  ⟨hmem ▸ h.insts, hlatest ▸ h.latest⟩

theorem Placed.of_core (h : s.Placed mem) (hcore : s'.core = s.core) : s'.Placed mem :=
  h.congr (core_mem hcore) (core_congr State.latestNonOSInst hcore fun _ => rfl)

theorem Placed.of_unlooped (h : s.Placed mem) (hsame : s'.unlooped = s.unlooped) :
    s'.Placed mem :=
  h.congr (unlooped_congr State.mem hsame fun _ => rfl)
    (unlooped_congr State.latestNonOSInst hsame fun _ => rfl)

/-- A step only puts the fetched instruction in front. -/
theorem Placed.step {ex : Executor} {m : Mach} (hloaded : Loaded mem) (h : m.s.Placed mem)
    (hstep : Executor.Steps ex m t) : t.Placed mem := by
  refine ⟨fun addr i hi => h.insts addr i ((hstep.read_inst addr i).1 hi), ?_⟩
  cases hstep with
  | stopped _ => exact h.latest
  | fails m' type note _ hraise _ =>
      rw [(Mach.newStateIssue_reads hraise).path.latestNonOSInst]
      exact h.latest
  | executes ir t hfetch _ hexec =>
      rw [hexec.keeps.path.latestNonOSInst]
      intro i hi
      change (if ir.belongsToOS then m.s.latestNonOSInst else (some ir, m.s.latestNonOSInst.1)).1 =
        some i at hi
      split at hi
      · exact h.latest i hi
      · rename_i huser
        cases hi
        have hlookup := h.insts _ _ hfetch
        rw [hloaded.addr _ _ ((lookup_eq_some_iff_mem hloaded.keys).1 hlookup)]
        exact ⟨hlookup, by simpa using huser⟩

/-- An edge of a trap behind the last executed instruction says that it is a `TRAP`. -/
theorem Placed.trapsAt (hloaded : Loaded mem) (hsound : fg.Sound)
    (hnodes : fg.nodes = FlowGraph.userInsts mem) (h : s.Placed mem) : fg.TrapsAt s := by
  intro i hi e he htype
  obtain ⟨hget, -, hsrc⟩ := FlowGraph.mem_runtimeOutEdges.1 he
  obtain ⟨j, hj, hnode, hid⟩ := hsound.traps e.2 (List.mem_of_getElem? hget) htype
  obtain ⟨hlookup, huser⟩ := h.latest i hi
  have haddr : i.addr = j.addr := Option.some.inj (hsrc.symm.trans hj)
  have hnode' : fg.getNodeByAddr i.addr = some i := by
    rw [FlowGraph.getNodeByAddr, hnodes, FlowGraph.lookup_userInsts_iff hloaded.keys]
    exact ⟨hlookup, huser⟩
  rw [haddr, hnode] at hnode'
  rwa [← Option.some.inj hnode']

end State

/-! ## The invariant -/

namespace Main

variable {M M' : Main} {rand : Nat} {o : Options} {solver : Solver} {option : SearcherOption}
variable {before after : List State} {s : State}

/-- The states that are being looked at. -/
def inUse (M : Main) : List State :=
  match M.phase with
  | .fetching => []
  | .checking checked results => checked ++ results
  | .comparing _ _ test checked results => checked ++ test :: results

/-- The gold program as it is. -/
def gold (M : Main) : Option Gold :=
  match M.phase with
  | .comparing gold _ _ _ _ => some gold
  | _ => M.session.gold

/-- The searcher of the gold loop; outside of one there is none, so an empty one. -/
def goldSearcher (M : Main) : AnySearcher :=
  match M.phase with
  | .comparing _ goldSearcher _ _ _ => goldSearcher
  | _ => SearcherOption.prioritizedFILO.searcher

/-- The gold states that are needed: those of callbacks and the one in which the warm-up
ended. -/
def NeedsGold (pkg : IssuePackage) (gold : Option Gold) (id : Nat) : Prop :=
  pkg.RefersToGold id ∨ gold.map (fun g => g.startup.uid) = some id

/-- The counter of the gold executor. -/
def goldCount (gold : Option Gold) : Nat :=
  (gold.map fun g => g.ex.totalAllocatedStateCount).getD 0

/-- What holds between any two pieces of the loop. -/
structure Inv (o : Options) (M : Main) : Prop where
  sound : M.session.fa.fg.Sound
  nodes : M.session.fa.fg.nodes = FlowGraph.userInsts o.test.mem
  placed : ∀ s ∈ M.searcher.held ++ M.inUse, s.Placed o.test.mem
  wf : M.allocator.WF M.session.ex.totalAllocatedStateCount
  retains : Retains M.allocator M.session.pkg.RefersTo M.searcher M.inUse
  goldBasic : M.goldSearcher.IsBasic
  goldWF : M.goldAllocator.WF (goldCount M.gold)
  gold : Retains M.goldAllocator (NeedsGold M.session.pkg M.gold) M.goldSearcher []

/-! ## One piece of the loop -/

section Pieces

open Session (Checking)

variable {a : StateAllocator} {refers : Nat → Prop} {σ : AnySearcher} {fa fa' : FlowAnalysis}
variable {pkg pkg' : IssuePackage} {states states' : List State} {s' : State}
variable {args : CallBackArg → Prop} {c c' : Checking} {gold : Option Gold}

theorem placed_replace {mem : List (Word × MemValue)} {held : List State}
    (h : ∀ t ∈ held ++ (before ++ s :: after), t.Placed mem) (hcore : s'.core = s.core) :
    ∀ t ∈ held ++ (before ++ s' :: after), t.Placed mem := by
  intro t ht
  by_cases hts : t = s'
  · rw [hts]
    exact (h s (by simp)).of_core hcore
  · refine h t ?_
    simp only [List.mem_append, List.mem_cons] at ht ⊢
    tauto

/-- Issues are filed on a state in use. -/
theorem retains_files {m : Mach} (h : Retains a pkg.RefersTo σ (before ++ s :: after))
    (hfiles : Files args ⟨s, pkg⟩ m) : Retains a m.pkg.RefersTo σ (before ++ m.s :: after) :=
  h.replace hfiles.uid hfiles.flag fun _ hid => hfiles.refersTo hid

theorem retains_updateCoverage (h : Retains a refers σ (before ++ states))
    (hupdate : Session.updateCoverage fa states = .ok (fa', states')) :
    Retains a refers σ (before ++ states') := by
  induction states generalizing fa states' before with
  | nil =>
      cases hupdate
      exact h
  | cons s rest ih =>
      obtain ⟨⟨fg, s'⟩, hone, hupdate⟩ := Except.bind_eq_ok_iff.1 hupdate
      obtain ⟨⟨fa₁, rest'⟩, hrest, hupdate⟩ := Except.bind_eq_ok_iff.1 hupdate
      cases hupdate
      obtain ⟨covered, path, rfl⟩ := CoverageTracker.updateGraphAndCoverage_eq_ok hone
      have hhead : Retains a refers σ
          (before ++ { s with coveredNewEdge := covered, statePath := path } :: rest) :=
        h.replace rfl (fun hflag => hflag) fun _ hid => .inl hid
      rw [List.append_cons] at hhead ⊢
      exact ih hhead hrest

theorem retains_updateAllColors (h : Retains a pkg.RefersTo σ (before ++ states))
    (hupdate : Session.updateAllColors fa pkg states = .ok (fa', pkg', states')) :
    Retains a pkg'.RefersTo σ (before ++ states') ∧
      ∀ id, pkg'.RefersToGold id → pkg.RefersToGold id := by
  induction states generalizing fa pkg states' before with
  | nil =>
      cases hupdate
      exact ⟨h, fun _ hid => hid⟩
  | cons s rest ih =>
      obtain ⟨⟨fa₁, m⟩, hone, hupdate⟩ := Except.bind_eq_ok_iff.1 hupdate
      obtain ⟨⟨fa₂, pkg₂, rest'⟩, hrest, hupdate⟩ := Except.bind_eq_ok_iff.1 hupdate
      cases hupdate
      have hfiles : Files noArgs ⟨s, pkg⟩ m := SubroutineTracker.updateColors_files hone
      have hhead := retains_files h hfiles
      rw [List.append_cons] at hhead ⊢
      obtain ⟨hretains, hgold⟩ := ih hhead hrest
      exact ⟨hretains, fun id hid => hfiles.sameGold (hgold id hid)⟩

/-- The gold states of one step are compared with the test state. -/
theorem retains_compareResults
    (h : Retains a (NeedsGold c.session.pkg gold) σ (before ++ states))
    (hcompare : c.compareResults states = .ok (c', states')) :
    Checking.Compares c c' ∧ Retains a (NeedsGold c'.session.pkg gold) σ (before ++ states') := by
  induction states generalizing c states' before with
  | nil =>
      cases hcompare
      exact ⟨.refl _, h⟩
  | cons s rest ih =>
      unfold Checking.compareResults at hcompare
      cases hstatus : s.status with
      | halted =>
          rw [hstatus] at hcompare
          obtain ⟨⟨c₁, s'⟩, hone, hcompare⟩ := Except.bind_eq_ok_iff.1 hcompare
          obtain ⟨⟨c₂, rest'⟩, hrest, hcompare⟩ := Except.bind_eq_ok_iff.1 hcompare
          cases hcompare
          obtain ⟨hcompares, huid, -, hflag, hrefers⟩ := Checking.compareState_compares hone
          have hhead : Retains a (NeedsGold c₁.session.pkg gold) σ (before ++ s' :: rest) := by
            refine h.replace huid hflag fun id hid => ?_
            rcases hid with hid | hid
            · exact (hrefers id hid).imp_left .inl
            · exact .inl (.inr hid)
          rw [List.append_cons] at hhead ⊢
          obtain ⟨hcompares', hretains⟩ := ih hhead hrest
          exact ⟨hcompares.trans hcompares', hretains⟩
      | broken =>
          rw [hstatus] at hcompare
          cases hcompare
      | normal =>
          rw [hstatus] at hcompare
          obtain ⟨⟨c₂, rest'⟩, hrest, hcompare⟩ := Except.bind_eq_ok_iff.1 hcompare
          cases hcompare
          rw [List.append_cons] at h ⊢
          exact ih h hrest

end Pieces

/-- Outside of the gold loop. -/
theorem gold_fetching (hphase : M.phase = .fetching) :
    M.inUse = [] ∧ M.gold = M.session.gold ∧
      M.goldSearcher = SearcherOption.prioritizedFILO.searcher := by
  unfold inUse Main.gold goldSearcher
  rw [hphase]
  exact ⟨rfl, rfl, rfl⟩

/-- A state is fetched and stepped. -/
theorem Inv.fetchNext (hloaded : Loaded o.test.mem) (h : M.Inv o) (hphase : M.phase = .fetching)
    (hnext : M.fetchNext rand = .ok (some M')) : M'.Inv o := by
  obtain ⟨hinUse, hgold, hsearcher⟩ := gold_fetching hphase
  have hretains := h.retains
  have hgoldRetains := h.gold
  rw [hinUse] at hretains
  rw [hgold, hsearcher] at hgoldRetains
  unfold Main.fetchNext at hnext
  split at hnext
  · rename_i s searcher hfetch
    split at hnext
    · cases hnext
    obtain ⟨r, hstep, hnext⟩ := Except.bind_eq_ok_iff.1 hnext
    obtain ⟨⟨fa₁, states₁⟩, hcoverage, hnext⟩ := Except.bind_eq_ok_iff.1 hnext
    obtain ⟨⟨fa₂, pkg₂, states₂⟩, hcolors, hnext⟩ := Except.bind_eq_ok_iff.1 hnext
    cases hnext
    have halloc := Executor.step_allocates hstep
    have hfetched := hretains.fetch hfetch
    obtain ⟨hstepped, hwf⟩ := hfetched.step h.wf halloc fun id hid => halloc.refersTo hid
    have hcovered : Retains _ _ searcher ([] ++ states₁) :=
      retains_updateCoverage hstepped hcoverage
    obtain ⟨hcolored, hsame⟩ := retains_updateAllColors hcovered hcolors
    have hgrows := (Session.updateCoverage_grows hcoverage).trans
      (Session.updateAllColors_extends hcolors).grows
    have hfollows : Follows r.pkg pkg₂ r.states states₂ :=
      (Session.updateCoverage_follows hcoverage).trans (Session.updateAllColors_follows hcolors)
    constructor
    case sound => exact hgrows.sound h.sound
    case nodes => exact hgrows.nodes.trans h.nodes
    case placed =>
      obtain ⟨t, ht, hsame⟩ := AnySearcher.fetch_mem hfetch
      have hs : s.Placed o.test.mem :=
        (h.placed t (List.mem_append_left _ ht)).of_unlooped hsame.symm
      intro u hu
      rcases List.mem_append.1 hu with hu | hu
      · obtain ⟨t', -, hperm, -⟩ := AnySearcher.fetch_spec hfetch
        rw [Retains.heldElsewhere_eq hfetched.fixed] at hperm
        exact h.placed u (List.mem_append_left _ (hperm.mem_iff.2 (List.mem_cons_of_mem _ hu)))
      · obtain ⟨v, hv, hcore, -⟩ := hfollows.each.exists_left hu
        exact (hs.step hloaded (Executor.mem_step hstep hv)).of_core hcore
    case wf => exact hwf
    case retains => exact hcolored
    case goldBasic => exact ⟨_, rfl⟩
    case goldWF =>
      have hwf := h.goldWF
      rw [hgold] at hwf
      exact hwf
    case gold =>
      refine hgoldRetains.mono (fun _ hid => hid) fun id hid => ?_
      exact hid.imp_left fun hid => halloc.refersToGold (hsame id hid)
  · split at hnext
    · cases hnext
      have hheld : (M.searcher.setLevel (M.currentSearcherLevel + 1)).held = M.searcher.held := by
        obtain ⟨hinternal, hpostponed⟩ := M.searcher.setLevel_held (M.currentSearcherLevel + 1)
        unfold AnySearcher.held
        rw [hinternal, hpostponed]
      constructor
      case sound => exact h.sound
      case nodes => exact h.nodes
      case placed =>
        have hplaced := h.placed
        rw [← hheld] at hplaced
        exact hplaced
      case wf => exact h.wf
      case retains => exact h.retains.setLevel _
      case goldBasic => exact h.goldBasic
      case goldWF => exact h.goldWF
      case gold => exact h.gold
    · cases hnext

/-- A state is as good as checked when nothing happens to it any more. -/
theorem Inv.checked (h : Inv o { M with phase := .checking before (s :: after) }) :
    Inv o { M with phase := .checking (before ++ [s]) after } := by
  have hinUse : before ++ s :: after = (before ++ [s]) ++ after := List.append_cons before s after
  constructor
  case sound => exact h.sound
  case nodes => exact h.nodes
  case placed =>
    intro t ht
    refine h.placed t ?_
    change t ∈ M.searcher.held ++ (before ++ s :: after)
    rw [hinUse]
    exact ht
  case wf => exact h.wf
  case retains =>
    have hretains : Retains M.allocator M.session.pkg.RefersTo M.searcher (before ++ s :: after) :=
      h.retains
    rw [hinUse] at hretains
    exact hretains
  case goldBasic => exact h.goldBasic
  case goldWF => exact h.goldWF
  case gold => exact h.gold

/-- Issues are filed on the state that is being checked. -/
theorem Inv.files {m : Mach} (h : Inv o { M with phase := .checking before (s :: after) })
    (hfiles : Files noArgs ⟨s, M.session.pkg⟩ m) (hcore : m.s.core = s.core) :
    Inv o { M with
      session := { M.session with pkg := m.pkg }
      phase := .checking before (m.s :: after) } := by
  constructor
  case sound => exact h.sound
  case nodes => exact h.nodes
  case placed => exact placed_replace h.placed hcore
  case wf => exact h.wf
  case retains => exact retains_files h.retains hfiles
  case goldBasic => exact h.goldBasic
  case goldWF => exact h.goldWF
  case gold =>
    refine Retains.mono h.gold (fun _ hid => hid) fun id hid => ?_
    exact hid.imp_left fun hid => hfiles.sameGold hid

/-- All results are pushed, and some of them released. -/
theorem Inv.pushAndRelease {states : List State} (hloaded : Loaded o.test.mem)
    (h : Inv o { M with phase := .checking states [] })
    (hnext : M.pushAndRelease states = .ok M') : M'.Inv o := by
  obtain ⟨searcher, hpush, hnext⟩ := Except.bind_eq_ok_iff.1 hnext
  obtain ⟨⟨searcher', allocator'⟩, hrelease, hnext⟩ := Except.bind_eq_ok_iff.1 hnext
  cases hnext
  have hretains : Retains M.allocator M.session.pkg.RefersTo M.searcher states := by
    have hretains : Retains M.allocator M.session.pkg.RefersTo M.searcher (states ++ []) :=
      h.retains
    rwa [List.append_nil] at hretains
  have hplaced : ∀ s ∈ M.searcher.held ++ states, s.Placed o.test.mem := by
    have hplaced : ∀ s ∈ M.searcher.held ++ (states ++ []), s.Placed o.test.mem := h.placed
    rwa [List.append_nil] at hplaced
  have htraps : ∀ s ∈ states, M.session.fa.fg.TrapsAt s := fun s hs =>
    (hplaced s (List.mem_append_right _ hs)).trapsAt hloaded h.sound h.nodes
  have htraps' : M.searcher.TrapsAt M.session.fa states := by
    cases hsearcher : M.searcher with
    | basic b => trivial
    | pruning ps => exact htraps
  obtain ⟨hheld, -, -, -, -, hwf⟩ :=
    releaseStates_spec hrelease
  constructor
  case sound => exact h.sound
  case nodes => exact h.nodes
  case placed =>
    intro t ht
    have ht' : t ∈ searcher.held := by
      rw [← hheld]
      simpa [inUse] using ht
    have hnodup : (states.map State.uid).Nodup := by
      have hnodup := hretains.nodup
      rw [List.map_append, List.map_append] at hnodup
      exact hnodup.of_append_left.of_append_right
    rcases AnySearcher.push_mem hnodup htraps hpush t ht' with hold | ⟨s, hs, hsame⟩
    · exact hplaced t (List.mem_append_left _ hold)
    · exact (hplaced s (List.mem_append_right _ hs)).of_unlooped hsame
  case wf => exact hwf _ h.wf
  case retains =>
    refine hretains.release htraps' ?_ hpush hrelease
    intro status hdone heq
    rw [heq] at hdone
    cases hdone
  case goldBasic => exact h.goldBasic
  case goldWF => exact h.goldWF
  case gold => exact h.gold

/-- A halted state is compared at once, or the gold program is launched for it. -/
theorem Inv.launchGold (h : Inv o { M with phase := .checking before (s :: after) })
    (hnext : M.launchGold s before after = .ok M') : M'.Inv o := by
  unfold Main.launchGold at hnext
  split at hnext
  · cases hnext
    exact h.checked
  · rename_i gold hgold
    have hretains : Retains M.goldAllocator (NeedsGold M.session.pkg (some gold))
        SearcherOption.prioritizedFILO.searcher [] := hgold ▸ h.gold
    have hwf : M.goldAllocator.WF gold.ex.totalAllocatedStateCount := by
      have hwf : M.goldAllocator.WF (goldCount M.session.gold) := h.goldWF
      rwa [hgold] at hwf
    split at hnext
    · obtain ⟨⟨c, startup⟩, hcompare, hnext⟩ := Except.bind_eq_ok_iff.1 hnext
      cases hnext
      obtain ⟨hcompares, huid, -, -, hrefers⟩ :=
        Session.Checking.compareState_compares hcompare
      refine Inv.checked (M := { M with
        session := { c.session with gold := some { gold with startup := startup } } }) ?_
      constructor
      case sound => exact hcompares.fa ▸ h.sound
      case nodes => exact hcompares.fa ▸ h.nodes
      case placed => exact placed_replace h.placed hcompares.core
      case wf => exact hcompares.ex ▸ h.wf
      case retains => exact retains_files h.retains hcompares.files
      case goldBasic => exact h.goldBasic
      case goldWF => exact hwf
      case gold =>
        refine hretains.mono (fun _ hid => hid) fun id hid => ?_
        rcases hid with hid | hid
        · rcases hrefers id hid with hold | ⟨rfl, -⟩
          · exact .inl hold
          · exact .inr rfl
        · refine .inr ?_
          rw [← hid]
          exact congrArg some huid.symm
    · obtain ⟨t, hfork, hnext⟩ := Except.bind_eq_ok_iff.1 hnext
      obtain ⟨goldSearcher, hpush, hnext⟩ := Except.bind_eq_ok_iff.1 hnext
      cases hnext
      obtain ⟨-, rfl⟩ := State.fork_eq_ok hfork
      have hle : gold.ex.totalAllocatedStateCount ≤ gold.ex.totalAllocatedStateCount + 1 :=
        Nat.le_succ _
      constructor
      case sound => exact h.sound
      case nodes => exact h.nodes
      case placed => exact h.placed
      case wf => exact h.wf
      case retains => exact h.retains
      case goldBasic => exact AnySearcher.IsBasic.push ⟨_, rfl⟩ hpush
      case goldWF => exact hwf.allocate hle
      case gold =>
        refine (Retains.push (Retains.of_new .prioritizedFILO ?_ ?_ ?_ ?_) trivial hpush).1
        · intro id hid
          exact (StateAllocator.mem_allocate hle).2 (.inl (hretains.referred id hid))
        · intro u hu
          rw [List.mem_singleton.1 hu]
          exact (StateAllocator.mem_allocate hle).2 (.inr ⟨le_rfl, Nat.lt_succ_self _⟩)
        · intro u hu hid
          -- the copy is new, so nothing needs it yet
          rw [List.mem_singleton.1 hu] at hid
          exact absurd (hwf.alive_lt _ (hretains.referred _ hid)) (lt_irrefl _)
        · exact List.nodup_singleton _

/-- The next result state is checked. -/
theorem Inv.checkNext {checked results : List State} (hloaded : Loaded o.test.mem)
    (h : Inv o { M with phase := .checking checked results })
    (hnext : M.checkNext checked results = .ok M') : M'.Inv o := by
  cases results with
  | nil => exact h.pushAndRelease hloaded hnext
  | cons s results =>
      have hafter : ∀ {m : Mach}, Files noArgs ⟨s, M.session.pkg⟩ m → m.s.core = s.core →
          (if m.s.status = .halted then
            SubroutineTracker.postCheckState M.session.fa.fg.initPC m >>= fun m =>
              Main.launchGold { M with session := { M.session with pkg := m.pkg } } m.s checked
                results
          else pure { M with
            session := { M.session with pkg := m.pkg }
            phase := .checking (checked ++ [m.s]) results }) = .ok M' → M'.Inv o := by
        intro m hfiles hcore hnext
        split at hnext
        · obtain ⟨m', hpost, hnext⟩ := Except.bind_eq_ok_iff.1 hnext
          have hfiles' := hfiles.trans (SubroutineTracker.postCheckState_files hpost)
          have hcore' := (SubroutineTracker.postCheckState_tracked hpost).core.trans hcore
          exact Inv.launchGold (M := { M with session := { M.session with pkg := m'.pkg } })
            (h.files hfiles' hcore') hnext
        · cases hnext
          exact Inv.checked (M := { M with session := { M.session with pkg := m.pkg } })
            (h.files hfiles hcore)
      unfold Main.checkNext at hnext
      dsimp only at hnext
      split at hnext
      · obtain ⟨m, hlimit, hnext⟩ := Except.bind_eq_ok_iff.1 hnext
        exact hafter (Limits.checkLimitOnState_files hlimit)
          (Limits.checkLimitOnState_tracked hlimit).core hnext
      · exact hafter (.refl _) rfl hnext

/-- The gold program takes a step, or has come to an end. -/
theorem Inv.compareNext {gold : Gold} {goldSearcher : AnySearcher}
    (h : Inv o { M with phase := .comparing gold goldSearcher s before after })
    (hnext : M.compareNext gold goldSearcher s before after = .ok M') : M'.Inv o := by
  have hretains : Retains M.goldAllocator (NeedsGold M.session.pkg (some gold)) goldSearcher [] :=
    h.gold
  have hwf : M.goldAllocator.WF gold.ex.totalAllocatedStateCount := h.goldWF
  have hbasic : goldSearcher.IsBasic := h.goldBasic
  unfold Main.compareNext at hnext
  split at hnext
  · split at hnext
    · cases hnext
      refine Inv.checked (M := { M with session := { M.session with gold := some gold } }) ?_
      constructor
      case sound => exact h.sound
      case nodes => exact h.nodes
      case placed => exact h.placed
      case wf => exact h.wf
      case retains => exact h.retains
      case goldBasic => exact ⟨_, rfl⟩
      case goldWF => exact hwf
      case gold => exact hretains.drop .prioritizedFILO
    · cases hnext
  · rename_i t goldSearcher₁ hfetch
    obtain ⟨r, hstep, hnext⟩ := Except.bind_eq_ok_iff.1 hnext
    obtain ⟨⟨c, states⟩, hcompare, hnext⟩ := Except.bind_eq_ok_iff.1 hnext
    obtain ⟨goldSearcher₂, hpush, hnext⟩ := Except.bind_eq_ok_iff.1 hnext
    obtain ⟨⟨goldSearcher₃, goldAllocator⟩, hrelease, hnext⟩ := Except.bind_eq_ok_iff.1 hnext
    cases hnext
    obtain ⟨hstepped, hwf₁⟩ := (hretains.fetch hfetch).step hwf (Executor.step_allocates hstep)
      fun id hid => .inl hid
    have hbefore : Retains _ _ goldSearcher₁ ([] ++ r.states) := hstepped
    obtain ⟨hcompares, hcompared⟩ := retains_compareResults hbefore hcompare
    have hbasic₁ := hbasic.fetch hfetch
    constructor
    case sound => exact hcompares.fa ▸ h.sound
    case nodes => exact hcompares.fa ▸ h.nodes
    case placed => exact placed_replace h.placed hcompares.core
    case wf => exact hcompares.ex ▸ h.wf
    case retains => exact retains_files h.retains hcompares.files
    case goldBasic => exact (hbasic₁.push hpush).release hrelease
    case goldWF =>
      obtain ⟨-, -, -, -, -, hkeeps⟩ := releaseStates_spec hrelease
      exact hkeeps _ hwf₁
    case gold =>
      refine hcompared.release hbasic₁.trapsAt ?_ hpush hrelease
      intro status hdone heq
      rw [heq] at hdone
      cases hdone

/-- Every piece of the loop keeps the invariant. -/
theorem Inv.next (hloaded : Loaded o.test.mem) (h : M.Inv o)
    (hnext : M.next rand = .ok (some M')) : M'.Inv o := by
  obtain ⟨S, σ, allocator, goldAllocator, level, maxLevel, phase⟩ := M
  unfold Main.next at hnext
  cases phase with
  | fetching => exact h.fetchNext hloaded rfl hnext
  | checking checked results =>
      obtain ⟨M₁, hnext, heq⟩ := Except.map_eq_ok_iff.1 hnext
      cases heq
      exact Inv.checkNext hloaded h hnext
  | comparing gold goldSearcher test checked results =>
      obtain ⟨M₁, hnext, heq⟩ := Except.map_eq_ok_iff.1 hnext
      cases heq
      exact Inv.compareNext h hnext

/-! ## Whole runs -/

section Runs

variable {startup : Option Gold} {loopEdges : List LoopEdge}

/-- The loop goes on from `M` to `M'`. -/
def Steps (M M' : Main) : Prop := ∃ rand, M.next rand = .ok (some M')

/-- The initial state as `main` pushes it. -/
theorem setupInitState_spec {ex : Executor}
    (hinit : (Executor.new solver o.forkOnSymAddrThreshold o.test.baseMem).createInitState
      o.test.constraints o.test.initPC = .ok (ex, s)) (fa : FlowAnalysis) :
    ex.totalAllocatedStateCount = 1 ∧ (fa.setupInitState s).2.uid = 0 ∧
      (fa.setupInitState s).2.Placed o.test.mem := by
  obtain ⟨cs, rfl⟩ := Executor.createInitState_init hinit
  refine ⟨?_, rfl, fun addr i hi => MemoryManager.read_inst_base hi, fun i hi => by cases hi⟩
  rw [Executor.createInitState_eq] at hinit
  obtain ⟨s', -, hinit⟩ := Except.map_eq_ok_iff.1 hinit
  cases hinit
  rfl

/-- The edges that `LoopAnalyzer` adds are no runtime edges. -/
theorem addLoopEdges_sound {fg : FlowGraph} (loopEdges : List LoopEdge) (hsound : fg.Sound) :
    (fg.addLoopEdges loopEdges).Sound ∧ (fg.addLoopEdges loopEdges).nodes = fg.nodes := by
  induction loopEdges generalizing fg with
  | nil => exact ⟨hsound, rfl⟩
  | cons e rest ih =>
      have htype : e.type.isRuntime = false ∧ e.type ≠ .trapVirtual := by
        unfold LoopEdge.type
        split <;> decide
      have hmem : ∀ e' ∈ (fg.newEdge (some e.entryNode) e.dst e.type none).1.edges,
          e' ∈ fg.edges ∨ e' = ⟨e.type, some e.entryNode, e.dst, false, false, none⟩ := by
        intro e' he'
        rcases List.mem_append.1 he' with he' | he'
        · exact .inl he'
        · exact .inr (List.mem_singleton.1 he')
      refine ih ⟨hsound.placed, ?_, ?_, ?_, ?_, ?_⟩
      · intro addr i hi dst hdst hnode
        obtain ⟨e', he', hedge⟩ := hsound.static addr i hi dst hdst hnode
        exact ⟨e', List.mem_append_left _ he', hedge⟩
      · intro e' he' htrap
        rcases hmem e' he' with he' | rfl
        · exact hsound.traps e' he' htrap
        · exact absurd htrap htype.2
      · intro e' he' hrun hdst
        rcases hmem e' he' with he' | rfl
        · exact hsound.halts e' he' hrun hdst
        · rw [htype.1] at hrun
          cases hrun
      · intro hnode
        obtain ⟨k, e', hk, hget, hentry⟩ := hsound.init hnode
        have hlt := (List.getElem?_eq_some_iff.1 hget).1
        exact ⟨k, e', hk, (List.getElem?_append_left hlt).trans hget, hentry⟩
      · intro k e' hget hsrc
        rcases Nat.lt_or_ge k fg.edges.length with hk | hk
        · exact hsound.entry k e' ((List.getElem?_append_left hk).symm.trans hget) hsrc
        · have hget' := (List.getElem?_append_right hk).symm.trans hget
          rw [List.mem_singleton.1 (List.mem_of_getElem? hget')] at hsrc
          cases hsrc

/-- Before the first state there is nothing to refer to. -/
theorem start_inv (hloaded : Loaded o.test.mem) (hpkg : o.issuePackage.Global)
    (hgold : ∀ g, startup = some g → g.startup.uid < g.ex.totalAllocatedStateCount)
    (hstart : start solver o option loopEdges startup = .ok M) : M.Inv o := by
  obtain ⟨fa₀, hnew, hstart⟩ := Except.bind_eq_ok_iff.1 hstart
  obtain ⟨hsound₀, hnodes₀, -, -⟩ := FlowAnalysis.new_spec hloaded hnew
  obtain ⟨hsound, hnodes⟩ := addLoopEdges_sound loopEdges hsound₀
  rw [hnodes₀] at hnodes
  obtain ⟨⟨ex, s⟩, hinit, hstart⟩ := Except.bind_eq_ok_iff.1 hstart
  dsimp only at hstart
  generalize hfa : ({ fa₀ with fg := fa₀.fg.addLoopEdges loopEdges } : FlowAnalysis) = fa at hstart
  replace hfa : fa₀.fg.addLoopEdges loopEdges = fa.fg := congrArg FlowAnalysis.fg hfa
  rw [hfa] at hsound hnodes
  obtain ⟨hcount, huid, hplaced⟩ := setupInitState_spec hinit fa
  have hfg : (fa.setupInitState s).1.fg = fa.fg := FlowAnalysis.setupInitState_fg s
  generalize (fa.setupInitState s).1 = fa', (fa.setupInitState s).2 = s₀ at hstart hfg huid hplaced
  obtain ⟨searcher, hpush, hstart⟩ := Except.bind_eq_ok_iff.1 hstart
  cases hstart
  have hempty : Retains ⟨List.range ex.totalAllocatedStateCount, []⟩ o.issuePackage.RefersTo
      option.searcher [s₀] := by
    refine .of_new option (fun id hid => absurd hid (hpkg.refersTo id)) ?_
      (fun _ _ hid => absurd hid (hpkg.refersTo _)) (List.nodup_singleton _)
    simp [hcount, huid]
  have htraps : ∀ s ∈ [s₀], fa'.fg.TrapsAt s := by
    intro s hs
    rw [List.mem_singleton.1 hs, hfg]
    exact hplaced.trapsAt hloaded hsound hnodes
  have htraps' : option.searcher.TrapsAt fa' [s₀] := by
    cases option with
    | pruning _ _ _ => exact htraps
    | simpleFILO => trivial
    | prioritizedFILO => trivial
  have hcounter : ∀ count, StateAllocator.WF ⟨List.range count, []⟩ count := fun count =>
    ⟨fun _ hid => List.mem_range.1 hid, fun _ hid => (List.not_mem_nil hid).elim,
      fun _ _ => List.not_mem_nil⟩
  constructor
  case sound => exact hfg ▸ hsound
  case nodes => exact hfg ▸ hnodes
  case placed =>
    intro t ht
    have ht' : t ∈ searcher.held := by
      obtain ⟨hinternal, hpostponed⟩ := searcher.setLevel_held 0
      simpa [inUse, AnySearcher.held, hinternal, hpostponed] using ht
    have hnodup : ([s₀].map State.uid).Nodup := List.nodup_singleton _
    rcases AnySearcher.push_mem hnodup htraps hpush t ht' with hold | ⟨s, hs, hsame⟩
    · have hheld : option.searcher.held = [] := by cases option <;> rfl
      rw [hheld] at hold
      cases hold
    · rw [List.mem_singleton.1 hs] at hsame
      exact hplaced.of_unlooped hsame
  case wf => exact hcounter _
  case retains => exact (hempty.push htraps' hpush).1.setLevel 0
  case goldBasic => exact ⟨_, rfl⟩
  case goldWF => exact hcounter _
  case gold =>
    refine .of_new .prioritizedFILO ?_ (by simp) (by simp) List.nodup_nil
    rintro id (hid | hid)
    · exact absurd hid (hpkg.refersToGold id)
    · obtain ⟨g, hg, rfl⟩ := Option.map_eq_some_iff.1 hid
      have hg : startup = some g := hg
      rw [hg]
      exact List.mem_range.2 (hgold g hg)

/-- What holds at the start holds wherever the loop gets to. -/
theorem reachable_inv {M₀ : Main} (hloaded : Loaded o.test.mem) (h : M₀.Inv o)
    (hreach : Relation.ReflTransGen Steps M₀ M) : M.Inv o := by
  induction hreach with
  | refl => exact h
  | tail _ hstep ih =>
      obtain ⟨rand, hnext⟩ := hstep
      exact ih.next hloaded hnext

/-- Nothing that the allocator still has to keep was released. -/
structure Keeps (a : StateAllocator) (id : Nat) : Prop where
  alive : id ∈ a.aliveStates
  notReleased : id ∉ a.released

/-- What the report is generated from. -/
def Reports (M : Main) (pkg : IssuePackage) : Prop :=
  pkg = M.session.pkg ∨ ∃ c, M.session.fa.checkDuplicateColors M.session.pkg = .ok c ∧ pkg = c.pkg

/-- Along every run of the main loop, whatever the issue package of the report refers to and
whatever a searcher holds is alive and has not been released. -/
theorem reported_alive {M₀ : Main} {pkg : IssuePackage} (hloaded : Loaded o.test.mem)
    (hpkg : o.issuePackage.Global)
    (hgold : ∀ g, startup = some g → ∃ fuel p, o.warmUp solver fuel p = .ok (some g))
    (hstart : start solver o option loopEdges startup = .ok M₀)
    (hreach : Relation.ReflTransGen Steps M₀ M) (hreport : M.Reports pkg) :
    (∀ id, pkg.RefersTo id → Keeps M.allocator id) ∧
    (∀ id, pkg.RefersToGold id → Keeps M.goldAllocator id) ∧
    (∀ s ∈ M.searcher.held ++ M.searcher.getCompletedStates, Keeps M.allocator s.uid) ∧
    (∀ s ∈ M.goldSearcher.held ++ M.goldSearcher.getCompletedStates,
      Keeps M.goldAllocator s.uid) := by
  have hinv : M.Inv o := by
    refine reachable_inv hloaded (start_inv hloaded hpkg (fun g hg => ?_) hstart) hreach
    obtain ⟨fuel, p, hwarm⟩ := hgold g hg
    exact Options.warmUp_allocated hwarm
  have hkeeps : ∀ {id}, id ∈ M.allocator.aliveStates → Keeps M.allocator id := fun hid =>
    ⟨hid, hinv.wf.disjoint _ hid⟩
  have hkeepsGold : ∀ {id}, id ∈ M.goldAllocator.aliveStates → Keeps M.goldAllocator id :=
    fun hid => ⟨hid, hinv.goldWF.disjoint _ hid⟩
  have hsame : (∀ id, pkg.RefersTo id → M.session.pkg.RefersTo id) ∧
      ∀ id, pkg.RefersToGold id → M.session.pkg.RefersToGold id := by
    rcases hreport with rfl | ⟨c, hcheck, rfl⟩
    · exact ⟨fun _ hid => hid, fun _ hid => hid⟩
    · exact FlowAnalysis.checkDuplicateColors_refers hcheck
  refine ⟨fun id hid => hkeeps (hinv.retains.referred id (hsame.1 id hid)),
    fun id hid => hkeepsGold (hinv.gold.referred id (.inl (hsame.2 id hid))),
    fun s hs => hkeeps (hinv.retains.alive s ?_), fun s hs => hkeepsGold (hinv.gold.alive s ?_)⟩
  · simp only [List.mem_append] at hs ⊢
    tauto
  · simp only [List.mem_append] at hs ⊢
    tauto

end Runs

end Main

/-- A loop inside a loop, both of which are left in their first round. -/
def Program.nested : Program where
  mem :=
    [(0x3000, .inst ⟨0x3000, 0x2005, ⟨.LD, .RL, 0xF000, 0x2000⟩, by decide, false, [],
        "nested.asm", 1, "LD R0, NUMBER"⟩),
     (0x3001, .inst ⟨0x3001, 0x1021, ⟨.ADDi, .RRI, 0xF020, 0x1020⟩, matchInst_increment, false,
        ["OUTER"], "nested.asm", 2, "ADD R0, R0, #1"⟩),
     (0x3002, .inst ⟨0x3002, 0x1021, ⟨.ADDi, .RRI, 0xF020, 0x1020⟩, matchInst_increment, false,
        ["INNER"], "nested.asm", 3, "ADD R0, R0, #1"⟩),
     (0x3003, .inst ⟨0x3003, 0x09FE, ⟨.BR, .CL, 0xF000, 0x0000⟩, by decide, false, [],
        "nested.asm", 4, "BRn INNER"⟩),
     (0x3004, .inst ⟨0x3004, 0x09FC, ⟨.BR, .CL, 0xF000, 0x0000⟩, by decide, false, [],
        "nested.asm", 5, "BRn OUTER"⟩),
     (0x3005, .inst ⟨0x3005, 0xF025, ⟨.TRAP, .V, 0xFF00, 0xF000⟩, matchInst_halt, false, [],
        "nested.asm", 6, "INSTANT_HALT"⟩),
     (0x3006, .data ⟨some (.const 0), false, false⟩)]
  constraints := []
  initPC := 0x3000
  preferences := []

/-- A program that only halts. -/
def Program.halting : Program where
  mem :=
    [(0x3000, .inst ⟨0x3000, 0xF025, ⟨.TRAP, .V, 0xFF00, 0xF000⟩, matchInst_halt, false, [],
        "halting.asm", 1, "INSTANT_HALT"⟩)]
  constraints := []
  initPC := 0x3000
  preferences := []

/-- Both programs have to halt at the same instruction. -/
def Options.nested : Options :=
  { Options.sample with
    test := .nested
    gold := some .halting
    issuePackage := (IssuePackage.empty.registerIssue "WRONG_END" .warning).1
    checkLists := CrossChecker.registerThingToCompare (.userDefined 0) (.lastInst false) [] }

/-- The loops of `Program.nested` as `LoopAnalyzer` finds them, the outer one first. -/
def SearcherOption.nested : SearcherOption :=
  .pruning
    [⟨0x3001, [0x3001, 0x3002, 0x3003, 0x3004], [1], [[1, 9, 6]], [12], [[1, 9, 5]], [11], [5, 6]⟩,
     ⟨0x3002, [0x3002, 0x3003], [], [[2, 4]], [10], [[2, 3]], [9], [3, 4]⟩]
    [0] false

/-- The edges that it adds for them, from index 9 on. -/
def nestedEdges : List LoopEdge :=
  [⟨true, 0x3002, some 0x3004⟩, ⟨false, 0x3002, some 0x3002⟩, ⟨true, 0x3001, some 0x3005⟩,
   ⟨false, 0x3001, some 0x3001⟩]

/-- That many pieces of the loop. -/
def Main.nextTimes : Nat → Main → Except Abort Main
  | 0, M => pure M
  | n + 1, M => do
    match ← M.next 0 with
    | some M => nextTimes n M
    | none => throw .outOfFuel

theorem Main.nextTimes_reaches {n : Nat} {M M' : Main} (h : M.nextTimes n = .ok M') :
    Relation.ReflTransGen Main.Steps M M' := by
  induction n generalizing M with
  | zero =>
      cases h
      exact .refl
  | succ n ih =>
      obtain ⟨next, hnext, h⟩ := Except.bind_eq_ok_iff.1 h
      cases next with
      | none => cases h
      | some M₁ => exact .head ⟨0, hnext⟩ (ih h)

/-- When the inner loop is left, the path through the outer one goes on along the edge out of
it. Both programs halt, are compared, and are not released since the issue needs both. -/
theorem nested_run : ∃ g M₀ M₁ M₂,
    Options.nested.warmUp Solver.ideal 2 .halting = .ok (some g) ∧
    Main.start Solver.ideal .nested .nested nestedEdges (some g) = .ok M₀ ∧
    M₀.nextTimes 12 = .ok M₁ ∧ M₁.nextTimes 6 = .ok M₂ ∧
    (∃ s, M₁.searcher.held = [s] ∧ s.loopStack = [⟨0, [1, 9], 0x3000⟩]) ∧
    M₂.session.pkg.RefersTo 0 ∧ M₂.session.pkg.RefersToGold 0 := by
  refine ⟨_, _, _, _, rfl, rfl, rfl, rfl, ⟨_, rfl, rfl⟩, ?_, ?_⟩
  · exact ⟨⟨.userDefined 0, none⟩, _, rfl, rfl⟩
  · exact ⟨⟨.userDefined 0, none⟩, _, _, rfl, rfl, rfl⟩

theorem nested_loaded : Loaded Options.nested.test.mem := by
  refine ⟨by decide, fun addr i hi => ?_⟩
  simp [Options.nested, Program.nested] at hi
  rcases hi with ⟨rfl, rfl⟩ | ⟨rfl, rfl⟩ | ⟨rfl, rfl⟩ | ⟨rfl, rfl⟩ | ⟨rfl, rfl⟩ | ⟨rfl, rfl⟩ <;> rfl

/-- In the run of `Program.nested` with the pruning searcher the state inside the outer loop is
alive, and so are, at the end, the two states that the issue refers to. -/
theorem nested_reported : ∃ g M₀ M₁ M₂ s,
    Options.nested.warmUp Solver.ideal 2 .halting = .ok (some g) ∧
    Main.start Solver.ideal .nested .nested nestedEdges (some g) = .ok M₀ ∧
    Relation.ReflTransGen Main.Steps M₀ M₁ ∧ Relation.ReflTransGen Main.Steps M₁ M₂ ∧
    M₁.searcher.held = [s] ∧ s.loopStack = [⟨0, [1, 9], 0x3000⟩] ∧
    Main.Keeps M₁.allocator s.uid ∧
    M₂.session.pkg.RefersTo 0 ∧ Main.Keeps M₂.allocator 0 ∧
    M₂.session.pkg.RefersToGold 0 ∧ Main.Keeps M₂.goldAllocator 0 := by
  obtain ⟨g, M₀, M₁, M₂, hwarm, hstart, hfirst, hsecond, ⟨s, hheld, hstack⟩, hrefers, hgold⟩ :=
    nested_run
  have hreach₁ := Main.nextTimes_reaches hfirst
  have hreach₂ := Main.nextTimes_reaches hsecond
  have hpkg : Options.nested.issuePackage.Global := by
    intro issue info hfind
    cases hfind
  have hgolds : ∀ g', some g = some g' → ∃ fuel p,
      Options.nested.warmUp Solver.ideal fuel p = .ok (some g') := by
    rintro g' hg
    cases hg
    exact ⟨2, .halting, hwarm⟩
  obtain ⟨-, -, hkeeps, -⟩ := Main.reported_alive nested_loaded hpkg hgolds hstart hreach₁ (.inl rfl)
  obtain ⟨halive, haliveGold, -, -⟩ := Main.reported_alive nested_loaded hpkg hgolds hstart
    (hreach₁.trans hreach₂) (.inl rfl)
  refine ⟨g, M₀, M₁, M₂, s, hwarm, hstart, hreach₁, hreach₂, hheld, hstack, hkeeps s ?_, hrefers,
    halive 0 hrefers, hgold, haliveGold 0 hgold⟩
  rw [hheld]
  exact List.mem_append_left _ (List.mem_singleton.2 rfl)

end Klc3
