import Klc3.Verification.MainLoop.Control

/-!
# The flow graph follows the execution

Along a run, whenever two user instructions are executed one after the other, the flow
graph has an edge between them, as long as control leaves user code only through traps
that come back to the next instruction.
-/

namespace Klc3

open FlowGraph (Grows)

/-- Before anything is stored, instructions are read from the loaded memory. -/
theorem MemoryManager.read_inst_base {baseMem : Word → Option MemValue} {addr : Word} {i : InstValue}
    (h : MemoryManager.read ⟨baseMem, fun _ => none⟩ addr = some (.inst i)) :
    baseMem addr = some (.inst i) := by
  unfold MemoryManager.read at h
  split at h
  · cases h
  split at h
  · cases h
  split at h
  · cases h
  split at h
  · cases h
  · exact h

/-! ## Recording one state -/

/-- What the graph has to know about a state before it is recorded. -/
structure State.Expected (fg : FlowGraph) (t : State) : Prop where
  first : ∀ i, t.latestNonOSInst = (some i, none) → t.latestInst.1 = some i →
    (fg.getNodeByAddr fg.initPC).isSome
  matched : ∀ i prev, t.latestNonOSInst = (some i, some prev) → t.latestInst.1 = some i →
    fg.HasEdge (some prev.addr) (some i.addr)
  next : ∀ i, t.latestNonOSInst.1 = some i → t.latestInst.1 = some i →
    (fg.getNodeByAddr t.pc).isSome →
    fg.HasEdge (some i.addr) (some t.pc) ∨ i.instID = .JMP ∨ i.instID = .JSRR

theorem State.Expected.grows {fg fg' : FlowGraph} {t : State} (h : t.Expected fg)
    (hgrows : fg.Grows fg') : t.Expected fg' where
  first i hi hlast := by
    rw [hgrows.getNodeByAddr, hgrows.initPC]
    exact h.first i hi hlast
  matched i prev hi hlast := hgrows.hasEdge _ _ (h.matched i prev hi hlast)
  next i hi hlast hpc := by
    rw [hgrows.getNodeByAddr] at hpc
    exact (h.next i hi hlast hpc).imp_left (hgrows.hasEdge _ _)

/-- The graph leads from the user instruction that was just executed to the PC. -/
def State.EdgeToPC (fg : FlowGraph) (s : State) : Prop :=
  ∀ i, s.latestInst.1 = some i → s.latestNonOSInst.1 = some i → (fg.getNodeByAddr s.pc).isSome →
    fg.HasEdge (some i.addr) (some s.pc)

theorem State.EdgeToPC.grows {fg fg' : FlowGraph} {s : State} (h : s.EdgeToPC fg)
    (hgrows : fg.Grows fg') : s.EdgeToPC fg' := by
  intro i hlast hi hpc
  rw [hgrows.getNodeByAddr] at hpc
  exact hgrows.hasEdge _ _ (h i hlast hi hpc)

namespace CoverageTracker

variable {fg fg' : FlowGraph} {t t' : State} {err : Abort}

theorem getJustCoveredEdge_error (hexp : t.status = .normal → t.Expected fg)
    (h : fg.getJustCoveredEdge t = .error err) : err.isMissingEdge = false := by
  unfold FlowGraph.getJustCoveredEdge at h
  split at h
  · cases h
  · split at h
    · cases h
      rfl
    · cases h
  · rename_i hnormal
    split at h
    · cases h
    · rename_i inst hinst
      split at h
      · cases h
      · rename_i hlast
        split at h
        · cases h
        · rename_i prev hprev
          split at h
          · cases h
          · rename_i hfind
            have hedge := (hexp hnormal).matched inst prev (Prod.ext hinst hprev)
              ((not_not.1 hlast).symm.trans hinst)
            have hsome := FlowGraph.find_runtimeOutEdges_iff.2 hedge
            rw [hfind] at hsome
            cases hsome

/-- A state that goes on is only recorded after a user instruction. -/
theorem latest_of_covered {k : Nat} (hnormal : t.status = .normal)
    (h : fg.getJustCoveredEdge t = .ok (some k)) :
    ∃ i, t.latestNonOSInst.1 = some i ∧ t.latestInst.1 = some i := by
  unfold FlowGraph.getJustCoveredEdge at h
  rw [hnormal] at h
  dsimp only at h
  split at h
  · cases h
  · rename_i inst hinst
    split at h
    · cases h
    · rename_i hlast
      exact ⟨inst, hinst, (not_not.1 hlast).symm.trans hinst⟩

theorem updateGraphAndCoverage_error (hexp : t.status = .normal → t.Expected fg)
    (h : updateGraphAndCoverage fg t = .error err) : err.isMissingEdge = false := by
  unfold updateGraphAndCoverage at h
  split at h
  · cases h
  rename_i hbroken
  rcases Except.bind_eq_error_iff.1 h with hjust | ⟨coveredEdge, hjust, h⟩
  · exact getJustCoveredEdge_error hexp hjust
  split at h
  · cases h
  rcases Except.bind_eq_error_iff.1 h with happend | ⟨⟨fg₁, t₁⟩, happend, h⟩
  · exact appendEdgeCoverage_error happend
  obtain ⟨e, hget, rfl⟩ := appendEdgeCoverage_fg happend
  obtain ⟨covered, path, rfl⟩ := appendEdgeCoverage_eq_ok happend
  dsimp only at h
  split at h
  · split at h
    · cases h
    · exact appendEdgeCoverage_error h
  · rename_i hhalted
    rcases Except.bind_eq_error_iff.1 h with hprepare | ⟨fg₂, -, h⟩
    · by_contra hmissing
      obtain ⟨i, hi, hpc, hno, hjmp, hjsrr⟩ :=
        prepareEdgeToPCNode_error hprepare (by simpa using hmissing)
      have hnormal : t.status = .normal := by
        cases hs : t.status with
        | normal => rfl
        | halted => exact absurd hs hhalted
        | broken => exact absurd hs hbroken
      obtain ⟨j, hj, hlast⟩ := latest_of_covered hnormal hjust
      have hij : i = j := Option.some.inj (hi.symm.trans hj)
      rcases (hexp hnormal).next i hi (hij ▸ hlast) hpc with hedge | hid | hid
      · exact hno ((FlowGraph.cover_hasEdge_iff hget).2 hedge)
      · exact hjmp hid
      · exact hjsrr hid
    · cases h

/-- A state that goes on after a user instruction is recorded. -/
theorem covered_of_user {i : InstValue} (hsound : fg.Sound) (hnormal : t.status = .normal)
    (hi : t.latestNonOSInst.1 = some i) (hlast : t.latestInst.1 = some i)
    (hfirst : t.latestNonOSInst.2 = none → (fg.getNodeByAddr fg.initPC).isSome) :
    fg.getJustCoveredEdge t ≠ .ok none := by
  intro hjust
  unfold FlowGraph.getJustCoveredEdge at hjust
  rw [hnormal, hi, hlast] at hjust
  dsimp only at hjust
  rw [if_neg (by simp)] at hjust
  split at hjust
  · rename_i hprev
    obtain ⟨k, e, hinit, -⟩ := hsound.init (hfirst hprev)
    rw [hinit] at hjust
    cases hjust
  · split at hjust <;> cases hjust

/-- A state that is recorded has an edge to its PC afterwards. -/
theorem Updates.edgeToPC (hsound : fg.Sound)
    (hfirst : ∀ i, t.latestNonOSInst = (some i, none) → t.latestInst.1 = some i →
      (fg.getNodeByAddr fg.initPC).isSome)
    (hnormal : t.status = .normal) (h : Updates fg t fg') : t.EdgeToPC fg' := by
  intro i hlast hi hpc
  cases h with
  | broken hstatus =>
      rw [hnormal] at hstatus
      cases hstatus
  | halts hstatus =>
      rw [hnormal] at hstatus
      cases hstatus
  | haltsInstantly hstatus =>
      rw [hnormal] at hstatus
      cases hstatus
  | goesOn _ hjust hget hprepare =>
      obtain ⟨hextends, hedge⟩ := prepareEdgeToPCNode_spec hprepare
      rw [hextends.getNodeByAddr] at hpc
      exact hedge i hi hpc
  | nothing _ hjust =>
      exact absurd hjust (covered_of_user hsound hnormal hi hlast fun hprev =>
        hfirst i (Prod.ext hi hprev) hlast)

end CoverageTracker

/-! ## One iteration -/

namespace Session

variable {S S' : Session} {fa fa' : FlowAnalysis} {pkg pkg' : IssuePackage} {s : State}
variable {states states' : List State} {fuel : Nat} {err : Abort}

theorem updateCoverage_grows (h : updateCoverage fa states = .ok (fa', states')) :
    fa.fg.Grows fa'.fg := by
  induction states generalizing fa states' with
  | nil =>
      cases h
      exact .refl _
  | cons t rest ih =>
      obtain ⟨⟨fg, t'⟩, hupdate, h⟩ := Except.bind_eq_ok_iff.1 h
      obtain ⟨⟨fa₁, rest'⟩, hrest, h⟩ := Except.bind_eq_ok_iff.1 h
      cases h
      exact (CoverageTracker.updateGraphAndCoverage_updates hupdate).grows.trans (ih hrest)

theorem updateCoverage_error (hexp : ∀ t ∈ states, t.status = .normal → t.Expected fa.fg)
    (h : updateCoverage fa states = .error err) : err.isMissingEdge = false := by
  induction states generalizing fa with
  | nil => cases h
  | cons t rest ih =>
      rcases Except.bind_eq_error_iff.1 h with hupdate | ⟨⟨fg, t'⟩, hupdate, h⟩
      · exact CoverageTracker.updateGraphAndCoverage_error (hexp t List.mem_cons_self) hupdate
      rcases Except.bind_eq_error_iff.1 h with hrest | ⟨_, -, h⟩
      · have hgrows := (CoverageTracker.updateGraphAndCoverage_updates hupdate).grows
        exact ih (fun u hu hnormal => (hexp u (List.mem_cons_of_mem t hu) hnormal).grows hgrows) hrest
      · cases h

theorem updateCoverage_edgeToPC (hsound : fa.fg.Sound)
    (hfirst : ∀ t ∈ states, t.status = .normal → ∀ i, t.latestNonOSInst = (some i, none) →
      t.latestInst.1 = some i → (fa.fg.getNodeByAddr fa.fg.initPC).isSome)
    (h : updateCoverage fa states = .ok (fa', states')) :
    ∀ t ∈ states, t.status = .normal → t.EdgeToPC fa'.fg := by
  induction states generalizing fa states' with
  | nil => simp
  | cons t rest ih =>
      obtain ⟨⟨fg, t'⟩, hupdate, h⟩ := Except.bind_eq_ok_iff.1 h
      obtain ⟨⟨fa₁, rest'⟩, hrest, h⟩ := Except.bind_eq_ok_iff.1 h
      cases h
      have hupdates := CoverageTracker.updateGraphAndCoverage_updates hupdate
      intro u hu hnormal
      rcases List.mem_cons.1 hu with rfl | hu
      · exact (hupdates.edgeToPC hsound (hfirst u List.mem_cons_self hnormal) hnormal).grows
          (updateCoverage_grows hrest)
      · refine ih (hupdates.grows.sound hsound) (fun v hv hvnormal i hi hlast => ?_) hrest u hu hnormal
        change (fg.getNodeByAddr fg.initPC).isSome
        rw [hupdates.grows.getNodeByAddr, hupdates.grows.initPC]
        exact hfirst v (List.mem_cons_of_mem t hv) hvnormal i hi hlast

theorem updateAllColors_extends (h : updateAllColors fa pkg states = .ok (fa', pkg', states')) :
    fa.fg.Extends fa'.fg := by
  induction states generalizing fa pkg states' with
  | nil =>
      cases h
      exact .refl _
  | cons t rest ih =>
      obtain ⟨⟨fa₁, m⟩, hupdate, h⟩ := Except.bind_eq_ok_iff.1 h
      obtain ⟨⟨fa₂, pkg₁, rest'⟩, hrest, h⟩ := Except.bind_eq_ok_iff.1 h
      cases h
      exact (SubroutineTracker.updateColors_extends hupdate).trans (ih hrest)

/-- An iteration, as far as the flow graph is concerned. -/
theorem advance_graph (h : S.advance fuel s = .ok (some (S', states'))) :
    s.status = .normal ∧ ∃ r fa₁ states₁, S.ex.step ⟨s, S.pkg⟩ = .ok r ∧
      updateCoverage S.fa r.states = .ok (fa₁, states₁) ∧ fa₁.fg.Extends S'.fa.fg ∧
      Follows r.pkg S'.pkg r.states states' := by
  obtain ⟨hnormal, r, fa₁, states₁, fa₂, pkg₂, states₂, hstep, hcoverage, hcolors, hcheck⟩ :=
    advance_eq_ok h
  obtain ⟨hfollows, -, hfa, -⟩ := checkResults_follows hcheck
  refine ⟨hnormal, r, fa₁, states₁, hstep, hcoverage, ?_,
    (updateCoverage_follows hcoverage).trans ((updateAllColors_follows hcolors).trans hfollows)⟩
  rw [hfa]
  exact updateAllColors_extends hcolors

end Session

/-! ## States and the graph -/

namespace State

variable {fg fg' : FlowGraph} {mem : List (Word × MemValue)} {s s' t : State}

/-- How a state that goes on lies on the graph of the program that was loaded. -/
structure Fits (fg : FlowGraph) (mem : List (Word × MemValue)) (s : State) : Prop where
  insts : ∀ addr i, s.mem.read addr = some (.inst i) → mem.lookup addr = some (.inst i)
  latest : ∀ i, s.latestNonOSInst.1 = some i → fg.getNodeByAddr i.addr = some i
  edge : s.EdgeToPC fg
  first : s.latestInst.1 = none → s.latestNonOSInst.1 = none ∧ s.pc = fg.initPC

theorem Fits.grows (h : s.Fits fg mem) (hgrows : fg.Grows fg') : s.Fits fg' mem where
  insts := h.insts
  latest i hi := by
    rw [hgrows.getNodeByAddr]
    exact h.latest i hi
  edge := h.edge.grows hgrows
  first hnone := by
    rw [hgrows.initPC]
    exact h.first hnone

theorem Fits.of_core (h : s.Fits fg mem) (hcore : s'.core = s.core) : s'.Fits fg mem := by
  have hmem : s'.mem = s.mem := core_mem hcore
  have hpc : s'.pc = s.pc := core_congr State.pc hcore fun _ => rfl
  have hlast : s'.latestInst = s.latestInst := core_congr State.latestInst hcore fun _ => rfl
  have huser : s'.latestNonOSInst = s.latestNonOSInst :=
    core_congr State.latestNonOSInst hcore fun _ => rfl
  constructor
  · rw [hmem]
    exact h.insts
  · rw [huser]
    exact h.latest
  · unfold EdgeToPC
    rw [hlast, huser, hpc]
    exact h.edge
  · rw [hlast, huser, hpc]
    exact h.first

/-- Control comes back from OS code only to where the last user instruction leads by itself,
or is already known to lead when it is a jump through a register. -/
def ComesBack (fg : FlowGraph) (s : State) : Prop :=
  ∀ j, s.mem.read s.pc = some (.inst j) → j.belongsToOS = false →
    s.latestInst.1 ≠ s.latestNonOSInst.1 → ∃ i, s.latestNonOSInst.1 = some i ∧
      (some s.pc ∈ i.successors ∨
        ((i.instID = .JMP ∨ i.instID = .JSRR) ∧ fg.HasEdge (some i.addr) (some s.pc)))

/-- Control comes back from OS code as the graph expects, and no trap vector leads to a user
instruction other than the next one. -/
structure StaysOnGraph (fg : FlowGraph) (s : State) : Prop where
  comesBack : s.ComesBack fg
  traps : ∀ j, s.mem.read s.pc = some (.inst j) → j.belongsToOS = false → j.instID = .TRAP →
    j.sourceContent ≠ "INSTANT_HALT" → ∀ a, s.constraints.Sat a →
      fg.getNodeByAddr ((s.lc3 a).mem j.vec8) = none ∨ some ((s.lc3 a).mem j.vec8) ∈ j.successors

theorem Fits.node {addr : Word} {j : InstValue} (hmem : Loaded mem)
    (hnodes : fg.nodes = FlowGraph.userInsts mem) (h : s.Fits fg mem)
    (hread : s.mem.read addr = some (.inst j)) (huser : j.belongsToOS = false) :
    fg.getNodeByAddr addr = some j := by
  rw [FlowGraph.getNodeByAddr, hnodes, FlowGraph.lookup_userInsts_iff hmem.keys]
  exact ⟨h.insts addr j hread, huser⟩

/-- The graph leads to the user instruction that is executed next. -/
theorem Fits.enters {i j : InstValue} (hsound : fg.Sound) (hmem : Loaded mem)
    (hnodes : fg.nodes = FlowGraph.userInsts mem) (h : s.Fits fg mem) (hback : s.ComesBack fg)
    (hread : s.mem.read s.pc = some (.inst j)) (huser : j.belongsToOS = false)
    (hi : s.latestNonOSInst.1 = some i) : fg.HasEdge (some i.addr) (some j.addr) := by
  have hnode := h.node hmem hnodes hread huser
  have hpc : (fg.getNodeByAddr s.pc).isSome := by
    rw [hnode]
    rfl
  rw [hsound.placed s.pc j hnode]
  by_cases hlast : s.latestInst.1 = s.latestNonOSInst.1
  · exact h.edge i (hlast.trans hi) hi hpc
  · obtain ⟨i', hi', hsucc | ⟨-, hedge⟩⟩ := hback j hread huser hlast
    · obtain rfl : i = i' := Option.some.inj (hi.symm.trans hi')
      refine hsound.static i.addr i (h.latest i hi) (some s.pc) hsucc fun addr haddr => ?_
      cases haddr
      exact hpc
    · obtain rfl : i = i' := Option.some.inj (hi.symm.trans hi')
      exact hedge

theorem Fits.starts {j : InstValue} (h : s.Fits fg mem) (hback : s.ComesBack fg)
    (hread : s.mem.read s.pc = some (.inst j)) (huser : j.belongsToOS = false)
    (hnone : s.latestNonOSInst.1 = none) : s.pc = fg.initPC := by
  cases hlast : s.latestInst.1 with
  | none => exact (h.first hlast).2
  | some i =>
      obtain ⟨i', hi', -⟩ := hback j hread huser (by simp [hlast, hnone])
      rw [hnone] at hi'
      cases hi'

end State

/-! ## One step -/

namespace Executor

variable {fg fg' : FlowGraph} {mem : List (Word × MemValue)} {ex : Executor} {m : Mach}
variable {r : StepResult} {t : State} (hmem : Loaded mem)
  (hnodes : fg.nodes = FlowGraph.userInsts mem) (hwf : ex.WF) (howns : ex.Owns m.s.constraints)
  (hnormal : m.s.status = .normal) (hfits : m.s.Fits fg mem)
include hmem hnodes hwf howns hnormal hfits

/-- After a step, the last user instruction is on the graph, and it is either the one that
was just executed or the one before it. -/
theorem step_fits (hsound : fg.Sound) (hgrows : fg.Grows fg') (h : ex.step m = .ok r) (ht : t ∈ r.states)
    (htnormal : t.status = .normal) (hedge : t.EdgeToPC fg') : t.Fits fg' mem := by
  obtain ⟨ir, hread, hlast, hlastUser⟩ := step_latest hwf howns hnormal h ht (by simp [htnormal])
  have hspec := step_spec Mach.closed_any hwf howns (Mach.all_any _) h
  obtain ⟨a, ha⟩ := hspec.splits.inhabited _ (List.mem_map_of_mem ht)
  obtain ⟨hinsts, -⟩ := step_control hwf howns hnormal h ht htnormal ha hread
  refine ⟨fun addr i hi => hfits.insts addr i (hinsts addr i hi), fun i hi => ?_, hedge, ?_⟩
  · rw [hgrows.getNodeByAddr]
    rw [hlastUser] at hi
    split at hi
    · exact hfits.latest i hi
    · rename_i hos
      cases hi
      have hnode := hfits.node hmem hnodes hread (by simpa using hos)
      rwa [hsound.placed _ _ hnode]
  · simp [hlast]

/-- Only a user instruction is the last one in both records. -/
theorem step_user {i : InstValue} (h : ex.step m = .ok r) (ht : t ∈ r.states)
    (hbroken : t.status ≠ .broken) (hi : t.latestNonOSInst.1 = some i)
    (hlast : t.latestInst.1 = some i) :
    m.s.mem.read m.s.pc = some (.inst i) ∧ i.belongsToOS = false ∧
      fg.getNodeByAddr m.s.pc = some i ∧ t.latestNonOSInst.2 = m.s.latestNonOSInst.1 := by
  obtain ⟨ir, hread, hlast', hlastUser⟩ := step_latest hwf howns hnormal h ht hbroken
  rw [hlast'] at hlast
  cases hlast
  cases hos : i.belongsToOS with
  | false =>
      rw [hlastUser, hos]
      exact ⟨hread, rfl, hfits.node hmem hnodes hread hos, rfl⟩
  | true =>
      rw [hlastUser, hos] at hi
      have hnode := hfits.latest i hi
      rw [FlowGraph.getNodeByAddr, hnodes, FlowGraph.lookup_userInsts_iff hmem.keys, hos] at hnode
      cases hnode.2

theorem step_first {i : InstValue} (hback : m.s.ComesBack fg) (h : ex.step m = .ok r)
    (ht : t ∈ r.states) (hbroken : t.status ≠ .broken) (hi : t.latestNonOSInst = (some i, none))
    (hlast : t.latestInst.1 = some i) :
    fg.getNodeByAddr fg.initPC = some i := by
  obtain ⟨hread, huser, hnode, hprev⟩ :=
    step_user hmem hnodes hwf howns hnormal hfits h ht hbroken (by rw [hi]) hlast
  rw [hi] at hprev
  rw [← hfits.starts hback hread huser hprev.symm, hnode]

theorem step_expected (hsound : fg.Sound) (hstays : m.s.StaysOnGraph fg) (h : ex.step m = .ok r)
    (ht : t ∈ r.states) (htnormal : t.status = .normal) : t.Expected fg := by
  have hbroken : t.status ≠ .broken := by simp [htnormal]
  have hspec := step_spec Mach.closed_any hwf howns (Mach.all_any _) h
  obtain ⟨a, ha⟩ := hspec.splits.inhabited _ (List.mem_map_of_mem ht)
  have hsat : m.s.constraints.Sat a := (hspec.splits.covers a).2 ⟨_, List.mem_map_of_mem ht, ha⟩
  constructor
  · intro i hi hlast
    rw [step_first hmem hnodes hwf howns hnormal hfits hstays.comesBack h ht hbroken hi hlast]
    rfl
  · intro i prev hi hlast
    obtain ⟨hread, huser, -, hprev⟩ :=
      step_user hmem hnodes hwf howns hnormal hfits h ht hbroken (by rw [hi]) hlast
    rw [hi] at hprev
    exact hfits.enters hsound hmem hnodes hstays.comesBack hread huser hprev.symm
  · intro i hi hlast hnext
    obtain ⟨hread, huser, hnode, -⟩ :=
      step_user hmem hnodes hwf howns hnormal hfits h ht hbroken hi hlast
    obtain ⟨-, hpc⟩ := step_control hwf howns hnormal h ht htnormal ha hread
    have hstatic : some t.pc ∈ i.successors → fg.HasEdge (some i.addr) (some t.pc) := by
      intro hsucc
      refine hsound.static m.s.pc i hnode (some t.pc) hsucc fun addr haddr => ?_
      cases haddr
      exact hnext
    rcases hpc (hsound.placed _ _ hnode) with hsucc | hid | hid | ⟨hid, hsource, htarget⟩
    · exact .inl (hstatic hsucc)
    · exact .inr (.inl hid)
    · exact .inr (.inr hid)
    · rcases hstays.traps i hread huser hid hsource a hsat with hnone | hsucc
      · rw [htarget, hnone] at hnext
        cases hnext
      · exact .inl (hstatic (htarget ▸ hsucc))

end Executor

/-! ## Runs -/

namespace Exploration

variable {fuel : Nat} {solver : Solver} {o : Options} {gold : Option Gold} {E₀ E E' : Exploration}

/-- One iteration at a state for which `C` holds. -/
def NextWhen (C : Exploration → State → Prop) (fuel : Nat) (E E' : Exploration) : Prop :=
  ∃ before s after states, NextAt fuel E before s after states E' ∧ C E s

/-- Any number of iterations, all at states for which `C` holds. -/
def ReachesWhen (C : Exploration → State → Prop) (fuel : Nat) : Exploration → Exploration → Prop :=
  Relation.ReflTransGen (NextWhen C fuel)

theorem ReachesWhen.reaches {C : Exploration → State → Prop} (h : ReachesWhen C fuel E E') :
    Reaches fuel E E' := by
  induction h with
  | refl => exact .refl
  | tail _ hnext ih =>
      obtain ⟨before, s, after, states, hnext, -⟩ := hnext
      exact ih.tail ⟨before, s, after, states, hnext⟩

/-- The flow graph and the states that go on it. -/
structure OnGraph (o : Options) (E : Exploration) : Prop where
  sound : E.session.fa.fg.Sound
  nodes : E.session.fa.fg.nodes = FlowGraph.userInsts o.test.mem
  fits : ∀ s ∈ E.frontier, s.status = .normal → s.Fits E.session.fa.fg o.test.mem

/-- `StaysOnGraph` for the graph of an exploration. -/
def StaysOnGraph (E : Exploration) (s : State) : Prop :=
  s.StaysOnGraph E.session.fa.fg

theorem OnGraph.expected {s t : State} {r : StepResult} (h : E.OnGraph o) (hmem : Loaded o.test.mem)
    (hinv : E.Inv Mach.Any solver o) (hs : s ∈ E.frontier) (hnormal : s.status = .normal)
    (hstays : E.StaysOnGraph s) (hstep : E.session.ex.step ⟨s, E.session.pkg⟩ = .ok r)
    (ht : t ∈ r.states) (htnormal : t.status = .normal) : t.Expected E.session.fa.fg :=
  Executor.step_expected (m := ⟨s, E.session.pkg⟩) hmem h.nodes hinv.wf (hinv.owns hs) hnormal
    (h.fits s hs hnormal) h.sound hstays hstep ht htnormal

theorem Starts.onGraph (exact : solver.Exact) (hmem : Loaded o.test.mem)
    (h : E.Starts solver o gold) : E.OnGraph o := by
  obtain ⟨fa, ex, s, hfa, hinit, -, -, -, hsession, -, -, -, -, hfrontier⟩ := h
  obtain ⟨hsound, hnodes, hinitPC, -⟩ := FlowAnalysis.new_spec hmem hfa
  obtain ⟨⟨cs, rfl⟩, -⟩ := Executor.createInitState_spec exact hinit
  have hfg : E.session.fa.fg = fa.fg := by
    rw [hsession]
    exact FlowAnalysis.setupInitState_fg _
  refine ⟨hfg ▸ hsound, hfg ▸ hnodes, ?_⟩
  intro u hu _
  rw [hfrontier, List.mem_singleton] at hu
  subst hu
  rw [hfg]
  refine ⟨fun addr i hi => ?_, fun i hi => ?_, fun i hi => ?_, fun _ => ⟨rfl, hinitPC.symm⟩⟩
  · exact MemoryManager.read_inst_base hi
  · cases hi
  · cases hi

/-- An iteration that does not abort leaves the states on the graph, if control comes back
from OS code as the graph expects. -/
theorem NextAt.onGraph {before after states : List State} {s : State} (hmem : Loaded o.test.mem)
    (hinv : E.Inv Mach.Any solver o) (h : E.OnGraph o) (hback : s.ComesBack E.session.fa.fg)
    (hnext : NextAt fuel E before s after states E') : E'.OnGraph o := by
  obtain ⟨hfrontier, hadvance, hfrontier'⟩ := hnext
  obtain ⟨hnormal, r, fa₁, states₁, hstep, hcoverage, hextends, hfollows⟩ :=
    Session.advance_graph hadvance
  have hs : s ∈ E.frontier := by simp [hfrontier]
  have hfits := h.fits s hs hnormal
  have hfirst : ∀ t ∈ r.states, t.status = .normal → ∀ i, t.latestNonOSInst = (some i, none) →
      t.latestInst.1 = some i →
      (E.session.fa.fg.getNodeByAddr E.session.fa.fg.initPC).isSome := by
    intro t ht htnormal i hi hlast
    rw [Executor.step_first (m := ⟨s, E.session.pkg⟩) hmem h.nodes hinv.wf (hinv.owns hs) hnormal
      hfits hback hstep ht (by simp [htnormal]) hi hlast]
    rfl
  have hgrows : E.session.fa.fg.Grows E'.session.fa.fg :=
    (Session.updateCoverage_grows hcoverage).trans hextends.grows
  refine ⟨hgrows.sound h.sound, hgrows.nodes.trans h.nodes, fun u hu hunormal => ?_⟩
  rw [hfrontier', List.mem_append] at hu
  rcases hu with hu | hu
  · refine (h.fits u ?_ hunormal).grows hgrows
    rw [hfrontier]
    simp only [List.mem_append, List.mem_cons] at hu ⊢
    tauto
  · obtain ⟨t, ht, hcore, -, hstatus, -⟩ := hfollows.each.exists_left hu
    have htnormal : t.status = .normal := by
      rcases hstatus with heq | hbroken
      · exact heq.symm.trans hunormal
      · rw [hunormal] at hbroken
        cases hbroken
    have hedge := (Session.updateCoverage_edgeToPC h.sound hfirst hcoverage t ht htnormal).grows
      hextends.grows
    exact (Executor.step_fits (m := ⟨s, E.session.pkg⟩) hmem h.nodes hinv.wf (hinv.owns hs)
      hnormal hfits h.sound hgrows hstep ht htnormal hedge).of_core hcore

theorem ReachesWhen.onGraph (exact : solver.Exact) (hmem : Loaded o.test.mem)
    (hstart : E₀.Starts solver o gold) (hreach : ReachesWhen StaysOnGraph fuel E₀ E) :
    E.OnGraph o := by
  have hinv : E₀.Inv Mach.Any solver o := hstart.inv Mach.closed_any exact fun _ _ _ _ _ => trivial
  induction hreach with
  | refl => exact hstart.onGraph exact hmem
  | tail hreach hnext ih =>
      obtain ⟨before, s, after, states, hnext, hstays⟩ := hnext
      exact hnext.onGraph hmem ((ReachesWhen.reaches hreach).inv Mach.closed_any hinv) ih
        hstays.comesBack

/-- In every run whose states stay on the graph, whenever a state is about to execute a user
instruction, the flow graph has an edge to it from the user instruction before, and the
assertions of the coverage tracker hold of all results of the step. -/
theorem reachable_edge (exact : solver.Exact) (hmem : Loaded o.test.mem)
    (hstart : E₀.Starts solver o gold) (hreach : ReachesWhen StaysOnGraph fuel E₀ E) :
    ∀ s ∈ E.frontier, s.status = .normal → E.StaysOnGraph s →
      (∀ i j, s.latestNonOSInst.1 = some i → s.mem.read s.pc = some (.inst j) →
        j.belongsToOS = false → E.session.fa.fg.HasEdge (some i.addr) (some j.addr)) ∧
      ∀ r, E.session.ex.step ⟨s, E.session.pkg⟩ = .ok r →
        Session.updateCoverage E.session.fa r.states ≠ .error .failToMatchCoveredEdge ∧
        Session.updateCoverage E.session.fa r.states ≠ .error .noEdgeToPC := by
  intro s hs hnormal hstays
  have hinv₀ : E₀.Inv Mach.Any solver o := hstart.inv Mach.closed_any exact fun _ _ _ _ _ => trivial
  have hinv := hreach.reaches.inv Mach.closed_any hinv₀
  have h := hreach.onGraph exact hmem hstart
  have hfits := h.fits s hs hnormal
  refine ⟨fun i j hi hread huser => hfits.enters h.sound hmem h.nodes hstays.comesBack hread huser hi, ?_⟩
  intro r hstep
  have hexp : ∀ t ∈ r.states, t.status = .normal → t.Expected E.session.fa.fg := fun t ht =>
    h.expected hmem hinv hs hnormal hstays hstep ht
  constructor
  · intro herr
    cases Session.updateCoverage_error hexp herr
  · intro herr
    cases Session.updateCoverage_error hexp herr

end Exploration

/-- A program that is loaded after a file with its own vector for `TRAP x30`. -/
def Program.ownVector : Program where
  mem :=
    [(0x0030, .data ⟨some (.const 0x3002), false, false⟩),
     (0x3000, .inst ⟨0x3000, 0xF030, ⟨.TRAP, .V, 0xFF00, 0xF000⟩, by decide, false, [],
        "ownVector.asm", 1, "TRAP x30"⟩),
     (0x3001, .inst ⟨0x3001, 0x1020, ⟨.ADDi, .RRI, 0xF020, 0x1020⟩, by decide, false, [],
        "ownVector.asm", 2, "ADD R0, R0, #0"⟩),
     (0x3002, .inst ⟨0x3002, 0xF025, ⟨.TRAP, .V, 0xFF00, 0xF000⟩, matchInst_halt, false, ["HANDLER"],
        "ownVector.asm", 3, "INSTANT_HALT"⟩)]
  constraints := []
  initPC := 0x3000
  preferences := []

def Options.ownVector : Options :=
  { Options.sample with test := .ownVector }

/-- Control goes from the `TRAP` straight to the user's handler, and no edge leads there. -/
theorem ownVector_noEdge : ∃ (E : Exploration) (s t : State) (r : StepResult) (i j : InstValue),
    E.Starts Solver.ideal .ownVector none ∧ s ∈ E.frontier ∧ s.status = .normal ∧
    E.session.ex.step ⟨s, E.session.pkg⟩ = .ok r ∧ t ∈ r.states ∧ t.status = .normal ∧
    t.latestNonOSInst.1 = some i ∧ t.mem.read t.pc = some (.inst j) ∧ j.belongsToOS = false ∧
    ¬ E.session.fa.fg.HasEdge (some i.addr) (some j.addr) ∧
    Session.updateCoverage E.session.fa r.states = .error .noEdgeToPC := by
  have hrun : ∃ l, Options.ownVector.start Solver.ideal none = .ok l ∧
      ∃ s, l.searcher.states = [s] ∧ s.status = .normal ∧
      ∃ r, l.session.ex.step ⟨s, l.session.pkg⟩ = .ok r ∧
      ∃ t, r.states = [t] ∧ t.status = .normal ∧
      ∃ i, t.latestNonOSInst.1 = some i ∧
      ∃ j, t.mem.read t.pc = some (.inst j) ∧ j.belongsToOS = false ∧
      (l.session.fa.fg.runtimeOutEdges i.addr).find? (fun e => e.2.dst = some j.addr) = none ∧
      Session.updateCoverage l.session.fa r.states = .error .noEdgeToPC := by
    refine ⟨_, rfl, ?_⟩
    refine ⟨_, rfl, rfl, ?_⟩
    refine ⟨_, rfl, ?_⟩
    refine ⟨_, rfl, rfl, ?_⟩
    refine ⟨_, rfl, ?_⟩
    exact ⟨_, rfl, rfl, rfl, rfl⟩
  obtain ⟨l, hl, s, hs, hnormal, r, hstep, t, ht, htnormal, i, hi, j, hj, huser, hnone, herr⟩ := hrun
  obtain ⟨E, hstart, hsession, hfrontier⟩ := Options.start_explores rfl hl
  rw [hs, List.perm_singleton] at hfrontier
  rw [← hsession] at hstep hnone herr
  refine ⟨E, s, t, r, i, j, hstart, by rw [hfrontier]; exact List.mem_singleton.2 rfl, hnormal,
    hstep, by rw [ht]; exact List.mem_singleton.2 rfl, htnormal, hi, hj, huser, ?_, herr⟩
  rw [← FlowGraph.find_runtimeOutEdges_iff, hnone]
  simp

theorem overwritten_loaded : Loaded Options.overwritten.test.mem := by
  refine ⟨by decide, fun addr i hi => ?_⟩
  simp [Options.overwritten, Program.overwritten] at hi
  rcases hi with ⟨rfl, rfl⟩ | ⟨rfl, rfl⟩ | ⟨rfl, rfl⟩ | ⟨rfl, rfl⟩ <;> rfl

/-- In `Program.overwritten` the graph leads from the first instruction to the call. -/
theorem overwritten_edge : ∃ (E₀ E : Exploration) (s : State) (i j : InstValue),
    E₀.Starts Solver.ideal .overwritten none ∧
    E₀.ReachesWhen Exploration.StaysOnGraph 0 E ∧ s ∈ E.frontier ∧ s.status = .normal ∧
    E.StaysOnGraph s ∧ s.latestNonOSInst.1 = some i ∧ i.instID = .ANDi ∧
    s.mem.read s.pc = some (.inst j) ∧ j.instID = .JSR ∧
    E.session.fa.fg.HasEdge (some i.addr) (some j.addr) ∧
    ∃ r, E.session.ex.step ⟨s, E.session.pkg⟩ = .ok r ∧
      Session.updateCoverage E.session.fa r.states ≠ .error .noEdgeToPC := by
  have hrun : ∃ l, Options.overwritten.start Solver.ideal none = .ok l ∧
      ∃ s₀, l.searcher.states = [s₀] ∧ s₀.latestInst.1 = s₀.latestNonOSInst.1 ∧
      ∃ i, s₀.mem.read s₀.pc = some (.inst i) ∧ i.instID = .ANDi ∧
      ∃ S₁ l₁, l.session.advance 0 s₀ = .ok (some (S₁, l₁)) ∧
      ∃ s₁, l₁ = [s₁] ∧ s₁.status = .normal ∧ s₁.latestInst.1 = s₁.latestNonOSInst.1 ∧
      s₁.latestNonOSInst.1 = some i ∧
      ∃ j, s₁.mem.read s₁.pc = some (.inst j) ∧ j.instID = .JSR ∧ j.belongsToOS = false ∧
      ∃ r, S₁.ex.step ⟨s₁, S₁.pkg⟩ = .ok r := by
    refine ⟨_, rfl, ?_⟩
    refine ⟨_, rfl, rfl, ?_⟩
    refine ⟨_, rfl, rfl, ?_⟩
    refine ⟨_, _, rfl, ?_⟩
    refine ⟨_, rfl, rfl, rfl, rfl, ?_⟩
    refine ⟨_, rfl, rfl, rfl, ?_⟩
    exact ⟨_, rfl⟩
  obtain ⟨l, hl, s₀, hs₀, hlast₀, i, hread₀, hAND, S₁, l₁, hnext, s₁, rfl, hnormal, hlast₁, hi, j,
    hread₁, hJSR, huser, r, hstep⟩ := hrun
  obtain ⟨E₀, hstart, hsession, hfrontier⟩ := Options.start_explores rfl hl
  rw [hs₀, List.perm_singleton] at hfrontier
  rw [← hsession] at hnext
  have hstays : ∀ (fg : FlowGraph) (s : State) (i : InstValue), s.latestInst.1 = s.latestNonOSInst.1 →
      s.mem.read s.pc = some (.inst i) → i.instID ≠ .TRAP → s.StaysOnGraph fg := by
    intro fg s i hlast hread hid
    refine ⟨fun j _ _ hne => absurd hlast hne, fun j hj _ htrap => ?_⟩
    rw [hread] at hj
    cases hj
    exact absurd htrap hid
  have hreach : E₀.ReachesWhen Exploration.StaysOnGraph 0 ⟨S₁, [s₁]⟩ :=
    .single ⟨[], s₀, [], [s₁], ⟨hfrontier, hnext, rfl⟩, hstays _ s₀ i hlast₀ hread₀ (by simp [hAND])⟩
  have hstays₁ : Exploration.StaysOnGraph ⟨S₁, [s₁]⟩ s₁ :=
    hstays _ s₁ j hlast₁ hread₁ (by simp [hJSR])
  obtain ⟨hedge, hassert⟩ := Exploration.reachable_edge Solver.ideal_exact overwritten_loaded hstart hreach s₁
    (List.mem_singleton.2 rfl) hnormal hstays₁
  exact ⟨E₀, ⟨S₁, [s₁]⟩, s₁, i, j, hstart, hreach, List.mem_singleton.2 rfl, hnormal, hstays₁, hi,
    hAND, hread₁, hJSR, hedge i j hi hread₁ huser, r, hstep, (hassert r hstep).2⟩

end Klc3
