import Klc3.Verification.Executor.Terminal
import Klc3.Verification.MainLoop.FlowEdges

/-!
# Coverage is exact

Along a run, the edges that are marked as covered are those between instructions that some
state executed one after the other, and the counters count them.
-/

namespace Klc3

open FlowGraph (Grows Transition)

/-! ## The edges that are found -/

namespace CoverageTracker

variable {fg fg' : FlowGraph} {t : State} {k : Nat} {e : Edge} {hist : List Transition}
variable {i j : InstValue} {prev : Option InstValue}

/-- The edge that a state covers when it goes on. -/
theorem covered_normal (hsound : fg.Sound) (hnormal : t.status = .normal)
    (hi : t.latestNonOSInst = (some j, prev)) (hlast : t.latestInst.1 = some j)
    (hfirst : prev = none → fg.getNodeByAddr fg.initPC = some j)
    (hjust : fg.getJustCoveredEdge t = .ok (some k)) (hget : fg.edges[k]? = some e) :
    e.type.isRuntime = true ∧ e.src = prev.map InstValue.addr ∧ e.dst = some j.addr ∧
      fg.First k e := by
  unfold FlowGraph.getJustCoveredEdge at hjust
  rw [hnormal, hi, hlast] at hjust
  dsimp only at hjust
  rw [if_neg (by simp)] at hjust
  cases prev with
  | none =>
      have hnode := hfirst rfl
      obtain ⟨k', e', hinit, hget', htype, hsrc, hdst⟩ := hsound.init (by rw [hnode]; rfl)
      change (.ok fg.initPCEdge : Except Abort (Option Nat)) = .ok (some k) at hjust
      cases hinit.symm.trans (Except.ok.inj hjust)
      cases hget.symm.trans hget'
      refine ⟨by rw [htype]; rfl, hsrc, by rw [hdst, hsound.placed _ _ hnode], ?_⟩
      intro l hl e' hgetl _ hends
      cases hinit.symm.trans (hsound.entry l e' hgetl (hends.1.trans hsrc))
      exact absurd hl (Nat.lt_irrefl _)
  | some i =>
      dsimp only at hjust
      split at hjust
      · rename_i found hfind
        obtain ⟨k', e'⟩ := found
        cases hjust
        obtain ⟨hget', hrun, hsrc, hdst, hfst⟩ := FlowGraph.find_dst hfind
        cases hget.symm.trans hget'
        exact ⟨hrun, hsrc, hdst, hfst⟩
      · cases hjust

/-- The edges that lead nowhere are those of halting traps. -/
theorem find_halt (hsound : fg.Sound) (node : Word) :
    ((fg.runtimeOutEdges node).find? fun e => e.2.type = .trapVirtual ∧ e.2.dst = none) =
      (fg.runtimeOutEdges node).find? fun e => e.2.dst = none := by
  rw [← List.head?_filter, ← List.head?_filter]
  refine congrArg List.head? (List.filter_congr fun ⟨k, e⟩ he => ?_)
  obtain ⟨hget, hrun, -⟩ := FlowGraph.mem_runtimeOutEdges.1 he
  have hhalts := hsound.halts e (List.mem_of_getElem? hget) hrun
  by_cases hdst : e.dst = none
  · simp [hdst, hhalts hdst]
  · simp [hdst]

/-- The edge that a state covers when it halts. -/
theorem covered_halted (hsound : fg.Sound) (hhalted : t.status = .halted)
    (hi : t.latestNonOSInst.1 = some i) :
    fg.getJustCoveredEdge t = .ok (((fg.runtimeOutEdges i.addr).find? fun e =>
      e.2.dst = none).map Prod.fst) := by
  unfold FlowGraph.getJustCoveredEdge
  rw [hhalted, hi]
  dsimp only
  rw [find_halt hsound]
  rfl

/-- The edge into the instruction in which a state halts at once. -/
theorem find_edgeToInstantHalt (h : edgeToInstantHalt fg t = some k) (hget : fg.edges[k]? = some e) :
    ∃ i prev, t.latestNonOSInst = (some i, some prev) ∧ e.type.isRuntime = true ∧
      e.src = some prev.addr ∧ e.dst = some i.addr ∧ fg.First k e := by
  unfold edgeToInstantHalt at h
  split at h
  · rename_i last inst prev hlast huser
    split at h
    · obtain ⟨⟨k', e'⟩, hfind, hk⟩ := Option.map_eq_some_iff.1 h
      cases hk
      obtain ⟨hget', hrun, hsrc, hdst, hfirst⟩ := FlowGraph.find_dst hfind
      cases hget.symm.trans hget'
      exact ⟨inst, prev, huser, hrun, hsrc, hdst, hfirst⟩
    · cases h
  · cases h

end CoverageTracker

/-! ## What is executed -/

namespace State

/-- The way out of the `TRAP` in which a state halted. -/
def haltTransition (t : State) : List Transition :=
  match t.status, t.latestNonOSInst.1 with
  | .halted, some i => if i.instID = .TRAP then [(some i.addr, none)] else []
  | _, _ => []

/-- What a step from `s` to `t` executes that did not leave `t` broken: a user instruction
after the one before, and the way out of the `TRAP` in which the program halted. -/
def transitions (s t : State) : List Transition :=
  if t.status = .broken then []
  else match s.mem.read s.pc with
    | some (.inst j) =>
      if j.belongsToOS then t.haltTransition
      else (s.latestNonOSInst.1.map InstValue.addr, some j.addr) :: t.haltTransition
    | _ => []

/-- The only way to halt in user code that is accounted for: an `INSTANT_HALT` with a vector
that does not come back, after another instruction. -/
def HaltsInstantly (t : State) : Prop :=
  ∃ i prev, t.latestNonOSInst = (some i, some prev) ∧ t.latestInst.1 = some i ∧
    i.instID = .TRAP ∧ i.vec8 ∉ FlowGraph.returningVectors ∧ i.sourceContent = "INSTANT_HALT"

end State

namespace CoverageTracker

variable {fg fg' : FlowGraph} {t : State} {hist : List Transition}
variable {i j : InstValue} {prev : Option InstValue}

/-- A state that halts in a `TRAP`: the way out is marked, if the graph has one. -/
theorem covers_halt {e : Edge} {k : Nat} (hsound : fg.Sound) (hc : fg.Covers hist)
    (hhalted : t.status = .halted) (hi : t.latestNonOSInst.1 = some i)
    (hnode : fg.getNodeByAddr i.addr = some i)
    (hjust : fg.getJustCoveredEdge t = .ok (some k)) (hget : fg.edges[k]? = some e) :
    (fg.cover k e).Covers (hist ++ t.haltTransition) := by
  rw [covered_halted hsound hhalted hi] at hjust
  obtain ⟨⟨k', e'⟩, hfind, hk⟩ := Option.map_eq_some_iff.1 (Except.ok.inj hjust)
  cases hk
  obtain ⟨hget', hrun, hsrc, hdst, hfirst⟩ := FlowGraph.find_dst hfind
  cases hget.symm.trans hget'
  obtain ⟨i', hsrc', hnode', hid⟩ := hsound.traps e (List.mem_of_getElem? hget)
    (hsound.halts e (List.mem_of_getElem? hget) hrun hdst)
  have haddr : i.addr = i'.addr := Option.some.inj (hsrc.symm.trans hsrc')
  obtain rfl : i = i' := by
    rw [haddr, hnode'] at hnode
    exact (Option.some.inj hnode).symm
  have hcover := hc.cover hget hrun hfirst
  rw [hsrc, hdst] at hcover
  simpa [State.haltTransition, hhalted, hi, hid] using hcover

theorem covers_halt_absent (hsound : fg.Sound) (hc : fg.Covers hist)
    (hhalted : t.status = .halted) (hi : t.latestNonOSInst.1 = some i)
    (hjust : fg.getJustCoveredEdge t = .ok none) : fg.Covers (hist ++ t.haltTransition) := by
  rw [covered_halted hsound hhalted hi] at hjust
  have hnone := Option.map_eq_none_iff.1 (Except.ok.inj hjust)
  have habsent : ¬ fg.HasEdge (some i.addr) none := by
    rw [← FlowGraph.find_runtimeOutEdges_iff, hnone]
    simp
  simp only [State.haltTransition, hhalted, hi]
  split
  · exact hc.absent habsent
  · rwa [List.append_nil]

theorem haltTransition_normal (hnormal : t.status = .normal) : t.haltTransition = [] := by
  simp [State.haltTransition, hnormal]

/-- Recording a state whose last instruction was an OS one. -/
theorem Updates.covers_os (hsound : fg.Sound) (hc : fg.Covers hist) (hbroken : t.status ≠ .broken)
    (hos : t.latestNonOSInst.1 ≠ t.latestInst.1)
    (hlatest : ∀ i, t.latestNonOSInst.1 = some i → fg.getNodeByAddr i.addr = some i)
    (hin : ∀ i prev, t.latestNonOSInst = (some i, some prev) →
      (some prev.addr, some i.addr) ∈ hist)
    (h : Updates fg t fg') : fg'.Covers (hist ++ t.haltTransition) := by
  cases h with
  | broken hstatus => exact absurd hstatus hbroken
  | nothing _ hjust =>
      cases hs : t.status with
      | broken => exact absurd hs hbroken
      | normal => rwa [haltTransition_normal hs, List.append_nil]
      | halted =>
          cases hi : t.latestNonOSInst.1 with
          | none => simp [FlowGraph.getJustCoveredEdge, hs, hi] at hjust
          | some i => exact covers_halt_absent hsound hc hs hi hjust
  | goesOn hnormal hjust =>
      obtain ⟨i, hi, hlast⟩ := latest_of_covered hnormal hjust
      exact absurd (hi.trans hlast.symm) hos
  | halts hhalted hjust hget =>
      cases hi : t.latestNonOSInst.1 with
      | none => simp [FlowGraph.getJustCoveredEdge, hhalted, hi] at hjust
      | some i => exact covers_halt hsound hc hhalted hi (hlatest i hi) hjust hget
  | haltsInstantly hhalted hjust hget hinto hget' =>
      obtain ⟨i, prev, hi, hrun, hsrc, hdst, hfirst⟩ := find_edgeToInstantHalt hinto hget'
      have hi₁ : t.latestNonOSInst.1 = some i := by rw [hi]
      have hhalt := covers_halt hsound hc hhalted hi₁ (hlatest i hi₁) hjust hget
      -- the edge into the instruction was marked when the instruction was executed
      refine (hhalt.cover hget' hrun hfirst).mono_hist fun p => ?_
      rw [hsrc, hdst, List.mem_append (t := [_]), List.mem_singleton]
      refine ⟨.inl, ?_⟩
      rintro (hp | rfl)
      · exact hp
      · exact List.mem_append_left _ (hin i prev hi)

/-- Recording a state whose last instruction was a user one. -/
theorem Updates.covers_user (hsound : fg.Sound) (hc : fg.Covers hist) (hbroken : t.status ≠ .broken)
    (hi : t.latestNonOSInst = (some j, prev)) (hlast : t.latestInst.1 = some j)
    (hnode : fg.getNodeByAddr j.addr = some j)
    (hprev : ∀ i, prev = some i → fg.HasEdge (some i.addr) (some j.addr))
    (hfirst : prev = none → fg.getNodeByAddr fg.initPC = some j)
    (hhalts : t.status = .halted → t.HaltsInstantly) (h : Updates fg t fg') :
    fg'.Covers (hist ++ (prev.map InstValue.addr, some j.addr) :: t.haltTransition) := by
  have hi₁ : t.latestNonOSInst.1 = some j := by rw [hi]
  cases h with
  | broken hstatus => exact absurd hstatus hbroken
  | nothing _ hjust =>
      cases hs : t.status with
      | broken => exact absurd hs hbroken
      | normal =>
          refine absurd hjust (covered_of_user hsound hs hi₁ hlast fun hnone => ?_)
          rw [hfirst (by rw [← hnone, hi])]
          rfl
      | halted =>
          -- the way out is an edge from the start
          obtain ⟨i, prev', hi', -, hid, hvec, -⟩ := hhalts hs
          cases hi.symm.trans hi'
          have hedge : fg.HasEdge (some j.addr) none :=
            hsound.static j.addr j hnode none (by simp [InstValue.successors, hid, hvec]) (by simp)
          rw [covered_halted hsound hs hi₁] at hjust
          rw [← FlowGraph.find_runtimeOutEdges_iff,
            Option.map_eq_none_iff.1 (Except.ok.inj hjust)] at hedge
          cases hedge
  | goesOn hnormal hjust hget hprepare =>
      obtain ⟨hrun, hsrc, hdst, hfst⟩ := covered_normal hsound hnormal hi hlast hfirst hjust hget
      have hcover := (hc.cover hget hrun hfst).extends (prepareEdgeToPCNode_spec hprepare).1
      rwa [hsrc, hdst, ← haltTransition_normal hnormal] at hcover
  | halts hhalted hjust hget hinto =>
      obtain ⟨i, prev', hi', -, -, -, hsource⟩ := hhalts hhalted
      cases hi.symm.trans hi'
      have hedge := (FlowGraph.cover_hasEdge_iff hget).2 (hprev prev' rfl)
      rw [edgeToInstantHalt, hlast, hi'] at hinto
      dsimp only at hinto
      rw [if_pos hsource] at hinto
      rw [← FlowGraph.find_runtimeOutEdges_iff, Option.map_eq_none_iff.1 hinto] at hedge
      cases hedge
  | haltsInstantly hhalted hjust hget hinto hget' =>
      have hhalt := covers_halt hsound hc hhalted hi₁ hnode hjust hget
      obtain ⟨i, prev', hi', hrun, hsrc, hdst, hfst⟩ := find_edgeToInstantHalt hinto hget'
      cases hi.symm.trans hi'
      refine (hhalt.cover hget' hrun hfst).mono_hist fun p => ?_
      rw [hsrc, hdst]
      simp only [List.mem_append, List.mem_cons, Option.map_some]
      tauto

end CoverageTracker

/-! ## One iteration -/

namespace State

variable {fg fg' : FlowGraph} {hist hist' ts : List Transition} {t : State}

/-- Recording `t` in the graph, or in what the graph has grown to, accounts for `ts`. -/
def Accounts (fg : FlowGraph) (hist : List Transition) (t : State) (ts : List Transition) : Prop :=
  ∀ fg₁ fg₂ hist₁, fg.Grows fg₁ → (∀ p ∈ hist, p ∈ hist₁) → fg₁.Sound → fg₁.Covers hist₁ →
    CoverageTracker.Updates fg₁ t fg₂ → fg₂.Covers (hist₁ ++ ts)

theorem Accounts.mono (h : t.Accounts fg hist ts) (hgrows : fg.Grows fg')
    (hsub : ∀ p ∈ hist, p ∈ hist') : t.Accounts fg' hist' ts :=
  fun fg₁ fg₂ hist₁ hgrows₁ hsub₁ =>
    h fg₁ fg₂ hist₁ (hgrows.trans hgrows₁) fun p hp => hsub₁ p (hsub p hp)

end State

theorem Session.updateCoverage_covers {fa fa' : FlowAnalysis} {states states' : List State}
    {hist : List Transition} {f : State → List Transition} (hsound : fa.fg.Sound)
    (hc : fa.fg.Covers hist) (hacc : ∀ t ∈ states, t.Accounts fa.fg hist (f t))
    (h : updateCoverage fa states = .ok (fa', states')) :
    fa'.fg.Covers (hist ++ states.flatMap f) := by
  induction states generalizing fa hist states' with
  | nil =>
      cases h
      simpa using hc
  | cons t rest ih =>
      obtain ⟨⟨fg, t'⟩, hupdate, h⟩ := Except.bind_eq_ok_iff.1 h
      obtain ⟨⟨fa₁, rest'⟩, hrest, h⟩ := Except.bind_eq_ok_iff.1 h
      cases h
      have hupdates := CoverageTracker.updateGraphAndCoverage_updates hupdate
      have hcovers := hacc t List.mem_cons_self fa.fg fg hist (.refl _) (fun _ => id) hsound hc hupdates
      have hall := ih (hupdates.grows.sound hsound) hcovers (fun u hu =>
        (hacc u (List.mem_cons_of_mem t hu)).mono hupdates.grows
          fun p hp => List.mem_append_left _ hp) hrest
      rwa [List.append_assoc, ← List.flatMap_cons] at hall

namespace Executor

variable {fg : FlowGraph} {mem : List (Word × MemValue)} {ex : Executor} {m : Mach}
variable {r : StepResult} {t : State} {hist : List Transition}

/-- The transitions of a step are accounted for when its results are recorded. -/
theorem step_accounts (hsound : fg.Sound) (hmem : Loaded mem)
    (hnodes : fg.nodes = FlowGraph.userInsts mem) (hwf : ex.WF) (howns : ex.Owns m.s.constraints)
    (hnormal : m.s.status = .normal) (hfits : m.s.Fits fg mem) (hback : m.s.ComesBack fg)
    (hin : ∀ i prev, m.s.latestNonOSInst = (some i, some prev) →
      (some prev.addr, some i.addr) ∈ hist)
    (hhalts : t.status = .halted → t.latestInst.1 = t.latestNonOSInst.1 → t.HaltsInstantly)
    (h : ex.step m = .ok r) (ht : t ∈ r.states) :
    t.Accounts fg hist (m.s.transitions t) := by
  intro fg₁ fg₂ hist₁ hgrows hsub hsound₁ hc hupdates
  by_cases hbroken : t.status = .broken
  · rw [State.transitions, if_pos hbroken, List.append_nil]
    cases hupdates with
    | broken => exact hc
    | nothing hstatus => exact absurd hbroken hstatus
    | goesOn hstatus => cases hstatus.symm.trans hbroken
    | halts hstatus => cases hstatus.symm.trans hbroken
    | haltsInstantly hstatus => cases hstatus.symm.trans hbroken
  obtain ⟨ir, hread, hlast, hlastUser⟩ := step_latest hwf howns hnormal h ht hbroken
  rw [State.transitions, if_neg hbroken, hread]
  dsimp only
  cases hos : ir.belongsToOS with
  | true =>
      rw [hos, if_pos rfl] at hlastUser
      refine hupdates.covers_os hsound₁ hc hbroken ?_ ?_ ?_
      · rw [hlastUser, hlast]
        intro heq
        have hnode := hfits.latest ir heq
        rw [FlowGraph.getNodeByAddr, hnodes, FlowGraph.lookup_userInsts_iff hmem.keys, hos] at hnode
        cases hnode.2
      · intro i hi
        rw [hgrows.getNodeByAddr]
        exact hfits.latest i (by rwa [hlastUser] at hi)
      · intro i prev hi
        exact hsub _ (hin i prev (hlastUser.symm.trans hi))
  | false =>
      rw [hos] at hlastUser
      have hlastUser : t.latestNonOSInst = (some ir, m.s.latestNonOSInst.1) := hlastUser
      have hnode := hfits.node hmem hnodes hread hos
      have haddr : ir.addr = m.s.pc := hsound.placed _ _ hnode
      refine hupdates.covers_user hsound₁ hc hbroken hlastUser (by rw [hlast]) ?_ ?_ ?_ ?_
      · rw [hgrows.getNodeByAddr, haddr]
        exact hnode
      · intro i hi
        exact hgrows.hasEdge _ _ (hfits.enters hsound hmem hnodes hback hread hos hi)
      · intro hnone
        rw [hgrows.getNodeByAddr, hgrows.initPC, ← hfits.starts hback hread hos hnone]
        exact hnode
      · intro hhalted
        exact hhalts hhalted (by rw [hlast, hlastUser])

end Executor

/-! ## Runs -/

namespace Exploration

variable {fuel : Nat} {solver : Solver} {o : Options} {gold : Option Gold} {E₀ E E' : Exploration}
variable {hist : List Transition}

/-- A run with the transitions that its states executed. `C` is asked of every iteration: of
the state that is stepped and of the results of the executor. -/
inductive Recorded (C : Exploration → State → List State → Prop) (fuel : Nat) (E₀ : Exploration) :
    Exploration → List Transition → Prop where
  | start : Recorded C fuel E₀ E₀ []
  | next {E E' : Exploration} {before after states : List State} {s : State} {r : StepResult}
      {hist : List Transition} (h : Recorded C fuel E₀ E hist)
      (hnext : NextAt fuel E before s after states E')
      (hstep : E.session.ex.step ⟨s, E.session.pkg⟩ = .ok r) (hC : C E s r.states) :
      Recorded C fuel E₀ E' (hist ++ r.states.flatMap s.transitions)

/-- Control comes back from OS code as the graph expects, and no user instruction halts the
program except for an `INSTANT_HALT` after another instruction. -/
structure HaltsOnGraph (E : Exploration) (s : State) (states : List State) : Prop where
  comesBack : s.ComesBack E.session.fa.fg
  halts : ∀ t ∈ states, t.status = .halted → t.latestInst.1 = t.latestNonOSInst.1 →
    t.HaltsInstantly

structure CoverageInv (o : Options) (E : Exploration) (hist : List Transition) : Prop where
  onGraph : E.OnGraph o
  covers : E.session.fa.fg.Covers hist
  recorded : ∀ s ∈ E.frontier, s.status = .normal → ∀ i prev,
    s.latestNonOSInst = (some i, some prev) → (some prev.addr, some i.addr) ∈ hist

theorem Starts.coverageInv (exact : solver.Exact) (hmem : Loaded o.test.mem)
    (h : E.Starts solver o gold) : E.CoverageInv o [] := by
  have hgraph := h.onGraph exact hmem
  obtain ⟨fa, ex, s, hfa, hinit, -, -, -, hsession, -, -, -, -, hfrontier⟩ := h
  obtain ⟨-, -, -, hcovers⟩ := FlowAnalysis.new_spec hmem hfa
  refine ⟨hgraph, ?_, ?_⟩
  · rw [hsession, FlowAnalysis.setupInitState_fg]
    exact hcovers
  · intro u hu _ i prev hi
    obtain ⟨⟨cs, rfl⟩, -⟩ := Executor.createInitState_spec exact hinit
    rw [hfrontier, List.mem_singleton] at hu
    subst hu
    cases hi

theorem NextAt.coverageInv {before after states : List State} {s : State} {r : StepResult}
    (hmem : Loaded o.test.mem) (hinv : E.Inv Mach.Any solver o) (h : E.CoverageInv o hist)
    (hnext : NextAt fuel E before s after states E')
    (hstep : E.session.ex.step ⟨s, E.session.pkg⟩ = .ok r) (hends : E.HaltsOnGraph s r.states) :
    E'.CoverageInv o (hist ++ r.states.flatMap s.transitions) := by
  have hgraph := hnext.onGraph hmem hinv h.onGraph hends.comesBack
  obtain ⟨hfrontier, hadvance, hfrontier'⟩ := hnext
  obtain ⟨hnormal, r', fa₁, states₁, hstep', hcoverage, hextends, hfollows⟩ :=
    Session.advance_graph hadvance
  cases hstep.symm.trans hstep'
  have hs : s ∈ E.frontier := by simp [hfrontier]
  have hfits := h.onGraph.fits s hs hnormal
  have hacc : ∀ t ∈ r.states, t.Accounts E.session.fa.fg hist (s.transitions t) := fun t ht =>
    Executor.step_accounts (m := ⟨s, E.session.pkg⟩) h.onGraph.sound hmem h.onGraph.nodes hinv.wf
      (hinv.owns hs) hnormal hfits hends.comesBack (h.recorded s hs hnormal) (hends.halts t ht)
      hstep ht
  refine ⟨hgraph,
    (Session.updateCoverage_covers h.onGraph.sound h.covers hacc hcoverage).extends hextends, ?_⟩
  intro u hu hunormal i prev hi
  rw [hfrontier', List.mem_append] at hu
  rcases hu with hu | hu
  · refine List.mem_append_left _ (h.recorded u ?_ hunormal i prev hi)
    rw [hfrontier]
    simp only [List.mem_append, List.mem_cons] at hu ⊢
    tauto
  · obtain ⟨t, ht, hcore, -, hstatus, -⟩ := hfollows.each.exists_left hu
    have hbroken : t.status ≠ .broken := by
      rcases hstatus with heq | hbroken
      · simp [← heq, hunormal]
      · cases hunormal.symm.trans hbroken
    have huser : u.latestNonOSInst = t.latestNonOSInst :=
      State.core_congr State.latestNonOSInst hcore fun _ => rfl
    obtain ⟨ir, hread, -, hlastUser⟩ := Executor.step_latest (m := ⟨s, E.session.pkg⟩) hinv.wf
      (hinv.owns hs) hnormal hstep ht hbroken
    rw [huser, hlastUser] at hi
    split at hi
    · exact List.mem_append_left _ (h.recorded s hs hnormal i prev hi)
    · rename_i hos
      refine List.mem_append_right _ (List.mem_flatMap.2 ⟨t, ht, ?_⟩)
      obtain ⟨hir, hprev⟩ := Prod.mk.inj hi
      cases hir
      have hread : s.mem.read s.pc = some (.inst i) := hread
      have hprev : s.latestNonOSInst.1 = some prev := hprev
      rw [State.transitions, if_neg hbroken, hread]
      simp only [hos, hprev]
      exact List.mem_cons_self

theorem Recorded.coverageInv (exact : solver.Exact) (hmem : Loaded o.test.mem)
    (hstart : E₀.Starts solver o gold) (h : Recorded HaltsOnGraph fuel E₀ E hist) :
    E.Inv Mach.Any solver o ∧ E.CoverageInv o hist := by
  induction h with
  | start =>
      exact ⟨hstart.inv Mach.closed_any exact fun _ _ _ _ _ => trivial, hstart.coverageInv exact hmem⟩
  | next _ hnext hstep hends ih =>
      exact ⟨Next.inv Mach.closed_any ih.1 ⟨_, _, _, _, hnext⟩,
        hnext.coverageInv hmem ih.1 ih.2 hstep hends⟩

/-- In every run in which control comes back from OS code as the graph expects and no user
instruction halts the program unnoticed, a runtime edge is covered exactly when its
transition was executed, if it is the first edge between its nodes; and the counters count
the covered runtime edges and all of them. -/
theorem recorded_coverage (exact : solver.Exact) (hmem : Loaded o.test.mem)
    (hstart : E₀.Starts solver o gold) (h : Recorded HaltsOnGraph fuel E₀ E hist) :
    (∀ (k : Nat) e, E.session.fa.fg.edges[k]? = some e → e.type.isRuntime = true →
      E.session.fa.fg.First k e → (e.covered = true ↔ (e.src, e.dst) ∈ hist)) ∧
    ∃ c, E.session.fa.fg.tracker = some c ∧
      c.coveredEdgeCount = E.session.fa.fg.edges.countP (fun e => e.type.isRuntime && e.covered) ∧
      c.totalEdgeToCover = E.session.fa.fg.edges.countP fun e => e.type.isRuntime := by
  obtain ⟨-, -, hcovers, -⟩ := h.coverageInv exact hmem hstart
  refine ⟨fun k e hget hrun hfirst => ?_, hcovers.count⟩
  rw [hcovers.covered k e hget hrun]
  exact and_iff_left hfirst

end Exploration

/-- A program that stops the clock itself. -/
def Program.stopsClock : Program where
  mem :=
    [(0x3000, .inst ⟨0x3000, 0x5020, ⟨.ANDi, .RRI, 0xF020, 0x5020⟩, Executor.matchInst_clear, false, [],
        "stopsClock.asm", 1, "AND R0, R0, #0"⟩),
     (0x3001, .inst ⟨0x3001, 0xB000, ⟨.STI, .RL, 0xF000, 0xB000⟩, by decide, false, [],
        "stopsClock.asm", 2, "STI R0, MCR"⟩),
     (0x3002, .data ⟨some (.const 0xFFFE), false, false⟩)]
  constraints := []
  initPC := 0x3000
  preferences := []

def Options.stopsClock : Options :=
  { Options.sample with test := .stopsClock }

/-- The program halts in its second instruction, and the edge into it is not covered. -/
theorem stopsClock_uncovered : ∃ (E₀ E : Exploration) (hist : List Transition) (e : Edge),
    E₀.Starts Solver.ideal .stopsClock none ∧
    Exploration.Recorded (fun E s _ => s.ComesBack E.session.fa.fg) 0 E₀ E hist ∧
    e ∈ E.session.fa.fg.edges ∧ e.type.isRuntime = true ∧ e.src = some 0x3000 ∧
    e.dst = some 0x3001 ∧ (e.src, e.dst) ∈ hist ∧ e.covered = false := by
  have hrun : ∃ l, Options.stopsClock.start Solver.ideal none = .ok l ∧
      ∃ s₀, l.searcher.states = [s₀] ∧ s₀.latestInst.1 = s₀.latestNonOSInst.1 ∧
      ∃ r₀, l.session.ex.step ⟨s₀, l.session.pkg⟩ = .ok r₀ ∧
      ∃ S₁ l₁, l.session.advance 0 s₀ = .ok (some (S₁, l₁)) ∧
      ∃ s₁, l₁ = [s₁] ∧ s₁.latestInst.1 = s₁.latestNonOSInst.1 ∧
      ∃ r₁, S₁.ex.step ⟨s₁, S₁.pkg⟩ = .ok r₁ ∧
      (some 0x3000, some 0x3001) ∈ r₁.states.flatMap s₁.transitions ∧
      ∃ S₂ l₂, S₁.advance 0 s₁ = .ok (some (S₂, l₂)) ∧
      ∃ e, S₂.fa.fg.edges[0]? = some e ∧ e.type.isRuntime = true ∧ e.src = some 0x3000 ∧
        e.dst = some 0x3001 ∧ e.covered = false := by
    refine ⟨_, rfl, ?_⟩
    refine ⟨_, rfl, rfl, ?_⟩
    refine ⟨_, rfl, ?_⟩
    refine ⟨_, _, rfl, ?_⟩
    refine ⟨_, rfl, rfl, ?_⟩
    refine ⟨_, rfl, List.mem_cons_self, ?_⟩
    refine ⟨_, _, rfl, ?_⟩
    exact ⟨_, rfl, rfl, rfl, rfl, rfl⟩
  obtain ⟨l, hl, s₀, hs₀, hlast₀, r₀, hstep₀, S₁, l₁, hnext₁, s₁, rfl, hlast₁, r₁, hstep₁, hin, S₂,
    l₂, hnext₂, e, hget, hruntime, hsrc, hdst, hcovered⟩ := hrun
  obtain ⟨E₀, hstart, hsession, hfrontier⟩ := Options.start_explores rfl hl
  rw [hs₀, List.perm_singleton] at hfrontier
  rw [← hsession] at hnext₁ hstep₀
  have hrec₁ : Exploration.Recorded (fun E s _ => s.ComesBack E.session.fa.fg) 0 E₀ ⟨S₁, [s₁]⟩ _ :=
    .next .start (⟨hfrontier, hnext₁, rfl⟩ : Exploration.NextAt 0 _ [] s₀ [] [s₁] _) hstep₀
      (fun _ _ _ hne => absurd hlast₀ hne)
  have hrec₂ : Exploration.Recorded (fun E s _ => s.ComesBack E.session.fa.fg) 0 E₀ ⟨S₂, l₂⟩ _ :=
    .next hrec₁ (⟨rfl, hnext₂, rfl⟩ : Exploration.NextAt 0 _ [] s₁ [] l₂ _) hstep₁
      (fun _ _ _ hne => absurd hlast₁ hne)
  exact ⟨E₀, _, _, e, hstart, hrec₂, List.mem_of_getElem? hget, hruntime, hsrc, hdst,
    List.mem_append_right _ (by rw [hsrc, hdst]; exact hin), hcovered⟩

/-- In `Program.overwritten` the edge from the first instruction to the call is covered. -/
theorem overwritten_coverage : ∃ (E₀ E : Exploration) (hist : List Transition) (e : Edge),
    E₀.Starts Solver.ideal .overwritten none ∧
    Exploration.Recorded Exploration.HaltsOnGraph 0 E₀ E hist ∧
    E.session.fa.fg.edges[0]? = some e ∧ e.type.isRuntime = true ∧ E.session.fa.fg.First 0 e ∧
    (e.covered = true ↔ (e.src, e.dst) ∈ hist) ∧ e.covered = true := by
  have hrun : ∃ l, Options.overwritten.start Solver.ideal none = .ok l ∧
      ∃ s₀, l.searcher.states = [s₀] ∧ s₀.latestInst.1 = s₀.latestNonOSInst.1 ∧
      ∃ r₀, l.session.ex.step ⟨s₀, l.session.pkg⟩ = .ok r₀ ∧
      ∃ t₀, r₀.states = [t₀] ∧ t₀.status = .normal ∧
      ∃ S₁ l₁, l.session.advance 0 s₀ = .ok (some (S₁, l₁)) ∧
      ∃ s₁, l₁ = [s₁] ∧ s₁.latestInst.1 = s₁.latestNonOSInst.1 ∧
      ∃ r₁, S₁.ex.step ⟨s₁, S₁.pkg⟩ = .ok r₁ ∧
      ∃ t₁, r₁.states = [t₁] ∧ t₁.status = .normal ∧
      ∃ S₂ l₂, S₁.advance 0 s₁ = .ok (some (S₂, l₂)) ∧
      ∃ e, S₂.fa.fg.edges[0]? = some e ∧ e.type.isRuntime = true ∧ e.covered = true := by
    refine ⟨_, rfl, ?_⟩
    refine ⟨_, rfl, rfl, ?_⟩
    refine ⟨_, rfl, ?_⟩
    refine ⟨_, rfl, rfl, ?_⟩
    refine ⟨_, _, rfl, ?_⟩
    refine ⟨_, rfl, rfl, ?_⟩
    refine ⟨_, rfl, ?_⟩
    refine ⟨_, rfl, rfl, ?_⟩
    refine ⟨_, _, rfl, ?_⟩
    exact ⟨_, rfl, rfl, rfl⟩
  obtain ⟨l, hl, s₀, hs₀, hlast₀, r₀, hstep₀, t₀, hr₀, ht₀, S₁, l₁, hnext₁, s₁, rfl, hlast₁, r₁,
    hstep₁, t₁, hr₁, ht₁, S₂, l₂, hnext₂, e, hget, hruntime, hcovered⟩ := hrun
  obtain ⟨E₀, hstart, hsession, hfrontier⟩ := Options.start_explores rfl hl
  rw [hs₀, List.perm_singleton] at hfrontier
  rw [← hsession] at hnext₁ hstep₀
  have hends : ∀ {E : Exploration} {s t : State} {states : List State},
      s.latestInst.1 = s.latestNonOSInst.1 → states = [t] → t.status = .normal →
      E.HaltsOnGraph s states := by
    intro E s t states hlast hstates hnormal
    refine ⟨fun _ _ _ hne => absurd hlast hne, fun u hu hhalted => ?_⟩
    rw [hstates, List.mem_singleton] at hu
    rw [hu, hnormal] at hhalted
    cases hhalted
  have hrec₁ : Exploration.Recorded Exploration.HaltsOnGraph 0 E₀ ⟨S₁, [s₁]⟩ _ :=
    .next .start (⟨hfrontier, hnext₁, rfl⟩ : Exploration.NextAt 0 _ [] s₀ [] [s₁] _) hstep₀
      (hends hlast₀ hr₀ ht₀)
  have hrec₂ : Exploration.Recorded Exploration.HaltsOnGraph 0 E₀ ⟨S₂, l₂⟩ _ :=
    .next hrec₁ (⟨rfl, hnext₂, rfl⟩ : Exploration.NextAt 0 _ [] s₁ [] l₂ _) hstep₁
      (hends hlast₁ hr₁ ht₁)
  have hfirst : S₂.fa.fg.First 0 e := fun j hj => absurd hj (Nat.not_lt_zero j)
  have hiff := (Exploration.recorded_coverage Solver.ideal_exact overwritten_loaded hstart hrec₂).1 0 e
    hget hruntime hfirst
  exact ⟨E₀, _, _, e, hstart, hrec₂, hget, hruntime, hfirst, hiff, hcovered⟩

end Klc3
