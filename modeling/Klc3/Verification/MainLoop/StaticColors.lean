import Klc3.Verification.FlowGraph.RetEdges
import Klc3.Verification.FlowGraph.Subroutines
import Klc3.Verification.MainLoop.Calls

/-!
# Execution stays inside the static colours

In a program without indirect jumps and calls, a state whose stacks are in order is always
at a node that the constructor of the tracker has coloured with the colour on top, so
`updateColors` has nothing to add.
-/

namespace Klc3

namespace Executor

variable {ex : Executor} {m : Mach} {ir : InstValue} {t : State}

/-- Where an instruction other than a jump through a register or a `TRAP` leads, whatever
becomes of the state. -/
theorem execute_pc {r : StepResult} (h : ex.execute m ir = .ok r) (ht : t ∈ r.states)
    (haddr : m.s.pc = ir.addr + 1) (hJMP : ir.instID ≠ .JMP) (hJSRR : ir.instID ≠ .JSRR)
    (hTRAP : ir.instID ≠ .TRAP) : some t.pc ∈ ir.successors := by
  by_cases hBR : ir.instID = .BR
  · rw [execute, hBR] at h
    obtain ⟨m₁, br, cond, hsolve, h⟩ := executeBR_eq_ok h
    have hpc : m₁.s.pc = ir.addr + 1 := (Mach.solveBRCond_reads hsolve).pc.trans haddr
    -- A branch that is always or never taken is decided by its bits.
    have hbits : (ir.cc = 7 → br = .valid) ∧ (ir.cc = 0 → br = .invalid) := by
      rcases solveBRCond_eq_ok hsolve with ⟨hcc, -, rfl⟩ | ⟨hcc, -, rfl⟩ | ⟨hne, hne', -⟩
      · exact ⟨fun h => absurd (hcc.symm.trans h) (by decide), fun _ => rfl⟩
      · exact ⟨fun _ => rfl, fun h => absurd (hcc.symm.trans h) (by decide)⟩
      · exact ⟨fun h => absurd h hne', fun h => absurd h hne⟩
    have hfalls : br ≠ .valid → t.pc = m₁.s.pc → some t.pc ∈ ir.successors := by
      intro hne hpc'
      have hcc : ir.cc ≠ 7 := fun h => hne (hbits.1 h)
      simp only [InstValue.successors, hBR, if_neg hcc, hpc', hpc]
      exact List.mem_append_left _ (List.mem_singleton.2 rfl)
    have hjumps : br ≠ .invalid → t.pc = m₁.s.pc + ir.imm9 → some t.pc ∈ ir.successors := by
      intro hne hpc'
      have hcc : ir.cc ≠ 0 := fun h => hne (hbits.2 h)
      simp only [InstValue.successors, hBR, if_neg hcc, hpc', hpc]
      exact List.mem_append_right _ (List.mem_singleton.2 rfl)
    rcases h with ⟨rfl, rfl⟩ | ⟨rfl, rfl⟩ | ⟨rfl, -, c, cs₀, cs₁, -, -, -, rfl⟩
    · obtain rfl := List.mem_singleton.1 ht
      exact hjumps (by simp) rfl
    · obtain rfl := List.mem_singleton.1 ht
      exact hfalls (by simp) rfl
    · simp only [List.mem_cons, List.not_mem_nil, or_false] at ht
      rcases ht with rfl | rfl
      · exact hfalls (by simp) rfl
      · exact hjumps (by simp) rfl
  · by_cases hJSR : ir.instID = .JSR
    · rw [execute, hJSR] at h
      obtain ⟨m', hrun, h⟩ := Except.bind_eq_ok_iff.1 h
      cases h
      obtain rfl := List.mem_singleton.1 ht
      rw [executeSimple, hJSR] at hrun
      cases hrun
      simp only [InstValue.successors, hJSR, List.mem_singleton, ← haddr]
      rfl
    · have hjump : ir.isJump = false := by
        unfold InstValue.isJump
        cases hid : ir.instID <;> simp_all
      rw [(mem_execute h ht).keeps.pc hjump, haddr]
      unfold InstValue.successors
      cases hid : ir.instID <;> simp_all

end Executor

/-! ## The condition on a run -/

/-- There is no `JMP` through R0 to R6 and no `JSRR`. -/
def Program.DirectOnly (p : Program) : Prop :=
  ∀ addr i, (FlowGraph.userInsts p.mem).lookup addr = some i →
    (i.instID = .JMP → i.baseR = 7) ∧ i.instID ≠ .JSRR

/-- A state that is at a user instruction after a `TRAP` is right behind it, and the `TRAP`
is one of those that come back. -/
def State.TrapsBack (mem : List (Word × MemValue)) (t : State) : Prop :=
  t.stackHasMessedUp = false → ∀ i, t.latestNonOSInst.1 = some i → i.instID = .TRAP →
    ((FlowGraph.userInsts mem).lookup t.pc).isSome →
    i.vec8 ∈ FlowGraph.returningVectors ∧ t.pc = i.addr + 1

/-- The graph that the constructor of `FlowGraph` makes of a program. -/
def Program.graph (p : Program) : FlowGraph :=
  FlowGraph.build p.mem p.initPC

/-- The main code starts inside itself. -/
theorem Program.inside_main (p : Program) (hmem : Loaded p.mem)
    (hnode : (p.graph.getNodeByAddr p.initPC).isSome) : p.graph.Inside p.initPC p.initPC := by
  have hgraph : p.graph.initPC = p.initPC := (FlowGraph.build_sound hmem _).2.2.1
  rw [← hgraph] at hnode ⊢
  exact ⟨.main hnode, .refl⟩

/-! ## The colours of the constructor -/

/-- The colours of the constructor are there, and their subroutines are known. -/
structure FlowAnalysis.HasStatic (p : Program) (fa : FlowAnalysis) : Prop where
  nodes : fa.fg.nodes = FlowGraph.userInsts p.mem
  colored : ∀ node color, p.graph.Inside color node → fa.hasColor node color = true
  knows : ∀ color, p.graph.Entry color → fa.Knows color

namespace FlowAnalysis.HasStatic

variable {fa fa' : FlowAnalysis} {p : Program}

theorem paints (h : fa.HasStatic p) (hpaints : fa.Paints fa') : fa'.HasStatic p where
  nodes := hpaints.nodes.trans h.nodes
  colored node color hinside := hpaints.hasColor (h.colored node color hinside)
  knows color hentry := hpaints.knows color (h.knows color hentry)

theorem new (hmem : Loaded p.mem) (h : FlowAnalysis.new p.mem p.initPC = .ok fa) :
    fa.HasStatic p := by
  obtain ⟨hmarks, hknows⟩ := FlowAnalysis.new_marks h
  refine ⟨(FlowAnalysis.new_spec hmem h).2.1, fun node color => (hmarks node color).2, ?_⟩
  intro color hentry
  exact hknows (color, color) (FlowAnalysis.mem_marks.2 ((hmarks color color).2 ⟨hentry, .refl⟩))

theorem getNodeByAddr (hmem : Loaded p.mem) (h : fa.HasStatic p) (addr : Word) :
    fa.fg.getNodeByAddr addr = p.graph.getNodeByAddr addr := by
  rw [FlowGraph.getNodeByAddr, FlowGraph.getNodeByAddr, h.nodes]
  exact congrArg (List.lookup addr) (FlowGraph.build_sound hmem p.initPC).2.1.symm

end FlowAnalysis.HasStatic

/-! ## The invariant of a state -/

/-- The calls of a state are made inside the subroutines that they were coloured for, and
the state is inside the last of them. -/
structure State.StaysInside (fg : FlowGraph) (initPC : Word) (s : State) : Prop where
  nested : s.callStack.Nested initPC fun i color =>
    fg.getNodeByAddr i.addr = some i ∧ fg.Inside color i.addr
  atPC : (fg.getNodeByAddr s.pc).isSome → ∀ color ∈ s.colorStack.head?, fg.Inside color s.pc
  trapped : ∀ i, s.latestNonOSInst.1 = some i → i.instID = .TRAP →
    fg.getNodeByAddr i.addr = some i ∧ ∀ color ∈ s.colorStack.head?, fg.Inside color i.addr
  called : ∀ i, s.latestNonOSInst.1 = some i → i.isCall = true →
    (fg.getNodeByAddr s.pc).isSome → s.colorStack.head? = some s.pc

theorem SubroutineTracker.pc_of_returnsProperly {pc : Word} {top : InstValue}
    (h : returnsProperly pc top = true) : top.addr ≠ 0xFFFF ∧ pc = top.addr + 1 := by
  unfold returnsProperly at h
  have heq : (top.addr.toNat : Int) = (pc.toNat : Int) - 1 := by simpa using h
  have hlt := pc.isLt
  constructor
  · intro hlast
    rw [hlast] at heq
    simp at heq
    omega
  · apply BitVec.eq_of_toNat_eq
    rw [BitVec.toNat_add]
    simp
    omega

namespace FlowGraph

variable {mem : List (Word × MemValue)} {initPC pc color : Word} {i : InstValue}

/-- Where an instruction leads that is no call, `RET` or `TRAP`, the graph leads too. -/
theorem Inside.successor (hmem : Loaded mem)
    (hnode : (FlowGraph.build mem initPC).getNodeByAddr i.addr = some i)
    (h : (FlowGraph.build mem initPC).Inside color i.addr) (hcall : i.isCall = false)
    (hret : i.isRET = false) (hpc : ((FlowGraph.build mem initPC).getNodeByAddr pc).isSome)
    (hsucc : some pc ∈ i.successors) : (FlowGraph.build mem initPC).Inside color pc := by
  have hstatic := (build_sound hmem initPC).1.static i.addr i hnode
  refine h.flows (.along hnode hcall hret (hstatic (some pc) hsucc ?_))
  rintro addr heq
  cases heq
  exact hpc

end FlowGraph

namespace Executor

variable {ex : Executor} {pkg : IssuePackage} {r : StepResult} {s t : State}
variable {executed : InstValue} {p : Program} {k : CallStack} {color : Word}

/-- Where the last user instruction of a result comes from: it was executed in this step,
OS code was executed after it, or nothing was executed. -/
inductive LastUser (ex : Executor) (s : State) (t : State) (executed : InstValue) : Prop
  | user (hfetch : s.mem.read s.pc = some (.inst executed)) (huser : executed.belongsToOS = false)
      (hpc : executed.addr = s.pc → executed.instID ≠ .JMP → executed.instID ≠ .JSRR →
        executed.instID ≠ .TRAP → some t.pc ∈ executed.successors)
  | os (i : InstValue) (hfetch : s.mem.read s.pc = some (.inst i)) (hos : i.belongsToOS = true)
      (hlatest : s.latestNonOSInst.1 = some executed)
  | none (hpc : t.pc = s.pc) (hlatest : s.latestNonOSInst.1 = some executed)
      (hbroken : t.status = .broken)

theorem step_lastUser (hnormal : s.status = .normal) (h : ex.step ⟨s, pkg⟩ = .ok r)
    (ht : t ∈ r.states) (hexec : t.latestNonOSInst.1 = some executed) :
    LastUser ex s t executed := by
  rcases step_eq_ok h with ⟨type, note, m', -, hraise, hbroken, rfl⟩ | ⟨ir, hread, h⟩
  · obtain rfl := List.mem_singleton.1 ht
    have hreads := Mach.newStateIssue_reads hraise
    exact .none hreads.pc (by rw [← hreads.path.latestNonOSInst] at *; exact hexec) hbroken
  · rcases h with ⟨hne, -⟩ | ⟨-, h⟩
    · exact absurd hnormal hne
    · have hlatest : t.latestNonOSInst = if ir.belongsToOS then s.latestNonOSInst
          else (some ir, s.latestNonOSInst.1) := (mem_execute h ht).keeps.path.latestNonOSInst
      rw [hlatest] at hexec
      split at hexec
      · rename_i hos
        exact .os ir hread hos hexec
      · rename_i huser
        cases hexec
        refine .user hread (by simpa using huser) fun haddr hJMP hJSRR hTRAP => ?_
        exact execute_pc h ht (by rw [haddr]; rfl) hJMP hJSRR hTRAP

end Executor

namespace State.StaysInside

variable {ex : Executor} {s t : State} {executed : InstValue} {p : Program} {k : CallStack}

/-- A `TRAP` that comes back stays inside. -/
theorem trap_back (hmem : Loaded p.mem) (hnode : p.graph.getNodeByAddr executed.addr = some executed)
    {color pc : Word} (hinside : p.graph.Inside color executed.addr) (hid : executed.instID = .TRAP)
    (hpc : (p.graph.getNodeByAddr pc).isSome)
    (hback : executed.vec8 ∈ FlowGraph.returningVectors ∧ pc = executed.addr + 1) :
    p.graph.Inside color pc := by
  refine FlowGraph.Inside.successor hmem hnode hinside (by simp [InstValue.isCall, hid])
    (by simp [InstValue.isRET, hid]) hpc ?_
  simp only [InstValue.successors, hid, if_pos hback.1, hback.2]
  exact List.mem_singleton.2 rfl

/-- When the tracker has moved the stacks, the node at the PC is inside the subroutine on
top. -/
theorem transferred (hmem : Loaded p.mem) (hdirect : p.DirectOnly) (hs : s.StaysInside p.graph p.initPC)
    (hplaced : ∀ i, s.mem.read s.pc = some (.inst i) → i.belongsToOS = false →
      i.addr = s.pc ∧ p.graph.getNodeByAddr s.pc = some i)
    (htrap : s.OnlyByTrap) (hback : t.TrapsBack p.mem) (hmessed : t.stackHasMessedUp = false)
    (hexec : t.latestNonOSInst.1 = some executed) (hlast : Executor.LastUser ex s t executed)
    (hnode : (p.graph.getNodeByAddr t.pc).isSome)
    (htransfer : CallStack.Transfers executed t.pc s.callStack k) (hk : k.messedUp = false) :
    ∀ color ∈ k.colors.head?, p.graph.Inside color t.pc := by
  have hnodes : p.graph.nodes = FlowGraph.userInsts p.mem := (FlowGraph.build_sound hmem p.initPC).2.1
  have hback' : executed.instID = .TRAP →
      executed.vec8 ∈ FlowGraph.returningVectors ∧ t.pc = executed.addr + 1 := by
    intro hid
    refine hback hmessed executed hexec hid ?_
    rw [FlowGraph.getNodeByAddr, hnodes] at hnode
    exact hnode
  have hlookup : ∀ {addr : Word} {i : InstValue}, p.graph.getNodeByAddr addr = some i →
      (FlowGraph.userInsts p.mem).lookup addr = some i := by
    intro addr i hi
    rw [FlowGraph.getNodeByAddr, hnodes] at hi
    exact hi
  intro color hcolor
  generalize hstack : s.callStack = k₀ at htransfer
  cases htransfer with
  | @calls cs js b hcall =>
      obtain rfl : t.pc = color := by simpa using hcolor
      cases hlast with
      | user hfetch huser hpc =>
          obtain ⟨haddr, hat⟩ := hplaced executed hfetch huser
          have hJSR : executed.instID = .JSR := by
            have hno : executed.instID ≠ .JSRR := (hdirect s.pc executed (hlookup hat)).2
            simpa [InstValue.isCall, hno] using hcall
          have hsucc := hpc haddr (by simp [hJSR]) (by simp [hJSR]) (by simp [hJSR])
          simp only [InstValue.successors, hJSR, List.mem_singleton, Option.some.injEq] at hsucc
          obtain ⟨top, htop⟩ := hs.nested.head
          have hinside := hs.atPC (by rw [hat]; rfl) top htop
          rw [hsucc] at hnode ⊢
          exact hinside.calls (FlowGraph.build_calls hmem hat hJSR hnode)
      | os i hfetch hos hlatest =>
          obtain ⟨j, hj, hid⟩ := htrap i hfetch hos
          rw [hlatest] at hj
          cases hj
          simp [InstValue.isCall, hid] at hcall
      | none hpc hlatest _ =>
          rw [hpc] at hnode ⊢
          exact hs.atPC hnode s.pc (hs.called executed hlatest hcall hnode)
  | @returns c color' cs top js hret hproper =>
      obtain rfl : color' = color := by simpa using hcolor
      obtain ⟨hcall, hat, hinside⟩ := hs.nested.calls (top, color') (by simp [hstack])
      obtain ⟨hlast, hpc⟩ := SubroutineTracker.pc_of_returnsProperly hproper
      exact hinside.flows (.behind hat hcall (FlowGraph.mem_behind.2 ⟨hlast, hpc, hnode⟩))
  | improper => cases hk
  | ignored => cases hk
  | inMain => cases hk
  | other hcall hret =>
      have hcolor' : color ∈ s.colorStack.head? := by
        rw [← hstack] at hcolor
        exact hcolor
      cases hlast with
      | user hfetch huser hpc =>
          obtain ⟨haddr, hat⟩ := hplaced executed hfetch huser
          have hinside := hs.atPC (by rw [hat]; rfl) color hcolor'
          obtain ⟨hJMP, hJSRR⟩ := hdirect s.pc executed (hlookup hat)
          rw [← haddr] at hat hinside
          by_cases hTRAP : executed.instID = .TRAP
          · exact trap_back hmem hat hinside hTRAP hnode (hback' hTRAP)
          · have hno : executed.instID ≠ .JMP := fun hid => by
              simp [InstValue.isRET, hid, hJMP hid] at hret
            exact FlowGraph.Inside.successor hmem hat hinside hcall hret hnode
              (hpc haddr hno hJSRR hTRAP)
      | os i hfetch hos hlatest =>
          obtain ⟨j, hj, hid⟩ := htrap i hfetch hos
          rw [hlatest] at hj
          cases hj
          obtain ⟨hat, hinside⟩ := hs.trapped executed hlatest hid
          exact trap_back hmem hat (hinside color hcolor') hid hnode (hback' hid)
      | none hpc hlatest _ =>
          rw [hpc] at hnode ⊢
          exact hs.atPC hnode color hcolor'

/-- An iteration keeps a state inside. -/
theorem retraces {fa fa' : FlowAnalysis} {pkg : IssuePackage} {r : StepResult} {t' : State}
    (hmem : Loaded p.mem) (hdirect : p.DirectOnly) (hfa : fa.HasStatic p)
    (hnormal : s.status = .normal) (hs : s.stackHasMessedUp = false → s.StaysInside p.graph p.initPC)
    (hplaced : ∀ i, s.mem.read s.pc = some (.inst i) → i.belongsToOS = false →
      i.addr = s.pc ∧ p.graph.getNodeByAddr s.pc = some i)
    (htrap : s.OnlyByTrap) (hback : t.TrapsBack p.mem) (hstep : ex.step ⟨s, pkg⟩ = .ok r)
    (ht : t ∈ r.states) (hretraces : Session.Retraces fa fa' t t') (hbroken : t.status ≠ .broken)
    (hmessed : t'.stackHasMessedUp = false) : t'.StaysInside p.graph p.initPC := by
  have hpc : t'.pc = t.pc := State.core_congr State.pc hretraces.core fun _ => rfl
  have hlatest : t'.latestNonOSInst = t.latestNonOSInst :=
    State.core_congr State.latestNonOSInst hretraces.core fun _ => rfl
  have hsteps := Executor.mem_step hstep ht
  have htransfers := hretraces.transfers
  rw [hpc, hlatest, hfa.getNodeByAddr hmem] at htransfers
  have htmessed : t.stackHasMessedUp = false := by
    rcases htransfers with ⟨-, heq⟩ | ⟨executed, -, -, htransfer⟩
    · exact (congrArg CallStack.messedUp heq).symm.trans hmessed
    · exact htransfer.messedUp hmessed
  have hstack := hsteps.callStack_eq htmessed
  have hinside := hs ((congrArg CallStack.messedUp hstack).symm.trans htmessed)
  rw [hstack] at htransfers
  -- The last user instruction is inside, unless it was executed before OS code.
  have huser : ∀ i, t.latestNonOSInst.1 = some i → i.instID = .TRAP ∨ i.isCall = true →
      p.graph.getNodeByAddr i.addr = some i ∧
        ∀ color ∈ s.colorStack.head?, p.graph.Inside color i.addr := by
    intro i hi hkind
    cases Executor.step_lastUser hnormal hstep ht hi with
    | user hfetch huser _ =>
        obtain ⟨haddr, hat⟩ := hplaced i hfetch huser
        rw [haddr]
        exact ⟨hat, hinside.atPC (by rw [hat]; rfl)⟩
    | os j hfetch hos hold =>
        obtain ⟨k, hk, hid⟩ := htrap j hfetch hos
        rw [hold] at hk
        cases hk
        exact hinside.trapped i hold hid
    | none _ _ hfails => exact absurd hfails hbroken
  have hkept : ∀ i, t.latestNonOSInst.1 = some i → i.instID = .TRAP →
      t'.callStack = s.callStack := by
    intro i hi hid
    rcases htransfers with ⟨-, heq⟩ | ⟨executed, hexec, -, htransfer⟩
    · exact heq
    · rw [hi] at hexec
      cases hexec
      exact htransfer.of_other (by simp [InstValue.isCall, hid]) (by simp [InstValue.isRET, hid])
  constructor
  · rcases htransfers with ⟨-, heq⟩ | ⟨executed, hexec, -, htransfer⟩
    · rw [heq]
      exact hinside.nested
    · refine htransfer.nested hinside.nested (fun hcall color hcolor => ?_) hmessed
      obtain ⟨hat, hin⟩ := huser executed hexec (.inr hcall)
      exact ⟨hat, hin color hcolor⟩
  · intro hnode
    rw [hpc] at hnode ⊢
    rcases htransfers with ⟨hidle, -⟩ | ⟨executed, hexec, -, htransfer⟩
    · rcases hidle with hnone | hnone
      · -- Nothing was executed but OS code, which no `TRAP` has led to.
        obtain ⟨ir, hfetch, hlast⟩ := hsteps.latest hnormal hbroken
        rw [hlast] at hnone
        split at hnone
        · rename_i hos
          obtain ⟨i, hi, -⟩ := htrap ir hfetch hos
          rw [show s.latestNonOSInst.1 = none from hnone] at hi
          cases hi
        · cases hnone
      · rw [hnone] at hnode
        cases hnode
    · exact transferred hmem hdirect hinside hplaced htrap hback htmessed hexec
        (Executor.step_lastUser hnormal hstep ht hexec) hnode htransfer hmessed
  · intro i hi hid
    rw [hlatest] at hi
    obtain ⟨hat, hin⟩ := huser i hi (.inl hid)
    refine ⟨hat, fun color hcolor => hin color ?_⟩
    rw [show t'.colorStack = s.colorStack from congrArg CallStack.colors (hkept i hi hid)] at hcolor
    exact hcolor
  · intro i hi hcall hnode
    rw [hlatest] at hi
    rw [hpc] at hnode ⊢
    rcases htransfers with ⟨hidle, -⟩ | ⟨executed, hexec, -, htransfer⟩
    · rcases hidle with hnone | hnone
      · rw [hi] at hnone
        cases hnone
      · rw [hnone] at hnode
        cases hnode
    · rw [hi] at hexec
      cases hexec
      exact (htransfer.of_call hcall).1

end State.StaysInside

/-! ## The tracker adds nothing -/

namespace FlowAnalysis.HasStatic

variable {fa fa' : FlowAnalysis} {p : Program}

/-- After a step that stays inside, `updateColors` finds every node coloured. -/
theorem updateColors_marks {ex : Executor} {pkg pkg₁ : IssuePackage} {r : StepResult} {s t u : State}
    {m : Mach} (hmem : Loaded p.mem) (hdirect : p.DirectOnly) (hfa : fa.HasStatic p)
    (hnormal : s.status = .normal) (hs : s.stackHasMessedUp = false → s.StaysInside p.graph p.initPC)
    (hplaced : ∀ i, s.mem.read s.pc = some (.inst i) → i.belongsToOS = false →
      i.addr = s.pc ∧ p.graph.getNodeByAddr s.pc = some i)
    (htrap : s.OnlyByTrap) (hback : t.TrapsBack p.mem) (hstep : ex.step ⟨s, pkg⟩ = .ok r)
    (ht : t ∈ r.states) (hcore : u.core = t.core) (hstacks : u.callStack = t.callStack)
    (hmessed : u.stackHasMessedUp = false)
    (h : SubroutineTracker.updateColors fa ⟨u, pkg₁⟩ = .ok (fa', m)) : fa'.marks = fa.marks := by
  have htmessed : t.stackHasMessedUp = false :=
    (congrArg CallStack.messedUp hstacks).symm.trans hmessed
  have hstack := (Executor.mem_step hstep ht).callStack_eq htmessed
  have hinside := hs ((congrArg CallStack.messedUp hstack).symm.trans htmessed)
  have hpc : u.pc = t.pc := State.core_congr State.pc hcore fun _ => rfl
  have hlatest : u.latestNonOSInst = t.latestNonOSInst :=
    State.core_congr State.latestNonOSInst hcore fun _ => rfl
  rcases SubroutineTracker.updateColors_eq_ok h with
    ⟨-, rfl, -⟩ | ⟨executed, fa₁, hexec, hnode, hinst, hcolor⟩
  · rfl
  obtain ⟨htransfer, hspread, -⟩ := SubroutineTracker.updateOnInst_transfers hinst
  have hpcm : m.s.pc = u.pc :=
    State.core_congr State.pc (SubroutineTracker.updateOnInst_tracked hinst).core fun _ => rfl
  dsimp only at hexec hnode htransfer hspread hpcm
  rw [hfa.getNodeByAddr hmem, hpc] at hnode
  rw [hlatest] at hexec
  rw [hstacks, hstack, hpc] at htransfer
  have hafter : m.s.stackHasMessedUp = false → ∀ color ∈ m.s.colorStack.head?,
      p.graph.Inside color t.pc := fun hm =>
    hinside.transferred hmem hdirect hplaced htrap hback htmessed hexec
      (Executor.step_lastUser hnormal hstep ht hexec) hnode htransfer hm
  -- A subroutine that is called is known.
  have hmarks : fa₁.marks = fa.marks := by
    rw [if_neg] at hspread
    · exact hspread.eq_of_nil
    · rintro ⟨hcall, hunknown⟩
      obtain ⟨hhead, hflag⟩ := htransfer.of_call hcall
      have hflag' : m.s.stackHasMessedUp = false :=
        hflag.trans ((congrArg CallStack.messedUp hstack).symm.trans htmessed)
      have hknows := hfa.knows t.pc (hafter hflag' t.pc hhead).1
      rw [hpc] at hunknown
      rw [FlowAnalysis.Knows, Option.isSome_iff_ne_none] at hknows
      exact hknows (Option.isNone_iff_eq_none.1 hunknown)
  rcases hcolor with ⟨-, rfl⟩ | ⟨hm, color, cs, hcs, hcolor⟩
  · exact hmarks
  · have hseen : fa₁.hasColor m.s.pc color = true := by
      rw [← FlowAnalysis.mem_marks, hmarks, hpcm, hpc]
      exact hfa.colored t.pc color (hafter hm color (by rw [hcs]; rfl))
    rw [FlowAnalysis.color_seen hseen] at hcolor
    cases hcolor
    exact hmarks

end FlowAnalysis.HasStatic

namespace Session

variable {fa fa' : FlowAnalysis} {pkg pkg' : IssuePackage} {states states' : List State} {p : Program}

theorem updateAllColors_marks (hfa : fa.HasStatic p)
    (hstates : ∀ u ∈ states, ∀ (fa fa' : FlowAnalysis) pkg m, fa.HasStatic p →
      SubroutineTracker.updateColors fa ⟨u, pkg⟩ = .ok (fa', m) → fa'.marks = fa.marks)
    (h : updateAllColors fa pkg states = .ok (fa', pkg', states')) : fa'.marks = fa.marks := by
  induction states generalizing fa pkg states' with
  | nil =>
      cases h
      rfl
  | cons s rest ih =>
      obtain ⟨⟨fa₁, m⟩, hupdate, h⟩ := Except.bind_eq_ok_iff.1 h
      obtain ⟨⟨fa₂, pkg₁, rest'⟩, hrest, h⟩ := Except.bind_eq_ok_iff.1 h
      cases h
      have hmarks := hstates s (List.mem_cons_self ..) fa fa₁ pkg m hfa hupdate
      rw [← hmarks]
      exact ih (hfa.paints (SubroutineTracker.updateColors_paints hupdate))
        (fun u hu => hstates u (List.mem_cons_of_mem s hu)) hrest

end Session

namespace Exploration

variable {fuel : Nat} {solver : Solver} {o : Options} {gold : Option Gold} {E₀ E E' : Exploration}

/-- A step in which OS code is only entered by a `TRAP`, and after which a `TRAP` has come
back right behind itself if it has come back at all. -/
structure StaysStatic (o : Options) (E : Exploration) (s : State) : Prop where
  onlyByTrap : s.OnlyByTrap
  trapsBack : ∀ r, E.session.ex.step ⟨s, E.session.pkg⟩ = .ok r →
    ∀ t ∈ r.states, t.TrapsBack o.test.mem

structure StaticInv (o : Options) (E : Exploration) : Prop where
  fa : E.session.fa.HasStatic o.test
  inside : ∀ s ∈ E.frontier, s.status = .normal → s.stackHasMessedUp = false →
    s.StaysInside o.test.graph o.test.initPC

theorem Starts.staticInv (hmem : Loaded o.test.mem) (h : E.Starts solver o gold) :
    E.StaticInv o := by
  obtain ⟨fa, ex, s₀, hnew, hinit, -, -, -, hfa, -, -, -, -, hfrontier⟩ := h
  obtain ⟨cs, rfl⟩ := Executor.createInitState_init hinit
  have hinitPC : fa.fg.initPC = o.test.initPC := (FlowAnalysis.new_spec hmem hnew).2.2.1
  constructor
  · rw [hfa]
    exact (FlowAnalysis.HasStatic.new hmem hnew).paints FlowAnalysis.setupInitState_paints
  · intro s hs _ _
    rw [hfrontier] at hs
    obtain rfl := List.mem_singleton.1 hs
    refine ⟨⟨rfl, congrArg some hinitPC, fun p hp => ?_⟩, fun hnode color hcolor => ?_,
      fun i hi => (by cases hi), fun i hi => (by cases hi)⟩
    · exact absurd hp (by simp [FlowAnalysis.setupInitState, State.callStack, State.init])
    · obtain rfl : fa.fg.initPC = color := by
        simpa [FlowAnalysis.setupInitState, State.init] using hcolor
      rw [hinitPC]
      exact o.test.inside_main hmem hnode

/-- A user instruction at the PC is a node of the graph that the program started with. -/
theorem Reaches.placed_graph (hmem : Loaded o.test.mem) (hstart : E₀.Starts solver o gold)
    (hreach : E₀.Reaches fuel E) (hinv : E.StaticInv o) {s : State} (hs : s ∈ E.frontier) :
    ∀ i, s.mem.read s.pc = some (.inst i) → i.belongsToOS = false →
      i.addr = s.pc ∧ o.test.graph.getNodeByAddr s.pc = some i := by
  intro i hread huser
  obtain ⟨haddr, hat⟩ := Reaches.placed hmem hstart hreach s hs s.pc i hread huser
  rw [hinv.fa.getNodeByAddr hmem] at hat
  exact ⟨haddr, hat⟩

theorem NextAt.staticInv {before after states : List State} {s : State} (hmem : Loaded o.test.mem)
    (hdirect : o.test.DirectOnly) (hstart : E₀.Starts solver o gold) (hreach : E₀.Reaches fuel E)
    (hinv : E.StaticInv o) (hstays : E.StaysStatic o s)
    (hnext : NextAt fuel E before s after states E') : E'.StaticInv o := by
  obtain ⟨hfrontier, hadvance, hfrontier'⟩ := hnext
  obtain ⟨r, hnormal, hstep, hpaints, hresults⟩ := Session.advance_retraces hadvance
  have hs : s ∈ E.frontier := by simp [hfrontier]
  refine ⟨hinv.fa.paints hpaints, fun u hu hunormal hmessed => ?_⟩
  rw [hfrontier', List.mem_append] at hu
  rcases hu with hu | hu
  · refine hinv.inside u ?_ hunormal hmessed
    rw [hfrontier]
    rcases List.mem_append.1 hu with hu | hu <;> simp [hu]
  · obtain ⟨t, ht, hretraces⟩ := hresults u hu
    refine State.StaysInside.retraces hmem hdirect hinv.fa hnormal (hinv.inside s hs hnormal)
      (Reaches.placed_graph hmem hstart hreach hinv hs) hstays.onlyByTrap
      (hstays.trapsBack r hstep t ht) hstep ht hretraces (fun hbroken => ?_) hmessed
    rw [hretraces.broken hbroken] at hunormal
    cases hunormal

theorem ReachesWhen.staticInv (hmem : Loaded o.test.mem) (hdirect : o.test.DirectOnly)
    (hstart : E₀.Starts solver o gold) (hreach : ReachesWhen (StaysStatic o) fuel E₀ E) :
    E.StaticInv o := by
  induction hreach with
  | refl => exact hstart.staticInv hmem
  | tail hreach hnext ih =>
      obtain ⟨before, s, after, states, hnext, hstays⟩ := hnext
      exact hnext.staticInv hmem hdirect hstart (ReachesWhen.reaches hreach) ih hstays

/-- In an iteration that meets the condition, `updateColors` adds no colour for a result
whose stacks are in order. -/
theorem StaticInv.updateColors_marks {s u : State} {r : StepResult} {fa fa₁ fa₂ : FlowAnalysis}
    {states : List State} {pkg : IssuePackage} {m : Mach} (hmem : Loaded o.test.mem)
    (hdirect : o.test.DirectOnly) (hstart : E₀.Starts solver o gold) (hreach : E₀.Reaches fuel E)
    (hinv : E.StaticInv o) (hs : s ∈ E.frontier) (hnormal : s.status = .normal)
    (hstays : E.StaysStatic o s) (hstep : E.session.ex.step ⟨s, E.session.pkg⟩ = .ok r)
    (hcoverage : Session.updateCoverage E.session.fa r.states = .ok (fa, states))
    (hu : u ∈ states) (hmessed : u.stackHasMessedUp = false) (hfa₁ : fa₁.HasStatic o.test)
    (h : SubroutineTracker.updateColors fa₁ ⟨u, pkg⟩ = .ok (fa₂, m)) : fa₂.marks = fa₁.marks := by
  obtain ⟨t, ht, hcore, hstacks, -⟩ := (Session.updateCoverage_stacks hcoverage).exists_left hu
  exact hfa₁.updateColors_marks hmem hdirect hnormal (hinv.inside s hs hnormal)
    (Reaches.placed_graph hmem hstart hreach hinv hs) hstays.onlyByTrap
    (hstays.trapsBack r hstep t ht) hstep ht hcore hstacks hmessed h

/-- The condition, with the stacks in order after the step. -/
def StaysInOrder (o : Options) (E : Exploration) (s : State) : Prop :=
  E.StaysStatic o s ∧ ∀ r, E.session.ex.step ⟨s, E.session.pkg⟩ = .ok r →
    ∀ t ∈ r.states, t.stackHasMessedUp = false

theorem ReachesWhen.imp {C C' : Exploration → State → Prop} (himp : ∀ E s, C E s → C' E s)
    (h : ReachesWhen C fuel E E') : ReachesWhen C' fuel E E' := by
  induction h with
  | refl => exact .refl
  | tail _ hnext ih =>
      obtain ⟨before, s, after, states, hnext, hC⟩ := hnext
      exact ih.tail ⟨before, s, after, states, hnext, himp _ _ hC⟩

/-- As long as no stacks are messed up, the colours are those that the constructor gave. -/
theorem ReachesWhen.static_marks (hmem : Loaded o.test.mem) (hdirect : o.test.DirectOnly)
    (hstart : E₀.Starts solver o gold) (hreach : ReachesWhen (StaysInOrder o) fuel E₀ E) :
    ∀ node color, E.session.fa.hasColor node color = true ↔ o.test.graph.Inside color node := by
  induction hreach with
  | refl =>
      intro node color
      refine ⟨fun h => ?_, (hstart.staticInv hmem).fa.colored node color⟩
      obtain ⟨fa, ex, s₀, hnew, -, -, -, -, hfa, -⟩ := hstart
      have hmarks : fa.hasColor node color = true ↔ o.test.graph.Inside color node :=
        (FlowAnalysis.new_marks hnew).1 node color
      rw [hfa] at h
      unfold FlowAnalysis.setupInitState at h
      dsimp only at h
      split at h
      · rename_i hinit
        rw [← FlowAnalysis.mem_marks, FlowAnalysis.marks_insertColor] at h
        rcases h with heq | h
        · cases heq
          have hinitPC : fa.fg.initPC = o.test.initPC := (FlowAnalysis.new_spec hmem hnew).2.2.1
          rw [(FlowAnalysis.HasStatic.new hmem hnew).getNodeByAddr hmem, hinitPC] at hinit
          rw [hinitPC]
          exact o.test.inside_main hmem hinit
        · exact hmarks.1 h
      · exact hmarks.1 h
  | @tail E E' hreach hnext ih =>
      obtain ⟨before, s, after, states, ⟨hfrontier, hadvance, -⟩, hstays, horder⟩ := hnext
      have hinv := ReachesWhen.staticInv hmem hdirect hstart
        (ReachesWhen.imp (fun _ _ h => h.1) hreach)
      have hreaches := ReachesWhen.reaches hreach
      have hs : s ∈ E.frontier := by simp [hfrontier]
      obtain ⟨hnormal, r, fa₁, states₁, fa₂, pkg₂, states₂, hstep, hcoverage, hcolors, hcheck⟩ :=
        Session.advance_eq_ok hadvance
      have hfa : E'.session.fa = fa₂ := (Session.checkResults_follows hcheck).2.2.1
      have hcovered : fa₁.marks = E.session.fa.marks :=
        FlowAnalysis.marks_congr (Session.updateCoverage_colors hcoverage).1
      have hmarks : fa₂.marks = fa₁.marks := by
        refine Session.updateAllColors_marks
          (hinv.fa.paints (Session.updateCoverage_paints hcoverage)) ?_ hcolors
        intro u hu fa fa' pkg m hstatic hupdate
        refine hinv.updateColors_marks hmem hdirect hstart hreaches hs hnormal hstays hstep hcoverage
          hu ?_ hstatic hupdate
        obtain ⟨t, ht, -, hstacks, -⟩ := (Session.updateCoverage_stacks hcoverage).exists_left hu
        exact (congrArg CallStack.messedUp hstacks).trans (horder r hstep t ht)
      intro node color
      rw [← ih, hfa, ← FlowAnalysis.mem_marks, hmarks, hcovered]
      rfl

/-- The constructor returns exactly for the programs that fit, and then a node has the colours
of the subroutines that it is inside of. In a program without indirect jumps and calls, and in
every run in which OS code is entered by `TRAP` and left right behind it, `updateColors` adds
no colour for a state whose stacks are in order, and without messed up stacks the colours stay
those of the constructor. -/
theorem static_colors (hmem : Loaded o.test.mem) :
    ((∃ fa, FlowAnalysis.new o.test.mem o.test.initPC = .ok fa) ↔ o.test.graph.Fits) ∧
    (∀ fa, FlowAnalysis.new o.test.mem o.test.initPC = .ok fa → ∀ node color,
      fa.hasColor node color = true ↔ o.test.graph.Inside color node) ∧
    (o.test.DirectOnly → ∀ (solver : Solver) (gold : Option Gold) (fuel : Nat) (E₀ E : Exploration),
      E₀.Starts solver o gold →
      (E₀.ReachesWhen (StaysStatic o) fuel E →
        ∀ s ∈ E.frontier, s.status = .normal → E.StaysStatic o s →
        ∀ r fa before u after fa₁ pkg₁ done fa₂ m,
          E.session.ex.step ⟨s, E.session.pkg⟩ = .ok r →
          Session.updateCoverage E.session.fa r.states = .ok (fa, before ++ u :: after) →
          Session.updateAllColors fa r.pkg before = .ok (fa₁, pkg₁, done) →
          u.stackHasMessedUp = false →
          SubroutineTracker.updateColors fa₁ ⟨u, pkg₁⟩ = .ok (fa₂, m) →
          ∀ node color, fa₂.hasColor node color = fa₁.hasColor node color) ∧
      (E₀.ReachesWhen (StaysInOrder o) fuel E → ∀ node color,
        E.session.fa.hasColor node color = true ↔ o.test.graph.Inside color node)) := by
  refine ⟨FlowAnalysis.new_isOk_iff hmem o.test.initPC,
    fun fa hnew => (FlowAnalysis.new_marks hnew).1, fun hdirect solver gold fuel E₀ E hstart => ?_⟩
  refine ⟨?_, ReachesWhen.static_marks hmem hdirect hstart⟩
  intro hreach s hs hnormal hstays r fa before u after fa₁ pkg₁ done fa₂ m hstep hcoverage hbefore
    hmessed hupdate node color
  have hinv := ReachesWhen.staticInv hmem hdirect hstart hreach
  have hfa₁ := (hinv.fa.paints (Session.updateCoverage_paints hcoverage)).paints
    (Session.updateAllColors_paints hbefore)
  have hmarks := hinv.updateColors_marks hmem hdirect hstart (ReachesWhen.reaches hreach) hs hnormal
    hstays hstep hcoverage (List.mem_append_right _ (List.mem_cons_self ..)) hmessed hfa₁ hupdate
  rw [Bool.eq_iff_iff, ← FlowAnalysis.mem_marks, ← FlowAnalysis.mem_marks, hmarks]

end Exploration

/-- A program whose subroutine comes right behind the end of its main code. -/
def Program.trailing : Program where
  mem :=
    [(0x3000, .inst ⟨0x3000, 0x4801, ⟨.JSR, .L, 0xF800, 0x4800⟩, matchInst_call, false, [],
        "trailing.asm", 1, "JSR SUB"⟩),
     (0x3001, .inst ⟨0x3001, 0xF025, ⟨.TRAP, .V, 0xFF00, 0xF000⟩, matchInst_halt, false, [],
        "trailing.asm", 2, "INSTANT_HALT"⟩),
     (0x3002, .inst ⟨0x3002, 0xC1C0, ⟨.JMP, .R, 0xFE3F, 0xC000⟩, matchInst_return, false, ["SUB"],
        "trailing.asm", 3, "SUB RET"⟩)]
  constraints := []
  initPC := 0x3000
  preferences := []

def Options.trailing : Options :=
  { Options.sample with test := .trailing }

theorem trailing_loaded : Loaded Options.trailing.test.mem := by
  refine ⟨by decide, fun addr i hi => ?_⟩
  simp only [Options.trailing, Program.trailing, List.mem_cons, List.not_mem_nil, or_false,
    Prod.mk.injEq, MemValue.inst.injEq] at hi
  rcases hi with ⟨rfl, rfl⟩ | ⟨rfl, rfl⟩ | ⟨rfl, rfl⟩ <;> rfl

theorem trailing_directOnly : Program.trailing.DirectOnly := by
  intro addr i hi
  have hmem := (FlowGraph.lookup_userInsts_iff trailing_loaded.keys).1 hi
  have hin := (lookup_eq_some_iff_mem trailing_loaded.keys).1 hmem.1
  simp only [Options.trailing, Program.trailing, List.mem_cons, List.not_mem_nil, or_false,
    Prod.mk.injEq, MemValue.inst.injEq] at hin
  rcases hin with ⟨rfl, rfl⟩ | ⟨rfl, rfl⟩ | ⟨rfl, rfl⟩ <;> decide

/-- A step to one result whose last user instruction is no `TRAP`. -/
theorem staysStatic_of_user {o : Options} {E : Exploration} {s t : State} {r : StepResult}
    {i j : InstValue} (hread : s.mem.read s.pc = some (.inst j)) (huser : j.belongsToOS = false)
    (hstep : E.session.ex.step ⟨s, E.session.pkg⟩ = .ok r) (hstates : r.states = [t])
    (hlatest : t.latestNonOSInst.1 = some i) (hid : i.instID ≠ .TRAP) : E.StaysStatic o s where
  onlyByTrap k hk hos := by
    rw [hread] at hk
    cases hk
    rw [huser] at hos
    cases hos
  trapsBack r' hr' t' ht' := by
    rw [hstep] at hr'
    cases hr'
    rw [hstates] at ht'
    obtain rfl := List.mem_singleton.1 ht'
    intro _ k hk htrap
    rw [hlatest] at hk
    cases hk
    exact absurd htrap hid

/-- The run of `Program.trailing` to its end. -/
theorem trailing_run : ∃ (E₀ E₁ E₂ : Exploration) (s₀ s₁ s₂ : State),
    E₀.Starts Solver.ideal .trailing none ∧ Exploration.NextAt 0 E₀ [] s₀ [] [s₁] E₁ ∧
    Exploration.NextAt 0 E₁ [] s₁ [] [s₂] E₂ ∧ E₀.StaysStatic .trailing s₀ ∧
    E₁.StaysStatic .trailing s₁ ∧ s₁.status = .normal ∧
    (∃ r fa u fa' m, E₁.session.ex.step ⟨s₁, E₁.session.pkg⟩ = .ok r ∧
      Session.updateCoverage E₁.session.fa r.states = .ok (fa, [u]) ∧
      u.stackHasMessedUp = false ∧
      SubroutineTracker.updateColors fa ⟨u, r.pkg⟩ = .ok (fa', m)) ∧
    s₂.status = .normal ∧ s₂.OnlyByTrap ∧
    ∃ r fa u fa' m, E₂.session.ex.step ⟨s₂, E₂.session.pkg⟩ = .ok r ∧
      Session.updateCoverage E₂.session.fa r.states = .ok (fa, [u]) ∧
      u.stackHasMessedUp = false ∧
      SubroutineTracker.updateColors fa ⟨u, r.pkg⟩ = .ok (fa', m) ∧
      fa.hasColor 0x3002 0x3000 = false ∧ fa'.hasColor 0x3002 0x3000 = true := by
  have hrun : ∃ l, Options.trailing.start Solver.ideal none = .ok l ∧
      ∃ s₀, l.searcher.states = [s₀] ∧
      ∃ j₀ r₀ t₀ i₀, s₀.mem.read s₀.pc = some (.inst j₀) ∧ j₀.belongsToOS = false ∧
        l.session.ex.step ⟨s₀, l.session.pkg⟩ = .ok r₀ ∧ r₀.states = [t₀] ∧
        t₀.latestNonOSInst.1 = some i₀ ∧ i₀.instID ≠ .TRAP ∧
      ∃ S₁ s₁, l.session.advance 0 s₀ = .ok (some (S₁, [s₁])) ∧ s₁.status = .normal ∧
      ∃ j₁ r₁ t₁ i₁, s₁.mem.read s₁.pc = some (.inst j₁) ∧ j₁.belongsToOS = false ∧
        S₁.ex.step ⟨s₁, S₁.pkg⟩ = .ok r₁ ∧ r₁.states = [t₁] ∧
        t₁.latestNonOSInst.1 = some i₁ ∧ i₁.instID ≠ .TRAP ∧
      (∃ fa u fa' m, Session.updateCoverage S₁.fa r₁.states = .ok (fa, [u]) ∧
        u.stackHasMessedUp = false ∧
        SubroutineTracker.updateColors fa ⟨u, r₁.pkg⟩ = .ok (fa', m)) ∧
      ∃ S₂ s₂, S₁.advance 0 s₁ = .ok (some (S₂, [s₂])) ∧ s₂.status = .normal ∧
      ∃ j₂ r₂, s₂.mem.read s₂.pc = some (.inst j₂) ∧ j₂.belongsToOS = false ∧
        S₂.ex.step ⟨s₂, S₂.pkg⟩ = .ok r₂ ∧
      ∃ fa u fa' m, Session.updateCoverage S₂.fa r₂.states = .ok (fa, [u]) ∧
        u.stackHasMessedUp = false ∧
        SubroutineTracker.updateColors fa ⟨u, r₂.pkg⟩ = .ok (fa', m) ∧
        fa.hasColor 0x3002 0x3000 = false ∧ fa'.hasColor 0x3002 0x3000 = true := by
    refine ⟨_, rfl, ?_⟩
    refine ⟨_, rfl, ?_⟩
    refine ⟨_, _, _, _, rfl, rfl, rfl, rfl, rfl, by decide, ?_⟩
    refine ⟨_, _, rfl, rfl, ?_⟩
    refine ⟨_, _, _, _, rfl, rfl, rfl, rfl, rfl, by decide, ⟨_, _, _, _, rfl, rfl, rfl⟩, ?_⟩
    refine ⟨_, _, rfl, rfl, ?_⟩
    refine ⟨_, _, rfl, rfl, rfl, ?_⟩
    exact ⟨_, _, _, _, rfl, rfl, rfl, rfl, rfl⟩
  obtain ⟨l, hl, s₀, hs₀, j₀, r₀, t₀, i₀, hread₀, huser₀, hstep₀, hstates₀, hlatest₀, hid₀, S₁, s₁,
    hnext₁, hnormal₁, j₁, r₁, t₁, i₁, hread₁, huser₁, hstep₁, hstates₁, hlatest₁, hid₁, hupdate₁, S₂,
    s₂, hnext₂, hnormal₂, j₂, r₂, hread₂, huser₂, hstep₂, hupdate₂⟩ := hrun
  obtain ⟨E₀, hstart, hsession, hfrontier⟩ := Options.start_explores rfl hl
  rw [hs₀, List.perm_singleton] at hfrontier
  rw [← hsession] at hnext₁ hstep₀
  obtain ⟨fa, u, fa', m, hcoverage, hmessed, hupdate⟩ := hupdate₁
  obtain ⟨fa₂, u₂, fa₂', m₂, hcoverage₂, hmessed₂, hupdate₂, hbefore, hafter⟩ := hupdate₂
  refine ⟨E₀, ⟨S₁, [s₁]⟩, ⟨S₂, [s₂]⟩, s₀, s₁, s₂, hstart, ⟨hfrontier, hnext₁, rfl⟩,
    ⟨rfl, hnext₂, rfl⟩, staysStatic_of_user hread₀ huser₀ hstep₀ hstates₀ hlatest₀ hid₀,
    staysStatic_of_user hread₁ huser₁ hstep₁ hstates₁ hlatest₁ hid₁, hnormal₁,
    ⟨r₁, fa, u, fa', m, hstep₁, hcoverage, hmessed, hupdate⟩, hnormal₂, ?_,
    r₂, fa₂, u₂, fa₂', m₂, hstep₂, hcoverage₂, hmessed₂, hupdate₂, hbefore, hafter⟩
  intro k hk hos
  rw [hread₂] at hk
  cases hk
  rw [huser₂] at hos
  cases hos

/-- When `Program.trailing` halts, its subroutine gets the colour of the main code. -/
theorem trailing_recolored : ∃ (E₀ E : Exploration) (s u : State) (r : StepResult)
    (fa fa' : FlowAnalysis) (m : Mach), Program.trailing.DirectOnly ∧
    E₀.Starts Solver.ideal .trailing none ∧ E₀.ReachesWhen (fun _ s => s.OnlyByTrap) 0 E ∧
    s ∈ E.frontier ∧ s.status = .normal ∧ s.OnlyByTrap ∧
    E.session.ex.step ⟨s, E.session.pkg⟩ = .ok r ∧
    Session.updateCoverage E.session.fa r.states = .ok (fa, [u]) ∧ u.stackHasMessedUp = false ∧
    SubroutineTracker.updateColors fa ⟨u, r.pkg⟩ = .ok (fa', m) ∧
    fa.hasColor 0x3002 0x3000 = false ∧ fa'.hasColor 0x3002 0x3000 = true := by
  obtain ⟨E₀, E₁, E₂, s₀, s₁, s₂, hstart, hnext₁, hnext₂, hstays₀, hstays₁, -, -, hnormal, htrap, r, fa,
    u, fa', m, hstep, hcoverage, hmessed, hupdate, hbefore, hafter⟩ := trailing_run
  have hreach : E₀.ReachesWhen (fun _ s => s.OnlyByTrap) 0 E₂ :=
    .tail (.single ⟨[], s₀, [], [s₁], hnext₁, hstays₀.onlyByTrap⟩)
      ⟨[], s₁, [], [s₂], hnext₂, hstays₁.onlyByTrap⟩
  exact ⟨E₀, E₂, s₂, u, r, fa, fa', m, trailing_directOnly, hstart, hreach, by simp [hnext₂.2.2],
    hnormal, htrap, hstep, hcoverage, hmessed, hupdate, hbefore, hafter⟩

/-- The return from the subroutine of `Program.trailing` adds no colour. -/
theorem trailing_static : ∃ (E₀ E : Exploration) (s u : State) (r : StepResult)
    (fa fa' : FlowAnalysis) (m : Mach), E₀.Starts Solver.ideal .trailing none ∧
    E₀.ReachesWhen (Exploration.StaysStatic .trailing) 0 E ∧ s ∈ E.frontier ∧
    E.session.ex.step ⟨s, E.session.pkg⟩ = .ok r ∧
    Session.updateCoverage E.session.fa r.states = .ok (fa, [u]) ∧
    SubroutineTracker.updateColors fa ⟨u, r.pkg⟩ = .ok (fa', m) ∧
    ∀ node color, fa'.hasColor node color = fa.hasColor node color := by
  obtain ⟨E₀, E₁, -, s₀, s₁, -, hstart, hnext, -, hstays₀, hstays₁, hnormal, ⟨r, fa, u, fa', m, hstep,
    hcoverage, hmessed, hupdate⟩, -⟩ := trailing_run
  have hreach : E₀.ReachesWhen (Exploration.StaysStatic .trailing) 0 E₁ :=
    .single ⟨[], s₀, [], [s₁], hnext, hstays₀⟩
  have hs₁ : s₁ ∈ E₁.frontier := by simp [hnext.2.2]
  refine ⟨E₀, E₁, s₁, u, r, fa, fa', m, hstart, hreach, hs₁, hstep, hcoverage, hupdate, ?_⟩
  exact ((Exploration.static_colors trailing_loaded).2.2 trailing_directOnly Solver.ideal none 0 E₀ E₁
    hstart).1 hreach s₁ hs₁ hnormal hstays₁ r fa [] u [] fa r.pkg [] fa' m hstep hcoverage rfl
    hmessed hupdate

end Klc3
