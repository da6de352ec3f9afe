import Klc3.Verification.MainLoop.FlowEdges
import Klc3.Verification.MainLoop.Runs
import Klc3.Verification.MainLoop.StepFrame

/-!
# Instruction memory

Instructions are never overwritten and never created, so that what a state can fetch is
what was loaded, and what the flow graph was built from. A store to an instruction leaves
the memory as it is and breaks the state.
-/

namespace Klc3

namespace MemoryManager

/-- The addresses at which `read` does not look at the memory. -/
def mappedAddrs : List Word := [0xFE00, 0xFE04, 0xFE06, 0xFFFE]

variable {mem : MemoryManager} {addr x : Word} {i : InstValue}

theorem read_base {baseMem : Word → Option MemValue} (h : addr ∉ mappedAddrs) :
    read ⟨baseMem, fun _ => none⟩ addr = baseMem addr := by
  simp only [mappedAddrs, List.mem_cons, List.not_mem_nil, or_false, not_or] at h
  unfold read
  rw [if_neg h.1, if_neg h.2.1, if_neg h.2.2.1, if_neg h.2.2.2]

/-- A store to a cell without an instruction does not change which cells hold one. -/
theorem read_store_inst (value : Option WordExpr) (h : ∀ j, mem.read addr ≠ some (.inst j)) :
    (mem.store addr value).read x = some (.inst i) ↔ mem.read x = some (.inst i) := by
  rw [read_store]
  split
  · rename_i heq
    rw [heq.1]
    exact iff_of_false (by simp [DataValue.alloc]) (h i)
  · rfl

end MemoryManager

namespace Executor

variable {ex : Executor} {m : Mach} {t : State} {ir : InstValue}

theorem Executes.read_inst (hnormal : m.s.status = .normal) (h : Executes ex m ir t) (x : Word)
    (i : InstValue) : t.mem.read x = some (.inst i) ↔ m.s.mem.read x = some (.inst i) := by
  cases hstore : ir.isStore with
  | false => rw [h.keeps.mem hstore]
  | true =>
      rcases h.storesAt hstore hnormal with ⟨hmem, -⟩ | ⟨c, hat⟩
      · rw [hmem]
      · cases hat with
        | refused _ hmem _ _ => rw [hmem]
        | made value hinst hmem _ =>
            rw [hmem]
            exact MemoryManager.read_store_inst value hinst

theorem Steps.read_inst (h : Steps ex m t) (x : Word) (i : InstValue) :
    t.mem.read x = some (.inst i) ↔ m.s.mem.read x = some (.inst i) := by
  cases h with
  | stopped => rfl
  | fails m' type note _ hraise _ => rw [(Mach.newStateIssue_reads hraise).mem]
  | executes ir _ _ hnormal h => exact Executes.read_inst (m := m.fetched ir) hnormal h x i

theorem WarmsUp.read_inst (h : WarmsUp ex m t) (x : Word) (i : InstValue) :
    t.mem.read x = some (.inst i) ↔ m.s.mem.read x = some (.inst i) := by
  cases h with
  | steps _ h => exact h.read_inst x i
  | breaks ir m₁ br cond _ hsolve _ =>
      rw [← (Mach.solveBRCond_reads hsolve).mem]
      rfl
  | branches ir m₁ br cond _ _ hsolve hnormal _ h =>
      rw [← (Mach.solveBRCond_reads hsolve).mem]
      exact Executes.read_inst (m := m₁.fetched ir) hnormal h x i

end Executor

/-- In every run the instructions are where they were loaded. -/
theorem Program.Visits.read_inst {p : Program} {s : State} (h : p.Visits s) {addr : Word}
    (haddr : addr ∉ MemoryManager.mappedAddrs) (i : InstValue) :
    s.mem.read addr = some (.inst i) ↔ p.baseMem addr = some (.inst i) := by
  induction h with
  | init uid cs => exact (congrArg (· = some (MemValue.inst i)) (MemoryManager.read_base haddr)).to_iff
  | stepped _ hstep ht ih => rw [(Executor.mem_step hstep ht).read_inst, ih]
  | warmedUp _ hstep ht ih => rw [(Executor.mem_stepUnlessFork hstep ht).read_inst, ih]
  | tracked _ hcore _ ih => rw [State.core_mem hcore, ih]
  | copied _ hcopy ih => rw [(State.Reads.of_copy hcopy).mem, ih]

/-- A store to an instruction is refused, at every configuration of the issue levels. -/
theorem Mach.memWriteData_inst {m : Mach} {addr : Word} {i : InstValue}
    (hlv : IssuePackage.Leveled m.pkg.issueLevel) (hinst : m.s.mem.read addr = some (.inst i))
    (value : Option WordExpr) (ir : InstValue) :
    ∃ m', memWriteData m addr value ir = .ok m' ∧ m'.s.status = .broken ∧ m'.s.mem = m.s.mem := by
  have hfails : ¬ m.s.StoreFails value addr := by
    rintro ⟨rfl, -⟩
    cases hinst
  obtain ⟨m', h⟩ := (memWriteData_isOk_iff hlv).2 hfails
  rcases memWriteData_mem h with ⟨-, hmem, hbroken⟩ | ⟨hnone, -⟩
  · exact ⟨m', h, hbroken, hmem⟩
  · exact absurd hinst (hnone i)

namespace Exploration

variable {fuel : Nat} {solver : Solver} {o : Options} {gold : Option Gold} {E₀ E : Exploration}

theorem Reaches.nodes (hmem : Loaded o.test.mem) (hstart : E₀.Starts solver o gold)
    (hreach : E₀.Reaches fuel E) : E.session.fa.fg.nodes = FlowGraph.userInsts o.test.mem := by
  induction hreach with
  | refl =>
      obtain ⟨fa, ex, s, hfa, -, -, -, -, hE, -⟩ := hstart
      rw [hE, FlowAnalysis.setupInitState_fg]
      exact (FlowAnalysis.new_spec hmem hfa).2.1
  | tail _ hnext ih =>
      obtain ⟨before, s, after, states, -, hadvance, -⟩ := hnext
      obtain ⟨-, r, fa₁, states₁, -, hcoverage, hextends, -⟩ := Session.advance_graph hadvance
      rw [hextends.nodes, (Session.updateCoverage_grows hcoverage).nodes, ih]

/-- In every state of an exploration the instructions are those that were loaded, a user
instruction is a node of the flow graph, and a store to an instruction changes nothing but
the status. -/
theorem reachable_insts (exact : solver.Exact) (hpkg : o.issuePackage.Configured)
    (hmem : Loaded o.test.mem) (hstart : E₀.Starts solver o gold) (hreach : E₀.Reaches fuel E) :
    ∀ s ∈ E.frontier,
      (∀ addr, addr ∉ MemoryManager.mappedAddrs → ∀ i,
        (s.mem.read addr = some (.inst i) ↔ o.test.baseMem addr = some (.inst i)) ∧
        (E.session.fa.fg.getNodeByAddr addr = some i ↔
          s.mem.read addr = some (.inst i) ∧ i.belongsToOS = false)) ∧
      (∀ addr i, s.mem.read addr = some (.inst i) → ∀ value ir,
        ∃ m', memWriteData ⟨s, E.session.pkg⟩ addr value ir = .ok m' ∧ m'.s.status = .broken ∧
          m'.s.mem = s.mem) ∧
      ∀ r t ir a, s.status = .normal → E.session.ex.step ⟨s, E.session.pkg⟩ = .ok r →
        t ∈ r.states → s.mem.read s.pc = some (.inst ir) → ir.isStore = true →
        t.constraints.Sat a →
        (∃ i, s.mem.read (ir.target { s.lc3 a with pc := s.pc + 1 }) = some (.inst i)) →
        t.status = .broken ∧ t.mem = s.mem := by
  intro s hs
  have hinv := Reaches.inv_true exact hstart hreach
  have hvisits := Reaches.visits hstart hreach s hs
  refine ⟨fun addr haddr i => ⟨hvisits.read_inst haddr i, ?_⟩, fun addr i hi value ir => ?_, ?_⟩
  · rw [hvisits.read_inst haddr i, FlowGraph.getNodeByAddr, Reaches.nodes hmem hstart hreach]
    exact FlowGraph.lookup_userInsts_iff hmem.keys
  · refine Mach.memWriteData_inst (m := ⟨s, E.session.pkg⟩) ?_ hi value ir
    rw [hinv.issueLevel]
    exact hpkg.leveled
  · intro r t ir a hnormal hstep ht hread hstore ha hinst
    have howns : E.session.ex.Owns s.constraints := hinv.owns hs
    cases Executor.mem_step hstep ht with
    | stopped hne => exact absurd hnormal hne
    | fails m' type note hfetch _ _ => exact absurd hread (hfetch ir)
    | executes ir' _ hfetch _ h =>
        rw [hread] at hfetch
        cases hfetch
        rcases h.storesAt hstore hnormal with ⟨hsame, hbroken⟩ | ⟨c, hat⟩
        · exact ⟨hbroken, hsame⟩
        · cases hat with
          | refused _ hsame hbroken _ => exact ⟨hbroken, hsame⟩
          | made value hnone _ htarget =>
              obtain ⟨i, hi⟩ := hinst
              have htarget := htarget hinv.wf howns a ha
              rw [← htarget] at hnone
              exact absurd hi (hnone i)

end Exploration

/-- A program that stores to its only instruction. -/
def Program.overwriting : Program where
  mem :=
    [(0x3000, .inst ⟨0x3000, 0x31FF, ⟨.ST, .RL, 0xF000, 0x3000⟩, by decide, false, ["START"],
        "overwriting.asm", 1, "START ST R0, START"⟩)]
  constraints := []
  initPC := 0x3000
  preferences := []

def Options.overwriting : Options :=
  { Options.sample with test := .overwriting }

theorem overwriting_insts : ∃ (E : Exploration) (s t : State) (r : StepResult) (ir : InstValue),
    E.Starts Solver.ideal .overwriting none ∧ s ∈ E.frontier ∧
    E.session.ex.step ⟨s, E.session.pkg⟩ = .ok r ∧ t ∈ r.states ∧
    s.mem.read s.pc = some (.inst ir) ∧ ir.instID = .ST ∧ t.status = .broken ∧ t.mem = s.mem ∧
    E.session.fa.fg.getNodeByAddr 0x3000 = some ir := by
  have hrun : ∃ l, Options.overwriting.start Solver.ideal none = .ok l ∧
      ∃ s₀, l.searcher.states = [s₀] ∧ s₀.status = .normal ∧ s₀.pc = 0x3000 ∧
      ∃ ir, s₀.mem.read 0x3000 = some (.inst ir) ∧ ir.instID = .ST ∧ ir.imm9 = 0xFFFF ∧
        ir.belongsToOS = false ∧
      ∃ r t, l.session.ex.step ⟨s₀, l.session.pkg⟩ = .ok r ∧ r.states = [t] ∧
        t.constraints = [] := by
    refine ⟨_, rfl, ?_⟩
    refine ⟨_, rfl, rfl, rfl, ?_⟩
    refine ⟨_, rfl, rfl, by decide, rfl, ?_⟩
    exact ⟨_, _, rfl, rfl, rfl⟩
  obtain ⟨l, hl, s, hs, hnormal, hpc, ir, hread, hid, himm, huser, r, t, hstep, hr, hcs⟩ := hrun
  obtain ⟨E, hstart, hsession, hfrontier⟩ := Options.start_explores rfl hl
  rw [hs, List.perm_singleton] at hfrontier
  rw [← hsession] at hstep
  have hs : s ∈ E.frontier := by simp [hfrontier]
  have ht : t ∈ r.states := by simp [hr]
  have hloaded : Loaded Options.overwriting.test.mem := by
    constructor
    · decide
    · intro addr i hi
      simp only [Options.overwriting, Program.overwriting, List.mem_singleton, Prod.mk.injEq,
        MemValue.inst.injEq] at hi
      rw [hi.1, hi.2]
  obtain ⟨hcode, -, hstores⟩ := @Exploration.reachable_insts 0 _ _ _ _ _ Solver.ideal_exact .empty
    hloaded hstart .refl s hs
  have hsat : t.constraints.Sat fun _ _ => 0 := by
    rw [hcs]
    exact ConstraintSet.sat_nil
  have hfetch : s.mem.read s.pc = some (.inst ir) := by rwa [hpc]
  obtain ⟨hbroken, hmem⟩ := hstores r t ir _ hnormal hstep ht hfetch
    (by rw [InstValue.isStore, hid]) hsat ⟨ir, by
      simp only [InstValue.target, hid, himm, hpc]
      exact hread⟩
  exact ⟨E, s, t, r, ir, hstart, hs, hstep, ht, hfetch, hid, hbroken, hmem,
    (hcode 0x3000 (by decide) ir).2.2 ⟨hread, huser⟩⟩

end Klc3
