import Klc3.Verification.MainLoop.Concrete

/-!
# Condition codes

A state keeps its condition codes as a reference to the register that was written last
by an instruction that sets them. Along every path, what a `BR` tests is the value that
this instruction wrote, unless the register is R7 and a call has overwritten it since.
-/

namespace Klc3

namespace InstValue

variable (i : InstValue)

/-- The instructions that set the condition codes. -/
def setsCC : Bool :=
  match i.instID with
  | .ADD | .ADDi | .AND | .ANDi | .NOT | .LD | .LDR | .LDI | .LEA => true
  | _ => false

/-- The instructions that save the PC in R7. -/
def links : Bool :=
  match i.instID with
  | .JSR | .JSRR | .TRAP => true
  | _ => false

end InstValue

/-! ## The reference -/

namespace Machine

variable {lv : Levels} {M : Machine} {ir : InstValue} {addr : Word}

theorem getReg_ccRef (r : Fin 8) : (M.getReg lv r ir).val.1.ccRef = M.ccRef := by
  unfold getReg
  split
  · rfl
  · split <;> rfl

theorem getCC_ccRef : (M.getCC lv ir).val.1.ccRef = M.ccRef := by
  unfold getCC
  split
  · rfl
  · split <;> rfl

theorem warnOnRead_ccRef (cell : Cell) : (M.warnOnRead lv cell ir).val.ccRef = M.ccRef := by
  unfold warnOnRead
  split
  · split <;> rfl
  · rfl

theorem read_ccRef (dr : Option (Fin 8)) : (M.read lv addr ir dr).val.1.ccRef = M.ccRef := by
  unfold read
  split
  · rfl
  · rename_i cell _
    have hwarn : (M.warnOnRead lv cell ir).val.ccRef = M.ccRef := warnOnRead_ccRef cell
    simp only [Emit.bind_val]
    split
    · exact hwarn
    · split
      · exact hwarn
      · split <;> exact hwarn

theorem checkOverwrite_ccRef : (M.checkOverwrite lv addr ir).val.1.ccRef = M.ccRef := by
  unfold checkOverwrite
  split
  · rfl
  · split <;> rfl
  · rfl

theorem halt_ccRef : (M.halt lv).val.ccRef = M.ccRef := by
  unfold halt
  dsimp only
  split
  · rfl
  · split <;> rfl

theorem write_ccRef (value : Option Word) : (M.write lv addr value ir).val.ccRef = M.ccRef := by
  have hcheck : (M.checkOverwrite lv addr ir).val.1.ccRef = M.ccRef := checkOverwrite_ccRef
  simp only [write, Emit.bind_val]
  split
  · exact hcheck
  · split
    · unfold display
      split <;> exact hcheck
    · split
      · exact halt_ccRef.trans hcheck
      · exact hcheck

theorem load_ccRef (h : (M.load lv addr ir).val.status = .normal) :
    (M.load lv addr ir).val.ccRef = some ir.dr := by
  simp only [load, Emit.bind_val] at h ⊢
  split
  · rename_i hne
    rw [if_pos hne] at h
    exact absurd h hne
  · rfl

theorem indirect_ccRef {go : Machine → Word → Emit Issue Machine} {cc : Option (Fin 8)}
    (hgo : ∀ M' w, M'.ccRef = M.ccRef → (go M' w).val.status = .normal →
      (go M' w).val.ccRef = cc)
    (h : (M.indirect lv ir go).val.status = .normal) :
    (M.indirect lv ir go).val.ccRef = cc := by
  simp only [indirect, Emit.bind_val] at h ⊢
  split
  · rename_i hne
    rw [if_pos hne] at h
    exact absurd h hne
  · rename_i hne
    rw [if_neg hne] at h
    exact hgo _ _ (read_ccRef none) h

theorem executeADD_ccRef : (M.executeADD lv ir).val.ccRef = some ir.dr := by
  unfold executeADD
  simp only [Emit.bind_val]
  split <;> rfl

theorem executeAND_ccRef : (M.executeAND lv ir).val.ccRef = some ir.dr := by
  rw [executeAND_eq]
  rfl

theorem executeJMP_ccRef {retInMain : Bool} :
    (M.executeJMP lv retInMain ir).val.ccRef = M.ccRef := by
  unfold executeJMP
  split
  · simp only [Emit.bind_val]
    split
    · exact getReg_ccRef ir.baseR
    · rfl
  · simp only [Emit.bind_val]
    split
    · exact getReg_ccRef ir.baseR
    · rfl

theorem executeTRAP_ccRef : (M.executeTRAP lv ir).val.ccRef = M.ccRef := by
  unfold executeTRAP
  split
  · rfl
  · simp only [Emit.bind_val]
    split <;> exact read_ccRef none

theorem executeBR_ccRef : (M.executeBR lv ir).val.ccRef = M.ccRef := by
  unfold executeBR
  split
  · rfl
  split
  · rfl
  · simp only [Emit.bind_val, Emit.pure_val]
    split <;> exact getCC_ccRef

/-- An instruction that goes on changes the reference exactly when it sets the condition
codes, and then to its destination. -/
theorem execute_ccRef {retInMain : Bool} (h : (M.execute lv retInMain ir).val.status = .normal) :
    ir.instID ≠ .RTI ∧
      (M.execute lv retInMain ir).val.ccRef = if ir.setsCC then some ir.dr else M.ccRef := by
  unfold execute InstValue.setsCC at *
  cases hid : ir.instID <;> simp only [hid] at h ⊢
  case RTI => cases h
  case LD => exact ⟨by simp, load_ccRef h⟩
  case LDR => exact ⟨by simp, load_ccRef h⟩
  case LDI => exact ⟨by simp, indirect_ccRef (fun _ _ _ hgo => load_ccRef hgo) h⟩
  case STI => exact ⟨by simp, indirect_ccRef (fun _ _ hcc _ => (write_ccRef _).trans hcc) h⟩
  case ST => exact ⟨by simp, write_ccRef _⟩
  case STR => exact ⟨by simp, (write_ccRef _).trans (getReg_ccRef ir.baseR)⟩
  case BR => exact ⟨by simp, executeBR_ccRef⟩
  case JMP => exact ⟨by simp, executeJMP_ccRef⟩
  case TRAP => exact ⟨by simp, executeTRAP_ccRef⟩
  case JSRR => exact ⟨by simp, getReg_ccRef ir.baseR⟩
  case ADD => exact ⟨by simp, executeADD_ccRef⟩
  case ADDi => exact ⟨by simp, executeADD_ccRef⟩
  case AND => exact ⟨by simp, executeAND_ccRef⟩
  case ANDi => exact ⟨by simp, executeAND_ccRef⟩
  all_goals exact ⟨by simp, rfl⟩

end Machine

/-! ## One step -/

/-- What an instruction that does not set the condition codes does to the registers. -/
theorem Lc3.step_reg {cc : Word} {L L' : Lc3} {ir : InstValue} (hfetch : L.load L.pc = ir.ir)
    (hRTI : ir.instID ≠ .RTI) (hcc : ir.setsCC = false) (h : L.step cc = some L') :
    L'.reg = if ir.links then fun r => if r = 7 then L.pc + 1 else L.reg r else L.reg := by
  rw [step, hfetch, execute, ir.opcode_eq hRTI] at h
  unfold InstValue.setsCC at hcc
  unfold InstValue.links
  have hstore : ∀ {L₁ L₂ : Lc3} {addr value : Word}, some (L₁.store addr value) = some L₂ →
      L₂.reg = L₁.reg := by
    intro L₁ L₂ addr value heq
    cases heq
    unfold store
    split
    · rfl
    · split <;> rfl
  cases hid : ir.instID <;> simp only [hid, InstValue.opcodeOf, Bool.true_eq_false] at h hcc hRTI ⊢
  case BR =>
    split at h <;> cases h <;> rfl
  case JSR | JSRR =>
    split at h <;> cases h <;> rfl
  case JMP | TRAP =>
    cases h
    rfl
  case ST | STR | STI => exact (hstore h).trans rfl
  case RTI => exact absurd rfl hRTI

namespace Executor

variable {ex : Executor} {m : Mach} {r : StepResult} {t : State} {a : Assignment}

/-- A step that goes on, as far as the condition codes are concerned. -/
theorem step_ccRef (hwf : ex.WF) (howns : ex.Owns m.s.constraints) (hnormal : m.s.status = .normal)
    (h : ex.step m = .ok r) (ht : t ∈ r.states) (htnormal : t.status = .normal)
    (ha : t.constraints.Sat a) :
    ∃ ir, m.s.mem.read m.s.pc = some (.inst ir) ∧ ir.instID ≠ .RTI ∧
      t.ccRef = if ir.setsCC then some ir.dr else m.s.ccRef := by
  have hval := (step_sim hwf howns rfl hnormal h ht ha (.inr (.inl htnormal))).val
  have hstatus := (congrArg Machine.status hval).trans htnormal
  have hccRef := congrArg Machine.ccRef hval
  unfold Machine.step at hstatus hccRef
  split at hstatus
  · cases hstatus
  · cases hstatus
  · rename_i ir hmem
    simp only [hmem] at hccRef
    have hread : m.s.mem.read m.s.pc = some (.inst ir) := by
      change (m.s.mem.read m.s.pc).map (MemValue.conc _ a) = some (.inst ir) at hmem
      obtain ⟨v, hv, hconc⟩ := Option.map_eq_some_iff.1 hmem
      cases v with
      | data d => cases hconc
      | inst i =>
          cases hconc
          exact hv
    obtain ⟨hRTI, hcc⟩ := Machine.execute_ccRef hstatus
    exact ⟨ir, hread, hRTI, hccRef.symm.trans hcc⟩

end Executor

namespace State

theorem ccValue_eq {s : State} {a : Assignment} :
    s.ccValue a = match s.ccRef with
      | none => 0
      | some r => (s.lc3 a).reg r := by
  unfold ccValue getCCExpr
  cases s.ccRef <;> rfl

end State

/-- `getCCExpr` returns what the condition codes denote. -/
theorem Mach.getCCExpr_eval {m m' : Mach} {ir : InstValue} {e : WordExpr}
    (h : getCCExpr m ir = .ok (m', e)) (a : Assignment) : e.eval a = m.s.ccValue a := by
  unfold getCCExpr at h
  unfold State.ccValue
  split at h
  · rename_i e' hcc
    cases h
    rw [hcc]
    rfl
  · rename_i hcc
    rw [hcc]
    split at h <;> obtain ⟨m₁, -, h⟩ := Except.bind_eq_ok_iff.1 h <;> cases h <;> rfl

/-! ## Paths -/

/-- What a path remembers about the condition codes: the value that the last instruction
that sets them has written, to which register, and the return address that a call has put
in its place since. -/
structure CCRecord where
  value : WordExpr
  register : Option (Fin 8)
  returnAddress : Option Word

namespace CCRecord

/-- Before any instruction the value is 0. -/
def init : CCRecord := ⟨.const 0, none, none⟩

/-- The record after a step from `s` to `t`. -/
def next (s t : State) (g : CCRecord) : CCRecord :=
  match s.mem.read s.pc with
  | some (.inst ir) =>
    if ir.setsCC then ⟨(t.reg ir.dr).getD (.const 0), some ir.dr, none⟩
    else if ir.links ∧ g.register = some 7 then { g with returnAddress := some (s.pc + 1) }
    else g
  | _ => g

/-- The value that is left of the last write. -/
def tested (a : Assignment) (g : CCRecord) : Word :=
  g.returnAddress.getD (g.value.eval a)

/-- The condition codes of a state are those of its path. -/
structure Describes (g : CCRecord) (s : State) : Prop where
  register : s.ccRef = g.register
  value : ∀ a, s.constraints.Sat a → s.ccValue a = g.tested a

variable {ex : Executor} {m : Mach} {r : StepResult} {t : State} {g : CCRecord}

theorem Describes.step (hwf : ex.WF) (howns : ex.Owns m.s.constraints)
    (hnormal : m.s.status = .normal) (h : ex.step m = .ok r) (ht : t ∈ r.states)
    (htnormal : t.status = .normal) (hg : g.Describes m.s) : (g.next m.s t).Describes t := by
  have hsplits := (Executor.step_spec Mach.closed_any hwf howns (Mach.all_any _) h).splits
  have hmem : t.constraints.Sat ∈ r.states.map fun t => t.constraints.Sat := List.mem_map_of_mem ht
  obtain ⟨a₀, ha₀⟩ := hsplits.inhabited _ hmem
  obtain ⟨ir, hread, hRTI, hccRef⟩ := Executor.step_ccRef hwf howns hnormal h ht htnormal ha₀
  unfold next
  simp only [hread]
  cases hsets : ir.setsCC with
  | true =>
      rw [hsets, if_pos rfl] at hccRef
      refine ⟨hccRef, fun a _ => ?_⟩
      rw [State.ccValue, State.getCCExpr, hccRef, Option.bind_some]
      cases t.reg ir.dr <;> simp [tested]
  | false =>
      rw [hsets, if_neg (by simp)] at hccRef
      simp only [Bool.false_eq_true, if_false]
      -- the registers after the step, under an assignment that leads to it
      have hreg : ∀ a, t.constraints.Sat a → (t.lc3 a).reg =
          if ir.links then fun r => if r = 7 then m.s.pc + 1 else (m.s.lc3 a).reg r
          else (m.s.lc3 a).reg := by
        intro a ha
        refine Lc3.step_reg ?_ hRTI hsets
          (Executor.step_lc3 hwf howns hnormal h ht htnormal ha)
        rw [State.lc3_load]
        simp [State.lc3, hread, MemValue.e]
      have hvalue : ∀ a, t.constraints.Sat a → m.s.ccValue a = g.tested a := fun a ha =>
        hg.value a ((hsplits.covers a).2 ⟨_, hmem, ha⟩)
      by_cases hlinks : ir.links = true ∧ g.register = some 7
      · rw [if_pos hlinks]
        refine ⟨hccRef.trans hg.register, fun a ha => ?_⟩
        rw [State.ccValue_eq, hccRef, hg.register, hlinks.2, hreg a ha, if_pos hlinks.1]
        rfl
      · rw [if_neg hlinks]
        refine ⟨hccRef.trans hg.register, fun a ha => ?_⟩
        rw [← hvalue a ha, State.ccValue_eq, State.ccValue_eq, hccRef, hreg a ha]
        cases hsome : m.s.ccRef with
        | none => rfl
        | some r =>
            have hne : ir.links = true → r ≠ 7 := by
              rintro hl rfl
              exact hlinks ⟨hl, hg.register.symm.trans hsome⟩
            dsimp only
            split
            · rename_i hl
              exact if_neg (hne hl)
            · rfl

end CCRecord

namespace Exploration

variable {fuel : Nat} {solver : Solver} {o : Options} {gold : Option Gold} {E₀ E : Exploration}
variable {s : State} {g : CCRecord}

/-- The condition codes of every state that is still running are those of its path. -/
theorem Traced.describes (exact : solver.Exact) (hstart : E₀.Starts solver o gold)
    (h : Traced fuel CCRecord.next E₀ .init E s g) (hnormal : s.status = .normal) :
    E.Inv (fun _ => True) solver o ∧ s ∈ E.frontier ∧ g.Describes s := by
  have hinv : E₀.Inv (fun _ => True) solver o :=
    hstart.inv closed_true exact fun _ _ _ _ _ => trivial
  have hrule := Traced.rule (I := fun s g => s.status = .normal → g.Describes s) closed_true hinv
    ?_ ?_ h
  · exact ⟨hrule.1, hrule.2.1, hrule.2.2 hnormal⟩
  · obtain ⟨fa, ex, s₀, -, hinit, -, -, -, -, -, -, -, -, hfrontier⟩ := hstart
    intro s hs _
    rw [hfrontier] at hs
    obtain rfl := List.mem_singleton.1 hs
    obtain ⟨⟨cs, rfl⟩, -⟩ := Executor.createInitState_spec exact hinit
    exact ⟨rfl, fun a _ => rfl⟩
  · intro E s g r t t' hinv hs hI hnormal hstep ht hcore hstatus htnormal
    have hreg : t'.reg = t.reg := State.core_congr State.reg hcore fun _ => rfl
    have hcc : t'.ccRef = t.ccRef := State.core_congr State.ccRef hcore fun _ => rfl
    have htnormal : t.status = .normal := by
      rcases hstatus with heq | heq
      · rw [← heq]
        exact htnormal
      · cases heq.symm.trans htnormal
    have hdesc := CCRecord.Describes.step (m := ⟨s, E.session.pkg⟩) hinv.wf (hinv.owns hs) hnormal
      hstep ht htnormal (hI hnormal)
    have hnext : CCRecord.next s t' g = CCRecord.next s t g := by
      unfold CCRecord.next
      rw [hreg]
    rw [hnext]
    refine ⟨hcc.trans hdesc.register, fun a ha => ?_⟩
    rw [State.core_constraints hcore] at ha
    rw [← hdesc.value a ha, State.ccValue, State.ccValue, State.getCCExpr, State.getCCExpr, hcc,
      hreg]

/-- At every `BR` of every path, the value that `solveBRCond` tests is the one written by
the last instruction that sets the condition codes, if and only if it was not R7 that this
instruction wrote and a call overwrote since, or the return address is that value. -/
theorem traced_condition_iff (exact : solver.Exact) (hstart : E₀.Starts solver o gold)
    (h : Traced fuel CCRecord.next E₀ .init E s g) (hnormal : s.status = .normal) {ir : InstValue}
    {m' : Mach} {br : Validity} {cond : BoolExpr}
    (hsolve : E.session.ex.solveBRCond (Mach.fetched ⟨s, E.session.pkg⟩ ir) ir =
      .ok (m', br, some cond)) :
    ∃ m₁ e, getCCExpr (Mach.fetched ⟨s, E.session.pkg⟩ ir) ir = .ok (m₁, e) ∧
      cond = Executor.brCondition ir.cc e ∧
      ((∀ a, s.constraints.Sat a → e.eval a = g.value.eval a) ↔
        ∀ w, g.returnAddress = some w → ∀ a, s.constraints.Sat a → g.value.eval a = w) := by
  obtain ⟨-, -, hdesc⟩ := h.describes exact hstart hnormal
  unfold Executor.solveBRCond at hsolve
  split at hsolve
  · cases hsolve
  split at hsolve
  · cases hsolve
  obtain ⟨⟨m₁, e⟩, hget, hsolve⟩ := Except.bind_eq_ok_iff.1 hsolve
  have hcond : cond = Executor.brCondition ir.cc e := by
    dsimp only at hsolve
    split at hsolve <;> cases hsolve <;> rfl
  have htested : ∀ a, s.constraints.Sat a → e.eval a = g.tested a := fun a ha =>
    (Mach.getCCExpr_eval hget a).trans (hdesc.value a ha)
  refine ⟨m₁, e, hget, hcond, ?_⟩
  cases hreturn : g.returnAddress with
  | none =>
      refine ⟨fun _ w hw => (by cases hw), fun _ a ha => ?_⟩
      rw [htested a ha, CCRecord.tested, hreturn]
      rfl
  | some w =>
      have hw : ∀ a, s.constraints.Sat a → e.eval a = w := fun a ha => by
        rw [htested a ha, CCRecord.tested, hreturn]
        rfl
      constructor
      · rintro heq w' ⟨⟩ a ha
        rw [← heq a ha, hw a ha]
      · intro heq a ha
        rw [hw a ha, heq w rfl a ha]

end Exploration

/-- A program that sets R7 to 0, calls a subroutine and branches. -/
def Program.overwritten : Program where
  mem :=
    [(0x3000, .inst ⟨0x3000, 0x5FE0, ⟨.ANDi, .RRI, 0xF020, 0x5020⟩, by decide, false, [],
        "overwritten.asm", 1, "AND R7, R7, #0"⟩),
     (0x3001, .inst ⟨0x3001, 0x4800, ⟨.JSR, .L, 0xF800, 0x4800⟩, by decide, false, [],
        "overwritten.asm", 2, "JSR SUB"⟩),
     (0x3002, .inst ⟨0x3002, 0x0400, ⟨.BR, .CL, 0xF000, 0x0000⟩, matchInst_branch, false, ["SUB"],
        "overwritten.asm", 3, "SUB BRz NEXT"⟩),
     (0x3003, .inst ⟨0x3003, 0xF025, ⟨.TRAP, .V, 0xFF00, 0xF000⟩, matchInst_halt, false, ["NEXT"],
        "overwritten.asm", 4, "INSTANT_HALT"⟩)]
  constraints := []
  initPC := 0x3000
  preferences := []

def Options.overwritten : Options :=
  { Options.sample with test := .overwritten }

/-- The run of `Program.overwritten` up to its branch. -/
theorem overwritten_run : ∃ (E₀ E : Exploration) (s : State) (g : CCRecord) (ir : InstValue)
    (m' : Mach) (br : Validity),
    E₀.Starts Solver.ideal .overwritten none ∧
    Exploration.Traced 0 CCRecord.next E₀ .init E s g ∧ s.status = .normal ∧
    s.constraints = [] ∧ s.mem.read s.pc = some (.inst ir) ∧ ir.instID = .BR ∧
    E.session.ex.solveBRCond (Mach.fetched ⟨s, E.session.pkg⟩ ir) ir =
      .ok (m', br, some (Executor.brCondition ir.cc (.const 0x3002))) ∧
    g.value = .const 0 := by
  have hrun : ∃ l, Options.overwritten.start Solver.ideal none = .ok l ∧
      ∃ s₀, l.searcher.states = [s₀] ∧ ∃ S₁ l₁, l.session.advance 0 s₀ = .ok (some (S₁, l₁)) ∧
      ∃ s₁, l₁ = [s₁] ∧ ∃ S₂ l₂, S₁.advance 0 s₁ = .ok (some (S₂, l₂)) ∧
      ∃ s₂, l₂ = [s₂] ∧ s₂.status = .normal ∧ s₂.constraints = [] ∧
      (CCRecord.next s₁ s₂ (CCRecord.next s₀ s₁ .init)).value = .const 0 ∧
      ∃ ir, s₂.mem.read s₂.pc = some (.inst ir) ∧ ir.instID = .BR ∧
      ∃ m' br, S₂.ex.solveBRCond (Mach.fetched ⟨s₂, S₂.pkg⟩ ir) ir =
        .ok (m', br, some (Executor.brCondition ir.cc (.const 0x3002))) := by
    refine ⟨_, rfl, ?_⟩
    refine ⟨_, rfl, ?_⟩
    refine ⟨_, _, rfl, ?_⟩
    refine ⟨_, rfl, ?_⟩
    refine ⟨_, _, rfl, ?_⟩
    refine ⟨_, rfl, rfl, rfl, rfl, ?_⟩
    refine ⟨_, rfl, rfl, ?_⟩
    exact ⟨_, _, rfl⟩
  obtain ⟨l, hl, s₀, hs₀, S₁, l₁, hnext₁, s₁, rfl, S₂, l₂, hnext₂, s₂, rfl, hnormal, hcs, hvalue,
    ir, hread, hBR, m', br, hsolve⟩ := hrun
  obtain ⟨E₀, hstart, hsession, hfrontier⟩ := Options.start_explores rfl hl
  rw [hs₀, List.perm_singleton] at hfrontier
  rw [← hsession] at hnext₁
  have htrace₁ : Exploration.Traced 0 CCRecord.next E₀ .init ⟨S₁, [s₁]⟩ s₁ _ :=
    .stepped (.start (by rw [hfrontier]; exact List.mem_singleton.2 rfl))
      (⟨hfrontier, hnext₁, rfl⟩ : Exploration.NextAt 0 _ [] s₀ [] [s₁] _) (List.mem_singleton.2 rfl)
  have htrace₂ : Exploration.Traced 0 CCRecord.next E₀ .init ⟨S₂, [s₂]⟩ s₂ _ :=
    .stepped htrace₁ (⟨rfl, hnext₂, rfl⟩ : Exploration.NextAt 0 _ [] s₁ [] [s₂] _)
      (List.mem_singleton.2 rfl)
  exact ⟨E₀, _, s₂, _, ir, m', br, hstart, htrace₂, hnormal, hcs, hread, hBR, hsolve, hvalue⟩

/-- The call leaves its return address where the condition codes are looked up, so that
the branch tests x3002 although the last instruction that sets them wrote 0. -/
theorem overwritten_condition : ∃ (E₀ E : Exploration) (s : State) (g : CCRecord) (ir : InstValue)
    (m' : Mach) (br : Validity) (e : WordExpr) (a : Assignment),
    E₀.Starts Solver.ideal .overwritten none ∧
    Exploration.Traced 0 CCRecord.next E₀ .init E s g ∧ s.status = .normal ∧
    s.mem.read s.pc = some (.inst ir) ∧ ir.instID = .BR ∧
    E.session.ex.solveBRCond (Mach.fetched ⟨s, E.session.pkg⟩ ir) ir =
      .ok (m', br, some (Executor.brCondition ir.cc e)) ∧
    s.constraints.Sat a ∧ e.eval a ≠ g.value.eval a := by
  obtain ⟨E₀, E, s, g, ir, m', br, hstart, htrace, hnormal, hcs, hread, hBR, hsolve, hvalue⟩ :=
    overwritten_run
  refine ⟨E₀, E, s, g, ir, m', br, _, fun _ _ => 0, hstart, htrace, hnormal, hread, hBR, hsolve,
    ?_, ?_⟩
  · rw [hcs]
    exact ConstraintSet.sat_nil
  · rw [hvalue]
    decide

theorem overwritten_condition_iff : ∃ (E₀ E : Exploration) (s : State) (g : CCRecord)
    (ir : InstValue) (m : Mach) (e : WordExpr),
    Exploration.Traced 0 CCRecord.next E₀ .init E s g ∧
      getCCExpr (Mach.fetched ⟨s, E.session.pkg⟩ ir) ir = .ok (m, e) ∧
      ((∀ a, s.constraints.Sat a → e.eval a = g.value.eval a) ↔
        ∀ w, g.returnAddress = some w → ∀ a, s.constraints.Sat a → g.value.eval a = w) := by
  obtain ⟨E₀, E, s, g, ir, m', br, hstart, htrace, hnormal, -, -, -, hsolve, -⟩ := overwritten_run
  obtain ⟨m, e, hget, -, hiff⟩ :=
    Exploration.traced_condition_iff Solver.ideal_exact hstart htrace hnormal hsolve
  exact ⟨E₀, E, s, g, ir, m, e, htrace, hget, hiff⟩

end Klc3
