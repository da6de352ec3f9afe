import Klc3.Verification.Machine.Simulation

/-!
# Instructions of the concrete machine

Every instruction of the executor, on each of its result states, is the instruction of
the concrete machine. The results of a fork are told apart by the assignment.
-/

namespace Klc3

open WordExpr (IsConst)

variable {lv : Machine.Levels} {a : Assignment} {m m' : Mach} {ir : InstValue}

/-! ## Data instructions -/

theorem setRegAndCC_sim {r : Fin 8} {e : WordExpr} {w : Word} (h : e.eval a = w) :
    Sim m ⟨m.s.setRegAndCC r (some e) ir, m.pkg⟩
      (pure ((m.s.conc lv.strict a).setRegAndCC r (some w)))
      ((m.s.setRegAndCC r (some e) ir).conc lv.strict a) := by
  rw [State.conc_setRegAndCC, valueOf_some, h]
  exact .silent rfl

theorem executeADD_sim (hlv : m.pkg.issueLevel = lv) (h : executeADD m ir = .ok m') :
    Sim m m' ((m.s.conc lv.strict a).executeADD lv ir) (m'.s.conc lv.strict a) := by
  obtain ⟨⟨m₁, op1⟩, hget1, h⟩ := Except.bind_eq_ok_iff.1 h
  have hsim1 := getReg_sim (a := a) hlv hget1
  have hfinish : ∀ {m₂ : Mach} {op2 : WordExpr},
      (addResult op1 op2 >>= fun e => setRegAndCC m₂ ir.dr (some e) ir) = .ok m' →
      Sim m₂ m' (pure ((m₂.s.conc lv.strict a).setRegAndCC ir.dr
        (some (op1.eval a + op2.eval a)))) (m'.s.conc lv.strict a) := by
    intro m₂ op2 h
    obtain ⟨e, hsum, h⟩ := Except.bind_eq_ok_iff.1 h
    rw [setRegAndCC_eq] at h
    cases h
    exact setRegAndCC_sim (eval_addResult hsum a)
  unfold Machine.executeADD
  refine hsim1.bind ?_
  dsimp only at h ⊢
  split at h
  · rename_i hformat
    obtain ⟨⟨m₂, op2⟩, hget2, h⟩ := Except.bind_eq_ok_iff.1 h
    rw [if_pos hformat]
    exact (getReg_sim (hsim1.issueLevel.trans hlv) hget2).bind (hfinish h)
  · rename_i hformat
    rw [if_neg hformat]
    exact (Sim.pure m₁ _).bind (hfinish h)

theorem executeNOT_sim (hlv : m.pkg.issueLevel = lv) (h : executeNOT m ir = .ok m') :
    Sim m m' ((m.s.conc lv.strict a).executeNOT lv ir) (m'.s.conc lv.strict a) := by
  obtain ⟨⟨m₁, op⟩, hget, h⟩ := Except.bind_eq_ok_iff.1 h
  cases h
  unfold Machine.executeNOT
  exact (getReg_sim hlv hget).bind (setRegAndCC_sim (ExprBuilder.eval_not a op))

/-- The warning about an operand of `AND`. Only an operand that is 0 without being the
constant 0 would make a difference. -/
theorem warnOnAndOperand_sim {r : Fin 8} {other : Option WordExpr} (hlv : m.pkg.issueLevel = lv)
    (hreg : (m.s.conc false a).reg r = some 0)
    (hzero : lv.strict = true → m'.s.status ≠ .broken ∨
      ∀ e, other = some e → e.eval a = 0 → e = .const 0)
    (h : warnOnAndOperand m r other ir = .ok m') :
    Sim m m' (if lv.strict then
        (m.s.conc lv.strict a).warnOnAndOperand lv r (valueOf lv.strict a other) ir
      else pure (m.s.conc lv.strict a)) (m'.s.conc lv.strict a) := by
  unfold warnOnAndOperand at h
  split at h
  · rename_i hcond
    obtain ⟨m₁, hraise, h⟩ := Except.bind_eq_ok_iff.1 h
    rw [setRegWord_gpr] at h
    cases h
    have hsim := uninit_sim hlv hreg hraise
    cases hstrict : lv.strict with
    | false =>
        rw [hstrict] at hsim
        exact hsim.trans_silent rfl
    | true =>
        rw [hstrict, if_pos rfl] at hsim
        have hbroken : m₁.s.status = .broken := by
          obtain ⟨⟨trigger, hs⟩, -⟩ := Mach.newStateIssue_eq_ok hraise
          rw [hs, hlv, if_pos (by simpa [Machine.Levels.strict] using hstrict)]
        have hne : valueOf true a other ≠ some 0 := by
          intro heq
          cases other with
          | none => cases heq
          | some e =>
              rw [valueOf_some, Option.some_inj] at heq
              rcases hzero hstrict with hnot | hconst
              · exact hnot hbroken
              · simp [hconst e rfl heq, isZeroExpr] at hcond
        rw [if_pos rfl]
        unfold Machine.warnOnAndOperand
        rw [if_pos ⟨hne, hcond.2⟩]
        exact hsim.trans_silent rfl
  · rename_i hcond
    cases h
    cases hstrict : lv.strict with
    | false => exact .pure _ _
    | true =>
        rw [if_pos rfl]
        unfold Machine.warnOnAndOperand
        rw [if_neg]
        · exact .pure _ _
        · rintro ⟨hne, hos⟩
          refine hcond ⟨?_, hos⟩
          cases other with
          | none => rfl
          | some e =>
              simp only [isZeroExpr, decide_eq_false_iff_not, Option.some.injEq]
              rintro rfl
              simp at hne

theorem andOperand_sim {r : Fin 8} (op : Option WordExpr) {other : Option WordExpr}
    (hlv : m.pkg.issueLevel = lv)
    (hop : op = none → (m.s.conc false a).reg r = some 0)
    (hzero : lv.strict = true → m'.s.status ≠ .broken ∨
      ∀ e, other = some e → e.eval a = 0 → e = .const 0)
    (h : (if op.isNone then warnOnAndOperand m r other ir else pure m) = .ok m') :
    Sim m m' (if (valueOf lv.strict a op).isNone then
        (m.s.conc lv.strict a).warnOnAndOperand lv r (valueOf lv.strict a other) ir
      else pure (m.s.conc lv.strict a)) (m'.s.conc lv.strict a) := by
  cases op with
  | some e =>
      cases h
      rw [valueOf_some]
      exact .pure _ _
  | none =>
      have hsim := warnOnAndOperand_sim hlv (hop rfl) hzero h
      cases hstrict : lv.strict with
      | true =>
          rw [hstrict] at hsim
          exact hsim
      | false =>
          rw [hstrict] at hsim
          exact hsim

/-- The second operand of `AND` of the concrete machine. -/
def Machine.andOperand2 (M : Machine) (ir : InstValue) : Option Word :=
  if ir.instDef.format = .RRR then M.reg ir.sr2 else some ir.imm5

theorem Machine.executeAND_eq (M : Machine) :
    M.executeAND lv ir =
      ((if (M.reg ir.sr1).isNone then M.warnOnAndOperand lv ir.sr1 (M.andOperand2 ir) ir
        else pure M) >>= fun M₁ =>
      (if (M.andOperand2 ir).isNone then M₁.warnOnAndOperand lv ir.sr2 (M.reg ir.sr1) ir
        else pure M₁) >>= fun M₂ =>
      pure (M₂.setRegAndCC ir.dr (some ((M.reg ir.sr1).getD 0 &&& (M.andOperand2 ir).getD 0)))) := by
  unfold Machine.executeAND
  dsimp only
  rw [← Machine.andOperand2]
  split
  · split <;> rfl
  · split <;> rfl

theorem andOperand2_conc :
    (m.s.conc lv.strict a).andOperand2 ir = valueOf lv.strict a (m.andOperand2 ir) := by
  unfold Machine.andOperand2 Mach.andOperand2
  split
  · rfl
  · rw [valueOf_some]
    rfl

theorem eval_getD_zero {strict : Bool} (e : Option WordExpr) :
    (e.getD (.const 0)).eval a = (valueOf strict a e).getD 0 := by
  cases e with
  | none => cases strict <;> rfl
  | some e => simp

theorem warnOnAndOperand_reg {r x : Fin 8} {other : Option WordExpr}
    (h : warnOnAndOperand m r other ir = .ok m') :
    m'.s.reg x = m.s.reg x ∨ m'.s.reg x = some (.const 0) := by
  unfold warnOnAndOperand at h
  split at h
  · obtain ⟨m₁, hraise, h⟩ := Except.bind_eq_ok_iff.1 h
    cases h
    obtain ⟨⟨trigger, hs⟩, -⟩ := Mach.newStateIssue_eq_ok hraise
    have hreg : m₁.s.reg = m.s.reg := by rw [hs]
    simp only [State.setReg, hreg]
    split
    · exact .inr rfl
    · exact .inl rfl
  · cases h
    exact .inl rfl

theorem andOperand2_const (hm : m.s.All IsConst) {e : WordExpr} (h : m.andOperand2 ir = some e) :
    e.IsConst := by
  unfold Mach.andOperand2 at h
  split at h
  · exact hm.reg _ _ h
  · cases h
    rfl

theorem executeAND_sim (hlv : m.pkg.issueLevel = lv) (hf : m.s.Faithful lv.strict m'.s)
    (h : executeAND m ir = .ok m') :
    Sim m m' ((m.s.conc lv.strict a).executeAND lv ir) (m'.s.conc lv.strict a) := by
  obtain ⟨m₁, m₂, h1, h2, rfl⟩ := Mach.executeAND_eq_ok h
  have heff : Mach.Effects Mach.Any m₁ m₂ := by
    split at h2
    · exact Mach.warnOnAndOperand_effects Mach.closed_any (Mach.all_any _) h2
    · cases h2
      exact .refl (Mach.all_any _)
  -- unless the state ends broken, an operand that is 0 is the constant 0
  have hzero : ∀ (op : Option WordExpr), (m.s.All IsConst → ∀ e, op = some e → e.IsConst) →
      lv.strict = true → m₂.s.status ≠ .broken ∨
        ∀ e, op = some e → e.eval a = 0 → e = .const 0 := by
    intro op hop hstrict
    rcases hf with hconst | hnormal | ⟨-, -, hbroken⟩
    · refine .inr fun e he heval => ?_
      obtain ⟨c, rfl⟩ := WordExpr.isConst_iff.1 (hop hconst e he)
      exact congrArg _ heval
    · exact .inl fun hb => by
        have : m₂.s.status = .normal := hnormal
        rw [hb] at this
        cases this
    · exact .inl (hbroken hstrict)
  have hzero1 := hzero (m.andOperand2 ir) fun hm e he => andOperand2_const hm he
  have hzero2 := hzero (m.s.reg ir.sr1) fun hm e he => hm.reg _ _ he
  have hop2 : m.andOperand2 ir = none → (m₁.s.conc false a).reg ir.sr2 = some 0 := by
    intro hnone
    have hreg : m.s.reg ir.sr2 = none := by
      unfold Mach.andOperand2 at hnone
      split at hnone
      · exact hnone
      · cases hnone
    have hcases : m₁.s.reg ir.sr2 = m.s.reg ir.sr2 ∨ m₁.s.reg ir.sr2 = some (.const 0) := by
      split at h1
      · exact warnOnAndOperand_reg h1
      · cases h1
        exact .inl rfl
    rcases hcases with hcase | hcase
    · exact State.conc_reg_null (hcase.trans hreg)
    · simp [State.conc, hcase]
  have hsim1 := andOperand_sim (m.s.reg ir.sr1) hlv State.conc_reg_null
    (fun hstrict => (hzero1 hstrict).imp_left fun hne hb => hne (heff.broken hb)) h1
  have hsim2 := andOperand_sim (m.andOperand2 ir) (hsim1.issueLevel.trans hlv) hop2 hzero2 h2
  rw [Machine.executeAND_eq, andOperand2_conc]
  refine hsim1.bind (hsim2.bind (setRegAndCC_sim ?_))
  rw [ExprBuilder.eval_and, eval_getD_zero, eval_getD_zero]
  rfl

/-! ## Loads and stores -/

theorem loadFrom_sim {addr : Word} (hlv : m.pkg.issueLevel = lv)
    (h : Executor.loadFrom ir m addr = .ok m') :
    Sim m m' ((m.s.conc lv.strict a).load lv addr ir) (m'.s.conc lv.strict a) := by
  obtain ⟨⟨m₁, value⟩, hread, h⟩ := Except.bind_eq_ok_iff.1 h
  unfold Machine.load
  refine (memReadData_sim hlv hread).bind ?_
  have hstatus : (m₁.s.conc lv.strict a).status = m₁.s.status := rfl
  dsimp only at h ⊢
  rw [hstatus]
  split at h
  · rename_i hne
    cases h
    rw [if_pos hne]
    exact .pure _ _
  · rename_i hne
    rw [setRegAndCC_eq] at h
    cases h
    rw [if_neg hne, State.conc_setRegAndCC]
    exact .silent rfl

theorem executeST_sim (hlv : m.pkg.issueLevel = lv) (hf : m.s.Faithful lv.strict m'.s)
    (h : executeST m ir = .ok m') :
    Sim m m' ((m.s.conc lv.strict a).write lv ((m.s.conc lv.strict a).pc + ir.imm9)
      ((m.s.conc lv.strict a).reg ir.sr) ir) (m'.s.conc lv.strict a) :=
  memWriteData_sim hlv (fun hm e he => hm.reg _ e he) hf h

/-! ## Jumps -/

/-- Whether a `RET` now would be one in the main code. -/
def State.retInMain (s : State) : Bool :=
  s.stackHasMessedUp = false ∧ s.colorStack.length = 1

theorem symbolicPC_faithful {s : State} {strict : Bool} {e : WordExpr}
    (hf : s.Faithful strict m'.s) (hconst : s.All IsConst → e.IsConst) (he : e.asConst = none)
    (h : symbolicPC m ir = .ok m') : False := by
  obtain ⟨⟨note, hraise⟩, hbroken⟩ := Mach.symbolicPC_eq_ok h
  rcases hf with hall | hnormal | ⟨-, hpc, -⟩
  · have := hconst hall
    rw [IsConst, he] at this
    cases this
  · rw [hbroken] at hnormal
    cases hnormal
  · obtain ⟨⟨trigger, hs⟩, -⟩ := Mach.newStateIssue_eq_ok hraise
    refine hpc (m.issueOf .errSymbolicPC ir) ?_ rfl
    rw [hs]
    simp

theorem Machine.executeJMP_eq (M : Machine) (retInMain : Bool) :
    M.executeJMP lv retInMain ir =
      ((if ir.belongsToOS = false ∧ ir.baseR = 7 ∧ retInMain then M.raise lv .errRetInMainCode ir
        else pure M) >>= fun M =>
      if M.status = .normal then M.getReg lv ir.baseR ir >>= fun p => pure { p.1 with pc := p.2 }
      else pure M) := by
  unfold Machine.executeJMP
  split <;> rfl

theorem checkRetInMainCode_sim (hlv : m.pkg.issueLevel = lv)
    (h : checkRetInMainCode m ir = .ok m') :
    Sim m m' (if ir.belongsToOS = false ∧ ir.baseR = 7 ∧ m.s.retInMain then
        (m.s.conc lv.strict a).raise lv .errRetInMainCode ir
      else pure (m.s.conc lv.strict a)) (m'.s.conc lv.strict a) := by
  have hmain : m.s.retInMain = true ↔
      m.s.stackHasMessedUp = false ∧ ∃ color, m.s.colorStack = [color] := by
    simp [State.retInMain, List.length_eq_one_iff]
  rcases Mach.checkRetInMainCode_eq_ok h with
    ⟨hos, hret, hmess, hcolor, m₁, note, hraise, rfl⟩ | ⟨hnot, rfl⟩
  · rw [if_pos ⟨hos, hret, hmain.2 ⟨hmess, hcolor⟩⟩]
    exact (newStateIssue_sim hlv hraise).trans_silent rfl
  · rw [if_neg fun hcond => hnot ⟨hcond.1, hcond.2.1, hmain.1 hcond.2.2⟩]
    exact .pure _ _

theorem executeJMP_sim (hlv : m.pkg.issueLevel = lv) (hf : m.s.Faithful lv.strict m'.s)
    (h : executeJMP m ir = .ok m') :
    Sim m m' ((m.s.conc lv.strict a).executeJMP lv m.s.retInMain ir)
      (m'.s.conc lv.strict a) := by
  obtain ⟨m₁, hcheck, h⟩ := Except.bind_eq_ok_iff.1 h
  have hsim := checkRetInMainCode_sim (a := a) hlv hcheck
  have hstatus : (m₁.s.conc lv.strict a).status = m₁.s.status := rfl
  rw [Machine.executeJMP_eq]
  refine hsim.bind ?_
  rw [hstatus]
  dsimp only at h
  split at h
  · rename_i hnormal
    rw [if_pos hnormal]
    obtain ⟨⟨m₂, newPC⟩, hget, h⟩ := Except.bind_eq_ok_iff.1 h
    refine (getReg_sim (hsim.issueLevel.trans hlv) hget).bind ?_
    dsimp only at h ⊢
    split at h
    · rename_i hnone
      refine (symbolicPC_faithful hf (fun hm => ?_) hnone h).elim
      have heff := Mach.checkRetInMainCode_effects hm hcheck
      exact (Mach.getReg_effects closed_isConst heff.all hget).2
    · rename_i c hc
      rw [WordExpr.asConst_eq_some hc, setRegExpr_pc] at h
      cases h
      rw [State.conc_jump, State.conc_setIR, WordExpr.eval_of_asConst hc]
      exact .silent rfl
  · rename_i hne
    cases h
    rw [if_neg hne]
    exact .pure _ _

/-- The machine after a call: the return address is in `R7`. -/
theorem conc_link {strict : Bool} (s : State) (target : Word) :
    { s.setReg 7 (some (.const s.pc)) with pc := target }.conc strict a =
      { (s.conc strict a).setReg 7 (some (s.conc strict a).pc) with pc := target } := by
  change { (s.setReg 7 (some (.const s.pc))).conc strict a with pc := target } = _
  rw [State.conc_setReg, valueOf_some]
  rfl

theorem executeJSRR_sim (hlv : m.pkg.issueLevel = lv) (hf : m.s.Faithful lv.strict m'.s)
    (h : executeJSRR m ir = .ok m') :
    Sim m m' ((m.s.conc lv.strict a).executeJSRR lv ir) (m'.s.conc lv.strict a) := by
  obtain ⟨⟨m₁, newPC⟩, hget, h⟩ := Except.bind_eq_ok_iff.1 h
  unfold Machine.executeJSRR
  refine (getReg_sim hlv hget).bind ?_
  dsimp only at h ⊢
  split at h
  · rename_i hnone
    exact (symbolicPC_faithful hf (fun hm => (Mach.getReg_effects closed_isConst hm hget).2)
      hnone h).elim
  · rename_i c hc
    rw [WordExpr.asConst_eq_some hc, setRegWord_gpr, Except.ok_bind', setRegExpr_pc] at h
    cases h
    refine ⟨rfl, ?_, by simp [State.jump, State.mark, State.setReg]⟩
    rw [WordExpr.eval_of_asConst hc]
    exact (conc_link m₁.s c).symm

theorem executeJSR_sim (h : executeJSR m ir = .ok m') :
    Sim m m' (pure { (m.s.conc lv.strict a).setReg 7 (some (m.s.conc lv.strict a).pc) with
      pc := (m.s.conc lv.strict a).pc + ir.imm11 }) (m'.s.conc lv.strict a) := by
  cases h
  exact ⟨rfl, (conc_link m.s (m.s.pc + ir.imm11)).symm, by simp [State.setReg]⟩

theorem executeTRAP_sim (hlv : m.pkg.issueLevel = lv) (h : executeTRAP m ir = .ok m') :
    Sim m m' ((m.s.conc lv.strict a).executeTRAP lv ir) (m'.s.conc lv.strict a) := by
  unfold executeTRAP at h
  unfold Machine.executeTRAP
  split at h
  · rename_i hinstant
    cases h
    rw [if_pos hinstant]
    exact .silent rfl
  · rename_i hinstant
    rw [if_neg hinstant]
    rw [setRegWord_gpr, Except.ok_bind'] at h
    obtain ⟨⟨m₁, newPC⟩, hread, h⟩ := Except.bind_eq_ok_iff.1 h
    have hsim := memReadData_sim (a := a)
      (m := ⟨(m.s.setReg 7 (some (.const m.s.pc))).mark (.gpr 7) ir, m.pkg⟩) hlv hread
    rw [State.conc_mark, State.conc_setReg, valueOf_some] at hsim
    have hread : Sim m m₁ _ _ := ⟨hsim.issueLevel, hsim.val, hsim.out⟩
    refine hread.bind ?_
    have hstatus : (m₁.s.conc lv.strict a).status = m₁.s.status := rfl
    dsimp only at h ⊢
    rw [hstatus]
    split at h
    · rename_i hne
      cases h
      rw [if_pos hne]
      exact .pure _ _
    · rename_i hne
      rw [if_neg hne]
      split at h
      · cases h
      · rename_i e
        obtain ⟨c, hc, h⟩ := Except.bind_eq_ok_iff.1 h
        rw [setRegWord_pc] at h
        cases h
        rw [State.conc_jump, valueOf_some, Option.getD_some, castConstant_eq_ok hc]
        exact .silent rfl

theorem executeRTI_sim (hlv : m.pkg.issueLevel = lv) (h : executeRTI m ir = .ok m') :
    Sim m m' ((m.s.conc lv.strict a).fail lv .errInvalidInst ir) (m'.s.conc lv.strict a) := by
  obtain ⟨m₁, hraise, h⟩ := Except.bind_eq_ok_iff.1 h
  obtain ⟨_, hassert, h⟩ := Except.bind_eq_ok_iff.1 h
  cases h
  exact fail_sim hlv hraise (Mach.assertBroken_eq_ok hassert)

/-! ## Forks -/

section Forks

variable {ex : Executor} {addr : WordExpr} {access : Mach → Word → Except Abort Mach}
variable {r : StepResult} {t : State}

theorem State.Faithful.of_copy {s s' : State} {strict : Bool} (hcopy : s.Copy s')
    (hf : s.Faithful strict t) : s'.Faithful strict t :=
  hf.imp_left hcopy.all

/-- Of the accesses to the possible addresses, the assignment selects the one to the
address it gives. -/
theorem handleExpr_sim {X : Machine → Word → Emit Issue Machine} (hwf : ex.WF)
    (howns : ex.Owns m.s.constraints) (hlv : m.pkg.issueLevel = lv)
    (hframes : ∀ {m m' : Mach} {w : Word}, access m w = .ok m' → m.Frames Mach.Any m')
    (hsim : ∀ {m₁ m' : Mach} {w : Word}, m.s.Copy m₁.s → m₁.pkg.issueLevel = lv →
      m₁.s.Faithful lv.strict m'.s → access m₁ w = .ok m' →
      Sim m₁ m' (X (m₁.s.conc lv.strict a) w) (m'.s.conc lv.strict a))
    (h : ex.handleExpr m addr access = .ok r) (ht : t ∈ r.states) (ha : t.constraints.Sat a)
    (hf : m.s.Faithful lv.strict t) :
    Sim m ⟨t, r.pkg⟩ (X (m.s.conc lv.strict a) (addr.eval a)) (t.conc lv.strict a) := by
  obtain ⟨instances, hforks, -, -, -, -, heach⟩ := Executor.handleExpr_eq_ok hwf howns h
  obtain ⟨hall, hlevel⟩ := Executor.accessEach_rule (I := fun pkg => pkg.issueLevel = lv)
    (R := fun i t => ∃ pkg m', pkg.issueLevel = lv ∧ access ⟨i.2, pkg⟩ i.1 = .ok m' ∧ m'.s = t)
    hlv (by
      intro i hi pkg m' hpkg haccess
      obtain ⟨ev, hframe⟩ := hframes haccess
      exact ⟨⟨pkg, m', hpkg, haccess, rfl⟩, hframe.raises.issueLevel.trans hpkg⟩) heach
  obtain ⟨i, hi, pkg, m', hpkg, haccess, rfl⟩ := hall.exists_left ht
  have hcopy := hforks.copy i hi
  have hframe := hframes haccess
  rw [hframe.same.constraints] at ha
  have haddr : addr.eval a = i.1 := ((hforks.sat_iff i hi a).1 ha).2
  have hstep := @hsim ⟨i.2, pkg⟩ _ _ hcopy hpkg (hf.of_copy hcopy) haccess
  rw [haddr, ← hcopy.conc]
  exact ⟨hlevel.trans hlv.symm, hstep.val, by rw [hstep.out, hcopy.issueLog]⟩

/-- The base register of an access. -/
theorem base_sim {m₁ : Mach} {base : WordExpr} (howns : ex.Owns m.s.constraints)
    (hlv : m.pkg.issueLevel = lv) (hf : m.s.Faithful lv.strict t)
    (h : getReg m ir.baseR ir = .ok (m₁, base)) :
    Sim m m₁ ((m.s.conc lv.strict a).getReg lv ir.baseR ir)
        (m₁.s.conc lv.strict a, base.eval a) ∧
      ex.Owns m₁.s.constraints ∧ m₁.pkg.issueLevel = lv ∧ m₁.s.Faithful lv.strict t := by
  have hsim := getReg_sim (a := a) hlv h
  have hsame := (Mach.getReg_effects Mach.closed_any (Mach.all_any _) h).1.same
  refine ⟨hsim, by rwa [hsame.constraints], hsim.issueLevel.trans hlv, hf.imp_left fun hm => ?_⟩
  exact (Mach.getReg_effects closed_isConst hm h).1.all

theorem handleExprLD_sim (hwf : ex.WF) (howns : ex.Owns m.s.constraints)
    (hlv : m.pkg.issueLevel = lv) (h : ex.handleExprLD m addr ir = .ok r) (ht : t ∈ r.states)
    (ha : t.constraints.Sat a) (hf : m.s.Faithful lv.strict t) :
    Sim m ⟨t, r.pkg⟩ ((m.s.conc lv.strict a).load lv (addr.eval a) ir) (t.conc lv.strict a) :=
  handleExpr_sim (X := fun M w => M.load lv w ir) hwf howns hlv
    (fun haccess => (Mach.loadFrom_effects Mach.closed_any (Mach.all_any _) haccess).frames)
    (fun _ hpkg _ haccess => loadFrom_sim hpkg haccess) h ht ha hf

theorem handleExprST_sim {value : Option WordExpr} (hwf : ex.WF)
    (howns : ex.Owns m.s.constraints) (hlv : m.pkg.issueLevel = lv)
    (hvalue : m.s.All WordExpr.IsConst → ∀ e, value = some e → e.IsConst)
    (h : ex.handleExprST m addr value ir = .ok r) (ht : t ∈ r.states)
    (ha : t.constraints.Sat a) (hf : m.s.Faithful lv.strict t) :
    Sim m ⟨t, r.pkg⟩ ((m.s.conc lv.strict a).write lv (addr.eval a)
      (valueOf lv.strict a value) ir) (t.conc lv.strict a) := by
  refine handleExpr_sim (X := fun M w => M.write lv w (valueOf lv.strict a value) ir) hwf howns
    hlv (fun haccess => Mach.memWriteData_frames Mach.closed_any (Mach.all_any _)
      (fun _ _ => trivial) haccess) ?_ h ht ha hf
  intro m₁ m' w hcopy hpkg hf₁ haccess
  obtain ⟨tag, htag⟩ := hcopy
  refine memWriteData_sim hpkg (fun hm => hvalue ?_) hf₁ haccess
  rw [htag] at hm
  exact ⟨hm.reg, hm.mem, hm.out⟩

theorem executeLDR_sim (hwf : ex.WF) (howns : ex.Owns m.s.constraints)
    (hlv : m.pkg.issueLevel = lv) (h : ex.executeLDR m ir = .ok r) (ht : t ∈ r.states)
    (ha : t.constraints.Sat a) (hf : m.s.Faithful lv.strict t) :
    Sim m ⟨t, r.pkg⟩ ((m.s.conc lv.strict a).getReg lv ir.baseR ir >>= fun p =>
      p.1.load lv (p.2 + ir.imm6) ir) (t.conc lv.strict a) := by
  obtain ⟨⟨m₁, base⟩, hget, h⟩ := Except.bind_eq_ok_iff.1 h
  obtain ⟨hsim, howns₁, hlv₁, hf₁⟩ := base_sim (a := a) howns hlv hf hget
  have hload := handleExprLD_sim hwf howns₁ hlv₁ h ht ha hf₁
  rw [ExprBuilder.eval_add] at hload
  exact hsim.bind hload

theorem executeSTR_sim (hwf : ex.WF) (howns : ex.Owns m.s.constraints)
    (hlv : m.pkg.issueLevel = lv) (h : ex.executeSTR m ir = .ok r) (ht : t ∈ r.states)
    (ha : t.constraints.Sat a) (hf : m.s.Faithful lv.strict t) :
    Sim m ⟨t, r.pkg⟩ ((m.s.conc lv.strict a).getReg lv ir.baseR ir >>= fun p =>
      p.1.write lv (p.2 + ir.imm6) ((m.s.conc lv.strict a).reg ir.sr) ir)
      (t.conc lv.strict a) := by
  obtain ⟨⟨m₁, base⟩, hget, h⟩ := Except.bind_eq_ok_iff.1 h
  obtain ⟨hsim, howns₁, hlv₁, hf₁⟩ := base_sim (a := a) howns hlv hf hget
  have hstore := handleExprST_sim hwf howns₁ hlv₁
    (fun hm e he => hm.reg ir.sr e (Mach.getReg_keeps hget he)) h ht ha hf₁
  rw [ExprBuilder.eval_add] at hstore
  exact hsim.bind hstore

/-- The first part of an indirect access. -/
theorem readMidAddr_sim {go : Mach → WordExpr → Except Abort StepResult}
    {X : Machine → Word → Emit Issue Machine} (howns : ex.Owns m.s.constraints)
    (hlv : m.pkg.issueLevel = lv) (hf : m.s.Faithful lv.strict t)
    (hgo : ∀ {m₁ : Mach} {e : WordExpr}, ex.Owns m₁.s.constraints → m₁.pkg.issueLevel = lv →
      m₁.s.Faithful lv.strict t → go m₁ e = .ok r →
      Sim m₁ ⟨t, r.pkg⟩ (X (m₁.s.conc lv.strict a) (e.eval a)) (t.conc lv.strict a))
    (h : ex.readMidAddr m ir go = .ok r) (ht : t ∈ r.states) :
    Sim m ⟨t, r.pkg⟩ ((m.s.conc lv.strict a).indirect lv ir X) (t.conc lv.strict a) := by
  obtain ⟨m₁, midAddr, hread, h⟩ := Executor.readMidAddr_eq_ok h
  have hsim := memReadData_sim (a := a) hlv hread
  have hstatus : (m₁.s.conc lv.strict a).status = m₁.s.status := rfl
  unfold Machine.indirect
  refine hsim.bind ?_
  dsimp only
  rw [hstatus]
  rcases h with ⟨hne, rfl⟩ | ⟨hnormal, e, rfl, h⟩
  · obtain rfl := List.mem_singleton.1 ht
    rw [if_pos hne]
    exact .pure m₁ _
  · have hsame := (Mach.memReadData_effects Mach.closed_any (Mach.all_any _) hread).1.same
    rw [if_neg (by simp [hnormal]), valueOf_some, Option.getD_some]
    refine hgo (by rwa [hsame.constraints]) (hsim.issueLevel.trans hlv) (hf.imp_left fun hm => ?_) h
    exact (Mach.memReadData_effects closed_isConst hm hread).1.all

theorem executeLDI_sim (hwf : ex.WF) (howns : ex.Owns m.s.constraints)
    (hlv : m.pkg.issueLevel = lv) (h : ex.executeLDI m ir = .ok r) (ht : t ∈ r.states)
    (ha : t.constraints.Sat a) (hf : m.s.Faithful lv.strict t) :
    Sim m ⟨t, r.pkg⟩ ((m.s.conc lv.strict a).indirect lv ir fun M w => M.load lv w ir)
      (t.conc lv.strict a) :=
  readMidAddr_sim howns hlv hf
    (fun howns₁ hlv₁ hf₁ hgo => handleExprLD_sim hwf howns₁ hlv₁ hgo ht ha hf₁) h ht

theorem executeSTI_sim (hwf : ex.WF) (howns : ex.Owns m.s.constraints)
    (hlv : m.pkg.issueLevel = lv) (h : ex.executeSTI m ir = .ok r) (ht : t ∈ r.states)
    (ha : t.constraints.Sat a) (hf : m.s.Faithful lv.strict t) :
    Sim m ⟨t, r.pkg⟩ ((m.s.conc lv.strict a).indirect lv ir fun M w =>
      M.write lv w (M.reg ir.sr) ir) (t.conc lv.strict a) :=
  readMidAddr_sim howns hlv hf
    (fun howns₁ hlv₁ hf₁ hgo =>
      handleExprST_sim hwf howns₁ hlv₁ (fun hm e he => hm.reg _ e he) hgo ht ha hf₁) h ht

/-! ## Branches -/

theorem InstValue.cc_lt (i : InstValue) : i.cc.toNat < 8 := by
  have h : (i.ir &&& 0x0E00).toNat ≤ (0x0E00 : Word).toNat := by
    rw [BitVec.toNat_and]
    exact Nat.and_le_right
  have heq : (0x0E00 : Word).toNat = 3584 := rfl
  rw [InstValue.cc, BitVec.toNat_ushiftRight, Nat.shiftRight_eq_div_pow]
  omega

/-- The branch condition tests the sign of the value. -/
theorem eval_brCondition {cc : Word} (e : WordExpr) (a : Assignment) (h0 : cc ≠ 0) (h7 : cc ≠ 7)
    (hlt : cc.toNat < 8) :
    (Executor.brCondition cc e).eval a = Machine.ccHolds cc (e.eval a) := by
  have hcases : cc = 1 ∨ cc = 2 ∨ cc = 3 ∨ cc = 4 ∨ cc = 5 ∨ cc = 6 := by bv_omega
  generalize hv : e.eval a = v
  have hzero : v = 0#16 ↔ v.toInt = 0 := by
    rw [← BitVec.toInt_inj]
    rfl
  rw [Bool.eq_iff_iff]
  rcases hcases with rfl | rfl | rfl | rfl | rfl | rfl <;>
    simp [Executor.brCondition, Machine.ccHolds, hv, BitVec.slt_iff_toInt_lt,
      BitVec.sle_iff_toInt_le] <;>
    rw [hzero] <;> omega

/-- The answer of the solver decides a branch for every assignment of the state. -/
theorem evaluate_sound {cs : ConstraintSet} {c : BoolExpr} (exact : ex.solver.Exact)
    (ha : cs.Sat a) :
    (ex.solver.evaluate cs c = .valid → c.eval a = true) ∧
    (ex.solver.evaluate cs c = .invalid → c.eval a = false) :=
  ⟨fun h => (Solver.evaluate_valid_iff exact ⟨a, ha⟩).1 h a ha,
    fun h => (Solver.evaluate_invalid_iff exact ⟨a, ha⟩).1 h a ha⟩

theorem executeBR_sim (hwf : ex.WF) (hlv : m.pkg.issueLevel = lv) (h : ex.executeBR m ir = .ok r)
    (ht : t ∈ r.states) (ha : t.constraints.Sat a) :
    Sim m ⟨t, r.pkg⟩ ((m.s.conc lv.strict a).executeBR lv ir) (t.conc lv.strict a) := by
  obtain ⟨m₁, br, brCond, hsolve, h⟩ := Executor.executeBR_eq_ok h
  unfold Machine.executeBR
  rcases Executor.solveBRCond_eq_ok hsolve with ⟨h0, rfl, rfl⟩ | ⟨h7, rfl, rfl⟩ |
    ⟨h0, h7, e, hget, rfl, hbr⟩
  · rcases h with ⟨hbr, -⟩ | ⟨-, rfl⟩ | ⟨hbr, -⟩
    · cases hbr
    · obtain rfl := List.mem_singleton.1 ht
      rw [if_pos h0]
      exact .pure m₁ _
    · cases hbr
  · rcases h with ⟨-, rfl⟩ | ⟨hbr, -⟩ | ⟨hbr, -⟩
    · obtain rfl := List.mem_singleton.1 ht
      rw [if_neg (by simp [h7]), if_pos h7, State.conc_jump]
      exact .silent rfl
    · cases hbr
    · cases hbr
  · have hsim := getCCExpr_sim (a := a) hlv hget
    have heval := eval_brCondition e a h0 h7 ir.cc_lt
    rw [if_neg h0, if_neg h7]
    refine hsim.bind ?_
    dsimp only
    rw [← heval]
    rcases h with ⟨rfl, rfl⟩ | ⟨rfl, rfl⟩ | ⟨rfl, -, c, cs₀, cs₁, hc, hcs₀, hcs₁, rfl⟩
    · obtain rfl := List.mem_singleton.1 ht
      rw [if_pos ((evaluate_sound hwf.exact ha).1 hbr.symm), State.conc_jump]
      exact .silent rfl
    · obtain rfl := List.mem_singleton.1 ht
      rw [if_neg (by simp [(evaluate_sound hwf.exact ha).2 hbr.symm])]
      exact .pure m₁ _
    · cases hc
      simp only [List.mem_cons, List.not_mem_nil, or_false] at ht
      rcases ht with rfl | rfl
      · have hcond := ((ConstraintSet.addConstraint_sat_iff hcs₀).1 ha).2
        rw [BoolExpr.eval_createIsZero, Bool.not_eq_true'] at hcond
        rw [if_neg (by simp [hcond])]
        exact ⟨rfl, rfl, by simp [State.tagged]⟩
      · have hcond := ((ConstraintSet.addConstraint_sat_iff hcs₁).1 ha).2
        rw [if_pos hcond]
        exact ⟨rfl, rfl, by simp [State.jump, State.mark]⟩

end Forks

/-! ## Whole steps -/

section Steps

variable {ex : Executor} {r : StepResult} {t : State}

theorem executeSimple_sim (hlv : m.pkg.issueLevel = lv) (hf : m.s.Faithful lv.strict m'.s)
    (hfork : ir.instID ≠ .BR ∧ ir.instID ≠ .LDR ∧ ir.instID ≠ .LDI ∧ ir.instID ≠ .STR ∧
      ir.instID ≠ .STI) (h : Executor.executeSimple m ir = .ok m') :
    Sim m m' ((m.s.conc lv.strict a).execute lv m.s.retInMain ir) (m'.s.conc lv.strict a) := by
  obtain ⟨hBR, hLDR, hLDI, hSTR, hSTI⟩ := hfork
  unfold Machine.execute
  cases hid : ir.instID with
  | BR => exact absurd hid hBR
  | LDR => exact absurd hid hLDR
  | LDI => exact absurd hid hLDI
  | STR => exact absurd hid hSTR
  | STI => exact absurd hid hSTI
  | ADD => simp only [Executor.executeSimple, hid] at h; exact executeADD_sim hlv h
  | ADDi => simp only [Executor.executeSimple, hid] at h; exact executeADD_sim hlv h
  | AND => simp only [Executor.executeSimple, hid] at h; exact executeAND_sim hlv hf h
  | ANDi => simp only [Executor.executeSimple, hid] at h; exact executeAND_sim hlv hf h
  | JMP => simp only [Executor.executeSimple, hid] at h; exact executeJMP_sim hlv hf h
  | JSR => simp only [Executor.executeSimple, hid] at h; exact executeJSR_sim h
  | JSRR => simp only [Executor.executeSimple, hid] at h; exact executeJSRR_sim hlv hf h
  | LD => simp only [Executor.executeSimple, hid] at h; exact loadFrom_sim hlv h
  | LEA =>
      simp only [Executor.executeSimple, hid] at h
      cases h
      exact setRegAndCC_sim rfl
  | NOT => simp only [Executor.executeSimple, hid] at h; exact executeNOT_sim hlv h
  | ST => simp only [Executor.executeSimple, hid] at h; exact executeST_sim hlv hf h
  | TRAP => simp only [Executor.executeSimple, hid] at h; exact executeTRAP_sim hlv h
  | RTI => simp only [Executor.executeSimple, hid] at h; exact executeRTI_sim hlv h

theorem execute_sim (hwf : ex.WF) (howns : ex.Owns m.s.constraints) (hlv : m.pkg.issueLevel = lv)
    (h : ex.execute m ir = .ok r) (ht : t ∈ r.states) (ha : t.constraints.Sat a)
    (hf : m.s.Faithful lv.strict t) :
    Sim m ⟨t, r.pkg⟩ ((m.s.conc lv.strict a).execute lv m.s.retInMain ir)
      (t.conc lv.strict a) := by
  unfold Executor.execute at h
  split at h
  · rename_i hid
    simp only [Machine.execute, hid]
    exact executeBR_sim hwf hlv h ht ha
  · rename_i hid
    simp only [Machine.execute, hid]
    exact executeLDR_sim hwf howns hlv h ht ha hf
  · rename_i hid
    simp only [Machine.execute, hid]
    exact executeLDI_sim hwf howns hlv h ht ha hf
  · rename_i hid
    simp only [Machine.execute, hid]
    exact executeSTR_sim hwf howns hlv h ht ha hf
  · rename_i hid
    simp only [Machine.execute, hid]
    exact executeSTI_sim hwf howns hlv h ht ha hf
  · rename_i hBR hLDR hLDI hSTR hSTI
    obtain ⟨m₁, hsimple, h⟩ := Except.bind_eq_ok_iff.1 h
    cases h
    obtain rfl := List.mem_singleton.1 ht
    exact executeSimple_sim hlv hf ⟨hBR, hLDR, hLDI, hSTR, hSTI⟩ hsimple

theorem conc_fetched {strict : Bool} :
    (m.fetched ir).s.conc strict a = { m.s.conc strict a with
      latestInst := some ir
      latestNonOSInst := if ir.belongsToOS then (m.s.conc strict a).latestNonOSInst else some ir
      pc := (m.s.conc strict a).pc + 1 } := by
  have hlast : (m.fetched ir).s.latestNonOSInst.1 =
      if ir.belongsToOS then m.s.latestNonOSInst.1 else some ir := by
    change (if ir.belongsToOS then m.s.latestNonOSInst else (some ir, _)).1 = _
    split <;> rfl
  change { m.s.conc strict a with
    latestInst := some ir
    latestNonOSInst := (m.fetched ir).s.latestNonOSInst.1
    pc := m.s.pc + 1 } = _
  rw [hlast]
  rfl

/-- Every result of a step, under every assignment of its inputs, is what the concrete
machine does in one step, and the same issues are raised. -/
theorem step_sim (hwf : ex.WF) (howns : ex.Owns m.s.constraints) (hlv : m.pkg.issueLevel = lv)
    (hnormal : m.s.status = .normal) (h : ex.step m = .ok r) (ht : t ∈ r.states)
    (ha : t.constraints.Sat a) (hf : m.s.Faithful lv.strict t) :
    Sim m ⟨t, r.pkg⟩ ((m.s.conc lv.strict a).step lv m.s.retInMain) (t.conc lv.strict a) := by
  have hmem : ∀ {v : Option MemValue}, m.s.mem.read m.s.pc = v →
      (m.s.conc lv.strict a).mem (m.s.conc lv.strict a).pc =
        v.map (MemValue.conc lv.strict a) := by
    rintro v rfl
    rfl
  unfold Machine.step
  rcases Executor.step_eq_ok h with ⟨type, note, m', hread, hraise, hbroken, rfl⟩ |
    ⟨ir, hread, ⟨hne, -⟩ | ⟨-, h⟩⟩
  · obtain rfl := List.mem_singleton.1 ht
    rcases hread with ⟨hread, rfl⟩ | ⟨⟨d, hread⟩, rfl⟩
    · rw [hmem hread, Option.map_none]
      exact fail_sim hlv hraise hbroken
    · rw [hmem hread, Option.map_some]
      exact fail_sim hlv hraise hbroken
  · exact absurd hnormal hne
  · rw [hmem hread, Option.map_some]
    have hsim := execute_sim (m := m.fetched ir) (a := a) hwf howns hlv h ht ha
      (hf.imp_left Executor.fetched_all)
    rw [conc_fetched] at hsim
    exact ⟨hsim.issueLevel, hsim.val, hsim.out⟩

end Steps

end Klc3
