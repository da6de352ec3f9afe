import Klc3.Machine.Step
import Klc3.Verification.Executor.Step

/-!
# The executor simulates the concrete machine

A state under an assignment of the inputs is a concrete machine. Every function of the
executor, on a state whose constraints the assignment satisfies, does to that machine
what the function of the same name in `Machine` does, and raises the same issues.
-/

namespace Klc3

namespace Machine

variable {lv : Levels} {M : Machine} {r : Fin 8} {ir : InstValue} {w : Word}

theorem getReg_some (h : M.reg r = some w) : M.getReg lv r ir = pure (M, w) := by
  simp [getReg, h]

theorem getReg_none_os (h : M.reg r = none) (hos : ir.belongsToOS = true) :
    M.getReg lv r ir = pure (M.setReg r (some 0), 0) := by
  simp only [getReg, h, hos, if_true]
  rfl

theorem getCC_none (h : M.ccRef = none) :
    M.getCC lv ir = (M.raise lv .warnUseUninitializedCC ir >>= fun M => pure (M, 0)) := by
  simp only [getCC, h]

theorem getCC_some (h : M.ccRef = some r) (hreg : M.reg r = some w) :
    M.getCC lv ir = pure (M, w) := by
  simp only [getCC, h, hreg]

theorem getCC_null (h : M.ccRef = some r) (hreg : M.reg r = none) :
    M.getCC lv ir = (M.raise lv .warnUseUninitializedRegister ir >>= fun M =>
      pure (M.setReg r (some 0), 0)) := by
  simp only [getCC, h, hreg]

theorem setReg_eq_self {value : Option Word} (h : M.reg r = value) : M.setReg r value = M := by
  have hreg : (fun x => if x = r then value else M.reg x) = M.reg := by
    funext x
    split
    · rename_i hx
      rw [hx, h]
    · rfl
  simp only [setReg, hreg]

theorem getReg_none_user (h : M.reg r = none) (huser : ir.belongsToOS = false) :
    M.getReg lv r ir = (M.raise lv .warnUseUninitializedRegister ir >>= fun M =>
      pure (M.setReg r (some 0), 0)) := by
  simp only [getReg, h, huser, Bool.false_eq_true, if_false]

end Machine

/-! ## The machine of a state -/

/-- The value of an expression. Only with `strict` an uninitialized one is kept. -/
def valueOf (strict : Bool) (a : Assignment) (e : Option WordExpr) : Option Word :=
  if strict then e.map (·.eval a) else some ((e.map (·.eval a)).getD 0)

def MemValue.conc (strict : Bool) (a : Assignment) : MemValue → Cell
  | .inst i => .inst i
  | .data d => .data (valueOf strict a d.e) d.forRead d.forWrite

/-- The concrete machine that a state stands for under an assignment. -/
def State.conc (strict : Bool) (a : Assignment) (s : State) : Machine where
  status := s.status
  reg r := valueOf strict a (s.reg r)
  ccRef := s.ccRef
  pc := s.pc
  mem addr := (s.mem.read addr).map (MemValue.conc strict a)
  uninit addr := if strict then (s.memStoringUninitReg addr).map Prod.fst else none
  out := s.lc3Out.map (·.eval a)
  latestInst := s.latestInst.1
  latestNonOSInst := s.latestNonOSInst.1

/-- The issues that the concrete machine emits. -/
def visible (log : List Issue) : List Issue :=
  log.filter fun issue => issue.type ≠ .warnUseUninitializedRegister

/-- A result `t` of `s` for which the concrete machine tells everything: it goes on, or
nothing but the inputs decided that it stops. On fixed inputs this is always so. -/
def State.Faithful (strict : Bool) (s t : State) : Prop :=
  s.All WordExpr.IsConst ∨ t.status = .normal ∨
    ((∀ e ∈ t.mcrLog, e.IsConst) ∧ (∀ issue ∈ t.issueLog, issue.type ≠ .errSymbolicPC) ∧
      (strict = true → t.status ≠ .broken))

/-- Whether using an uninitialized register is an error. -/
def Machine.Levels.strict (lv : Machine.Levels) : Bool :=
  lv .warnUseUninitializedRegister = some .error

section Values

variable {strict : Bool} {a : Assignment}

@[simp] theorem valueOf_some (e : WordExpr) : valueOf strict a (some e) = some (e.eval a) := by
  cases strict <;> rfl

theorem valueOf_none_strict : valueOf true a none = none := rfl

theorem valueOf_none_lenient : valueOf false a none = some 0 := rfl

@[simp] theorem visible_append (log log' : List Issue) :
    visible (log ++ log') = visible log ++ visible log' := by
  simp [visible]

@[simp] theorem visible_nil : visible [] = [] := rfl

theorem MemValue.conc_value (v : MemValue) :
    (v.conc strict a).value = valueOf strict a v.e := by
  cases v with
  | inst i => simp [MemValue.conc, Cell.value, MemValue.e]
  | data d => rfl

end Values

namespace State

variable {strict : Bool} {a : Assignment} {s : State}

@[simp] theorem conc_setReg (r : Fin 8) (value : Option WordExpr) :
    (s.setReg r value).conc strict a = (s.conc strict a).setReg r (valueOf strict a value) := by
  simp only [State.conc, State.setReg, Machine.setReg, Machine.mk.injEq, true_and, and_true]
  funext x
  split <;> rfl

@[simp] theorem conc_mark (r : Reg) (ir : InstValue) :
    (s.mark r ir).conc strict a = s.conc strict a := rfl

@[simp] theorem conc_setRegAndCC (r : Fin 8) (value : Option WordExpr) (ir : InstValue) :
    (s.setRegAndCC r value ir).conc strict a =
      (s.conc strict a).setRegAndCC r (valueOf strict a value) := by
  change { (s.setReg r value).conc strict a with ccRef := some r } = _
  rw [conc_setReg]
  rfl

@[simp] theorem conc_jump (target : Word) (ir : InstValue) :
    (s.jump target ir).conc strict a = { s.conc strict a with pc := target } := rfl

@[simp] theorem conc_setIR (e : WordExpr) :
    { s with ir := e }.conc strict a = s.conc strict a := rfl

theorem Copy.conc {t : State} (h : s.Copy t) : t.conc strict a = s.conc strict a := by
  obtain ⟨tag, rfl⟩ := h
  rfl

theorem conc_reg_null {r : Fin 8} (h : s.reg r = none) : (s.conc false a).reg r = some 0 := by
  simp [State.conc, h, valueOf_none_lenient]

end State

/-! ## Simulation -/

section

variable {α β : Type} {lv : Machine.Levels} {a : Assignment} {m m' m'' : Mach} {ir : InstValue}

/-- The computation `X` has the value `x`, and emits what is logged from `m` to `m'`. -/
structure Sim (m m' : Mach) (X : Emit Issue α) (x : α) : Prop where
  issueLevel : m'.pkg.issueLevel = m.pkg.issueLevel
  val : X.val = x
  out : visible m'.s.issueLog = visible m.s.issueLog ++ X.out

theorem Sim.pure (m : Mach) (x : α) : Sim m m (pure x) x :=
  ⟨rfl, rfl, by simp⟩

/-- A change that raises nothing. -/
theorem Sim.silent {s' : State} {x : α} (h : s'.issueLog = m.s.issueLog) :
    Sim m ⟨s', m.pkg⟩ (Pure.pure x) x :=
  ⟨rfl, rfl, by simp [h]⟩

theorem Sim.bind {X : Emit Issue α} {x : α} {f : α → Emit Issue β} {y : β} (h : Sim m m' X x)
    (h' : Sim m' m'' (f x) y) : Sim m m'' (X >>= f) y where
  issueLevel := h'.issueLevel.trans h.issueLevel
  val := by rw [Emit.bind_val, h.val, h'.val]
  out := by rw [Emit.bind_out, h.val, h'.out, h.out, List.append_assoc]

/-- A silent change at the end. -/
theorem Sim.trans_silent {X : Emit Issue α} {x : α} {s' : State} (h : Sim m m' X x)
    (hlog : s'.issueLog = m'.s.issueLog) : Sim m ⟨s', m'.pkg⟩ X x :=
  ⟨h.issueLevel, h.val, by rw [← h.out, hlog]⟩

theorem newStateIssue_sim {type : IssueType} {location : Option InstValue} {note : String}
    (hlv : m.pkg.issueLevel = lv) (h : m.newStateIssue type location note = .ok m') :
    Sim m m' ((m.s.conc lv.strict a).raise lv type location) (m'.s.conc lv.strict a) := by
  obtain ⟨⟨trigger, hs⟩, hraises⟩ := Mach.newStateIssue_eq_ok h
  refine ⟨hraises.issueLevel, ?_, ?_⟩
  · rw [hs, hlv]
    rfl
  · rw [hs]
    simp only [visible_append, Machine.raise]
    congr 1
    by_cases htype : type = .warnUseUninitializedRegister
    · simp [visible, Mach.issueOf, htype]
    · simp only [visible, Mach.issueOf, ne_eq, htype, not_false_eq_true, decide_true,
        List.filter_cons_of_pos, List.filter_nil, if_false]
      rfl

theorem fail_sim {type : IssueType} {location : Option InstValue} {note : String}
    (hlv : m.pkg.issueLevel = lv) (h : m.newStateIssue type location note = .ok m')
    (hbroken : m'.s.status = .broken) :
    Sim m m' ((m.s.conc lv.strict a).fail lv type location) (m'.s.conc lv.strict a) := by
  have hconc : { m'.s.conc lv.strict a with status := .broken } = m'.s.conc lv.strict a := by
    rw [← hbroken]
    rfl
  refine (newStateIssue_sim hlv h).bind ?_
  rw [hconc]
  exact .pure _ _

/-- When it is no error, the use of an uninitialized register is not noticed. -/
theorem newStateIssue_uninit_sim {location : Option InstValue} {note : String}
    (hlv : m.pkg.issueLevel = lv) (hlenient : lv.strict = false)
    (h : m.newStateIssue .warnUseUninitializedRegister location note = .ok m') :
    Sim m m' (pure (m.s.conc lv.strict a)) (m'.s.conc lv.strict a) := by
  have hsim := newStateIssue_sim (a := a) hlv h
  refine ⟨hsim.issueLevel, ?_, ?_⟩
  · rw [← hsim.val]
    simp only [Machine.Levels.strict, decide_eq_false_iff_not] at hlenient
    simp [Machine.raise, hlenient]
  · rw [hsim.out]
    simp [Machine.raise]

theorem getReg_sim {r : Fin 8} {e : WordExpr} (hlv : m.pkg.issueLevel = lv)
    (h : getReg m r ir = .ok (m', e)) :
    Sim m m' ((m.s.conc lv.strict a).getReg lv r ir) (m'.s.conc lv.strict a, e.eval a) := by
  rcases Mach.getReg_eq_ok h with ⟨hreg, rfl⟩ | ⟨hreg, rfl, m₁, hraise, rfl⟩
  · have hvalue : (m'.s.conc lv.strict a).reg r = some (e.eval a) := by
      simp [State.conc, hreg]
    unfold Machine.getReg
    rw [hvalue]
    exact .pure m' _
  · have hset : ∀ {m₁ : Mach}, (m₁.s.setReg r (some (.const 0))).conc lv.strict a =
        (m₁.s.conc lv.strict a).setReg r (some 0) := by
      intro m₁
      rw [State.conc_setReg, valueOf_some]
      rfl
    cases hstrict : lv.strict with
    | true =>
        have hvalue : (m.s.conc true a).reg r = none := by
          simp [State.conc, hreg, valueOf_none_strict]
        rw [hstrict] at hset
        rcases hraise with ⟨hos, rfl⟩ | ⟨huser, note, hraise⟩
        · rw [Machine.getReg_none_os hvalue hos, hset]
          exact .silent rfl
        · have hsim := newStateIssue_sim (a := a) hlv hraise
          rw [hstrict] at hsim
          rw [Machine.getReg_none_user hvalue huser, hset]
          exact hsim.bind (.silent rfl)
    | false =>
        have hvalue : (m.s.conc false a).reg r = some 0 := State.conc_reg_null hreg
        rw [hstrict] at hset
        rw [Machine.getReg_some hvalue, hset]
        rcases hraise with ⟨hos, rfl⟩ | ⟨huser, note, hraise⟩
        · rw [Machine.setReg_eq_self hvalue]
          exact .silent rfl
        · have hreg₁ : m₁.s.reg r = none := by
            obtain ⟨⟨trigger, hs⟩, -⟩ := Mach.newStateIssue_eq_ok hraise
            rw [hs]
            exact hreg
          have hsim := newStateIssue_uninit_sim (a := a) hlv hstrict hraise
          rw [hstrict] at hsim
          rw [Machine.setReg_eq_self (State.conc_reg_null hreg₁), ← hsim.val]
          exact Sim.trans_silent ⟨hsim.issueLevel, rfl, hsim.out⟩ rfl

/-- An uninitialized register that is reported and becomes 0, as the machine sees it. -/
theorem uninit_sim {m₁ : Mach} {r : Fin 8} {location : Option InstValue} {note : String}
    (hlv : m.pkg.issueLevel = lv) (hreg : (m.s.conc false a).reg r = some 0)
    (h : m.newStateIssue .warnUseUninitializedRegister location note = .ok m₁) :
    Sim m ⟨m₁.s.setReg r (some (.const 0)), m₁.pkg⟩
      (if lv.strict then
        (m.s.conc lv.strict a).raise lv .warnUseUninitializedRegister location >>= fun M =>
          pure (M.setReg r (some 0))
      else pure (m.s.conc lv.strict a))
      ((m₁.s.setReg r (some (.const 0))).conc lv.strict a) := by
  have hset : (m₁.s.setReg r (some (.const 0))).conc lv.strict a =
      (m₁.s.conc lv.strict a).setReg r (some 0) := by
    rw [State.conc_setReg, valueOf_some]
    rfl
  rw [hset]
  have hsim := newStateIssue_sim (a := a) hlv h
  cases hstrict : lv.strict with
  | true =>
      rw [hstrict] at hsim
      exact hsim.bind (.silent rfl)
  | false =>
      have hquiet := newStateIssue_uninit_sim (a := a) hlv hstrict h
      rw [hstrict] at hquiet
      have hsame : m.s.conc false a = m₁.s.conc false a := hquiet.val
      rw [Machine.setReg_eq_self (hsame ▸ hreg)]
      exact hquiet.trans_silent rfl

theorem getCCExpr_sim {e : WordExpr} (hlv : m.pkg.issueLevel = lv)
    (h : getCCExpr m ir = .ok (m', e)) :
    Sim m m' ((m.s.conc lv.strict a).getCC lv ir) (m'.s.conc lv.strict a, e.eval a) := by
  unfold getCCExpr at h
  split at h
  · rename_i e' hcc
    cases h
    obtain ⟨r, href, hreg⟩ := Option.bind_eq_some_iff.1 hcc
    rw [Machine.getCC_some (r := r) href (w := e.eval a) (by simp [State.conc, hreg])]
    exact .pure _ _
  · rename_i hcc
    split at h
    · rename_i href
      obtain ⟨m₁, hraise, h⟩ := Except.bind_eq_ok_iff.1 h
      cases h
      rw [Machine.getCC_none href]
      exact (newStateIssue_sim hlv hraise).bind (.pure _ _)
    · rename_i r href
      obtain ⟨m₁, hraise, h⟩ := Except.bind_eq_ok_iff.1 h
      cases h
      have hreg : m.s.reg r = none := by
        simpa [State.getCCExpr, href] using hcc
      have href₁ : m₁.s.ccRef = some r := by
        obtain ⟨⟨trigger, hs⟩, -⟩ := Mach.newStateIssue_eq_ok hraise
        rw [hs]
        exact href
      have hsim := uninit_sim hlv (State.conc_reg_null (a := a) hreg) hraise
      have hcc' : (m₁.s.setReg r (some (.const 0))).ccRef = some r := href₁
      have heq : { m₁.s.setReg r (some (.const 0)) with ccRef := some r } =
          m₁.s.setReg r (some (.const 0)) := by
        rw [← hcc']
      simp only [heq]
      cases hstrict : lv.strict with
      | true =>
          rw [hstrict, if_pos rfl] at hsim
          rw [Machine.getCC_null (r := r) href (by simp [State.conc, hreg, valueOf_none_strict])]
          refine ⟨hsim.issueLevel, ?_, ?_⟩
          · have hval := hsim.val
            simp only [Emit.bind_val, Emit.pure_val] at hval ⊢
            rw [hval]
            rfl
          · simpa using hsim.out
      | false =>
          rw [hstrict, if_neg (by simp)] at hsim
          rw [Machine.getCC_some (r := r) href (w := 0)
            (by simp [State.conc, hreg, valueOf_none_lenient])]
          refine ⟨hsim.issueLevel, ?_, hsim.out⟩
          rw [← hsim.val]
          rfl

/-! ## Memory -/

theorem warnOnRead_sim {addr : Word} {value : MemValue} (hlv : m.pkg.issueLevel = lv)
    (h : warnOnRead m addr value ir = .ok m') :
    Sim m m' ((m.s.conc lv.strict a).warnOnRead lv (value.conc lv.strict a) ir)
      (m'.s.conc lv.strict a) := by
  unfold warnOnRead at h
  dsimp only at h
  split at h
  · rename_i d
    simp only [MemValue.conc, Machine.warnOnRead]
    split at h
    · rename_i hwrite
      rw [if_pos hwrite]
      exact newStateIssue_sim hlv h
    · rename_i hwrite
      cases h
      rw [if_neg hwrite]
      exact .pure _ _
  · simp only [MemValue.conc, Machine.warnOnRead]
    exact newStateIssue_sim hlv h

theorem memReadData_sim {addr : Word} {dr : Option (Fin 8)} {value : Option WordExpr}
    (hlv : m.pkg.issueLevel = lv) (h : memReadData m addr ir dr = .ok (m', value)) :
    Sim m m' ((m.s.conc lv.strict a).read lv addr ir dr)
      (m'.s.conc lv.strict a, valueOf lv.strict a value) := by
  have hmem : (m.s.conc lv.strict a).mem addr =
      (m.s.mem.read addr).map (MemValue.conc lv.strict a) := rfl
  unfold memReadData at h
  unfold Machine.read
  split at h
  · rename_i hread
    obtain ⟨m₁, hraise, h⟩ := Except.bind_eq_ok_iff.1 h
    cases h
    rw [hread, Option.map_none] at hmem
    rw [hmem]
    exact (newStateIssue_sim hlv hraise).bind (by rw [valueOf_some]; exact .pure _ _)
  · rename_i cell hread
    obtain ⟨m₁, hwarn, h⟩ := Except.bind_eq_ok_iff.1 h
    rw [hread, Option.map_some] at hmem
    rw [hmem]
    have hsim := warnOnRead_sim (a := a) hlv hwarn
    refine hsim.bind ?_
    have hlv₁ := hsim.issueLevel.trans hlv
    have hvalue : (cell.conc lv.strict a).value = valueOf lv.strict a cell.e :=
      cell.conc_value
    split at h
    · rename_i e he
      cases h
      rw [he, valueOf_some] at hvalue
      simp only [hvalue, valueOf_some]
      exact .pure _ _
    · rename_i he
      rw [he] at hvalue
      cases hstrict : lv.strict with
      | true =>
          rw [hstrict, valueOf_none_strict] at hvalue
          simp only [hvalue]
          have huninit : (m₁.s.conc true a).uninit addr =
              (m₁.s.memStoringUninitReg addr).map Prod.fst := rfl
          split at h
          · rename_i hentry
            cases h
            rw [hentry, Option.map_none] at huninit
            simp only [huninit, valueOf_some]
            exact .pure _ _
          · rename_i r stored hentry
            rw [hentry, Option.map_some] at huninit
            simp only [huninit]
            split at h
            · rename_i hdr
              cases h
              rw [if_pos hdr, valueOf_none_strict]
              exact .pure _ _
            · rename_i hdr
              obtain ⟨m₂, hraise, h⟩ := Except.bind_eq_ok_iff.1 h
              cases h
              rw [if_neg hdr]
              have hsim₂ := newStateIssue_sim (a := a) hlv₁ hraise
              rw [hstrict] at hsim₂
              refine hsim₂.bind ?_
              have hclear : State.conc true a { m₂.s with
                  memStoringUninitReg := fun x =>
                    if x = addr then none else m₂.s.memStoringUninitReg x } =
                  { m₂.s.conc true a with
                    uninit := fun x => if x = addr then none else (m₂.s.conc true a).uninit x } := by
                simp only [State.conc, if_true, Machine.mk.injEq, true_and, and_true]
                funext x
                split <;> rfl
              rw [valueOf_some]
              dsimp only
              rw [hclear]
              exact .silent rfl
      | false =>
          rw [hstrict, valueOf_none_lenient] at hvalue
          simp only [hvalue]
          split at h
          · cases h
            rw [valueOf_some]
            exact .pure _ _
          · split at h
            · cases h
              rw [valueOf_none_lenient]
              exact .pure _ _
            · obtain ⟨m₂, hraise, h⟩ := Except.bind_eq_ok_iff.1 h
              cases h
              have hsim₂ := newStateIssue_uninit_sim (a := a) hlv₁ hstrict hraise
              rw [hstrict] at hsim₂
              have hconc : m₁.s.conc false a = m₂.s.conc false a := hsim₂.val
              rw [valueOf_some, hconc]
              exact ⟨hsim₂.issueLevel, rfl, hsim₂.out⟩

theorem checkOverwrite_sim {addr : Word} {goesOn : Bool} (hlv : m.pkg.issueLevel = lv)
    (h : checkOverwrite m addr ir = .ok (m', goesOn)) :
    Sim m m' ((m.s.conc lv.strict a).checkOverwrite lv addr ir)
      (m'.s.conc lv.strict a, goesOn) := by
  have hmem : (m.s.conc lv.strict a).mem addr =
      (m.s.mem.read addr).map (MemValue.conc lv.strict a) := rfl
  unfold checkOverwrite at h
  unfold Machine.checkOverwrite
  split at h
  · rename_i hread
    obtain ⟨m₁, hraise, h⟩ := Except.bind_eq_ok_iff.1 h
    cases h
    rw [hread, Option.map_none] at hmem
    rw [hmem]
    exact (newStateIssue_sim hlv hraise).bind (.pure _ _)
  · rename_i d hread
    rw [hread, Option.map_some] at hmem
    simp only [hmem, MemValue.conc]
    split at h
    · rename_i hforRead
      obtain ⟨m₁, hraise, h⟩ := Except.bind_eq_ok_iff.1 h
      cases h
      rw [if_pos hforRead]
      exact (newStateIssue_sim hlv hraise).bind (.pure _ _)
    · rename_i hforRead
      cases h
      rw [if_neg hforRead]
      exact .pure _ _
  · rename_i i hread
    rw [hread, Option.map_some] at hmem
    simp only [hmem, MemValue.conc]
    obtain ⟨m₁, hraise, h⟩ := Except.bind_eq_ok_iff.1 h
    obtain ⟨_, hassert, h⟩ := Except.bind_eq_ok_iff.1 h
    cases h
    exact (fail_sim hlv hraise (Mach.assertBroken_eq_ok hassert)).bind (.pure _ _)

@[simp] theorem State.conc_store {strict : Bool} (s : State) (addr : Word)
    (value : Option WordExpr) (ir : InstValue) :
    (s.store addr value ir).conc strict a =
      (s.conc strict a).store addr (valueOf strict a value) ir := by
  simp only [State.conc, State.store, Machine.store, Machine.mk.injEq, true_and, and_true]
  constructor
  · funext x
    rw [MemoryManager.read_store]
    split <;> rfl
  · funext x
    cases strict with
    | true =>
        cases value with
        | none =>
            simp only [if_true, valueOf_none_strict]
            split <;> rfl
        | some e =>
            simp only [if_true, valueOf_some, reduceCtorEq, if_false]
            split <;> rfl
    | false => cases value <;> simp [valueOf]

/-- A constant stored to MCR stops the clock when its highest bit is clear. -/
theorem WordExpr.halts_iff {e : WordExpr} (he : e.IsConst) (a : Assignment) :
    e.halts = true ↔ e.eval a &&& 0x8000 = 0 := by
  obtain ⟨c, rfl⟩ := WordExpr.isConst_iff.1 he
  simp [WordExpr.halts, WordExpr.asConst, WordExpr.eval]

theorem WordExpr.isConst_of_halts_eq_false {e : WordExpr} (h : e.halts = false) : e.IsConst := by
  cases e with
  | const c => rfl
  | _ => simp [WordExpr.halts, WordExpr.asConst] at h

theorem Halting_sim (hlv : m.pkg.issueLevel = lv) (h : Mach.Halting m m') :
    Sim m m' ((m.s.conc lv.strict a).halt lv) (m'.s.conc lv.strict a) := by
  have hconc : { m.s with status := .halted }.conc lv.strict a =
      { m.s.conc lv.strict a with status := .halted } := rfl
  unfold Machine.halt
  dsimp only
  rw [← hconc]
  cases h with
  | trap last hlast htrap h =>
      subst h
      split
      · exact .silent rfl
      · rename_i last' hlast'
        cases hlast.symm.trans hlast'
        rw [if_neg (by simpa using htrap)]
        exact .silent rfl
  | manual last note hlast htrap h =>
      split
      · rename_i hnone
        cases hlast.symm.trans hnone
      · rename_i last' hlast'
        cases hlast.symm.trans hlast'
        rw [if_pos htrap]
        have hsim := newStateIssue_sim (a := a) (m := ⟨{ m.s with status := .halted }, m.pkg⟩) hlv h
        exact ⟨hsim.issueLevel, hsim.val, hsim.out⟩

theorem Halting_mcrLog (h : Mach.Halting m m') : m'.s.mcrLog = m.s.mcrLog := by
  cases h with
  | trap last _ _ h => rw [h]
  | manual last note _ _ h =>
      obtain ⟨⟨trigger, hs⟩, -⟩ := Mach.newStateIssue_eq_ok h
      rw [hs]

theorem Halting_status (h : Mach.Halting m m') : m'.s.status ≠ .normal := by
  cases h with
  | trap last _ _ h => simp [h]
  | manual last note _ _ h =>
      obtain ⟨⟨trigger, hs⟩, -⟩ := Mach.newStateIssue_eq_ok h
      rw [hs]
      dsimp only
      split <;> simp

theorem Storing_sim {addr : Word} {value : Option WordExpr} (hlv : m.pkg.issueLevel = lv)
    (h : Mach.Storing m addr value ir m') :
    Sim m m' (if addr = 0xFE06 then
        ((m.s.conc lv.strict a).store addr (valueOf lv.strict a value) ir).display lv
          (valueOf lv.strict a value) ir
      else pure ((m.s.conc lv.strict a).store addr (valueOf lv.strict a value) ir))
      (m'.s.conc lv.strict a) := by
  have hout : ∀ (s : State) (e : WordExpr),
      { s with lc3Out := s.lc3Out ++ [e] }.conc lv.strict a =
        { s.conc lv.strict a with out := (s.conc lv.strict a).out ++ [e.eval a] } := by
    intro s e
    simp [State.conc]
  rw [← State.conc_store]
  cases h with
  | plain haddr h =>
      subst h
      rw [if_neg haddr]
      exact .silent rfl
  | display e haddr hvalue h =>
      subst hvalue h
      rw [if_pos haddr, valueOf_some]
      have hconc := hout (m.s.store addr (some e) ir) e
      exact ⟨rfl, hconc.symm, by simp [Machine.display]⟩
  | displayNull m₁ note haddr hvalue hraise h =>
      subst hvalue h
      rw [if_pos haddr]
      have hconc := hout m₁.s (.const 0)
      cases hstrict : lv.strict with
      | true =>
          have hsim := newStateIssue_sim (a := a) (m := ⟨m.s.store addr none ir, m.pkg⟩) hlv hraise
          rw [hstrict] at hsim hconc
          have hval : ((m.s.store addr none ir).conc true a |>.raise lv
              .warnUseUninitializedRegister ir).val = m₁.s.conc true a := hsim.val
          refine ⟨hsim.issueLevel, ?_, ?_⟩
          · simp only [valueOf_none_strict, Machine.display, Emit.bind_val, Emit.pure_val, hval]
            exact hconc.symm
          · simpa [valueOf_none_strict, Machine.display] using hsim.out
      | false =>
          have hsim := newStateIssue_uninit_sim (a := a) (m := ⟨m.s.store addr none ir, m.pkg⟩) hlv
            hstrict hraise
          rw [hstrict] at hsim hconc
          have hsame : (m.s.store addr none ir).conc false a = m₁.s.conc false a := hsim.val
          refine ⟨hsim.issueLevel, ?_, ?_⟩
          · rw [valueOf_none_lenient]
            simp only [Machine.display, Emit.pure_val]
            rw [hsame]
            exact hconc.symm
          · rw [valueOf_none_lenient]
            simpa [Machine.display] using hsim.out

theorem memWriteData_sim {addr : Word} {value : Option WordExpr} (hlv : m.pkg.issueLevel = lv)
    (hvalue : m.s.All WordExpr.IsConst → ∀ e, value = some e → e.IsConst)
    (hf : m.s.Faithful lv.strict m'.s) (h : memWriteData m addr value ir = .ok m') :
    Sim m m' ((m.s.conc lv.strict a).write lv addr (valueOf lv.strict a value) ir)
      (m'.s.conc lv.strict a) := by
  unfold Machine.write
  rcases Mach.memWriteData_eq_ok h with hcheck | ⟨e, rfl, rfl, he, hhalt⟩ |
    ⟨m₁, hcheck, hnot, hstore⟩
  · exact (checkOverwrite_sim hlv hcheck).bind (.pure _ _)
  · have hconst : e.IsConst := by
      rcases hf with hall | hnormal | ⟨hmcr, -⟩
      · exact hvalue hall e rfl
      · exact absurd hnormal (Halting_status hhalt)
      · refine hmcr e ?_
        rw [Halting_mcrLog hhalt]
        simp [State.store]
    have hmem : (m.s.conc lv.strict a).mem 0xFFFE = some (.data (some 0x8000) false false) := by
      change (m.s.mem.read 0xFFFE).map (MemValue.conc lv.strict a) = _
      have hread : m.s.mem.read 0xFFFE = some (DataValue.alloc (some (.const 0x8000))) := rfl
      rw [hread]
      simp [DataValue.alloc, MemValue.conc]
    have hcheck : (m.s.conc lv.strict a).checkOverwrite lv 0xFFFE ir =
        pure (m.s.conc lv.strict a, true) := by
      unfold Machine.checkOverwrite
      rw [hmem]
      rfl
    rw [hcheck]
    refine (Sim.pure m _).bind ?_
    have hsim := Halting_sim (a := a) (m := ⟨m.s.store 0xFFFE (some e) ir, m.pkg⟩) hlv hhalt
    have hzero : e.eval a &&& 0x8000 = 0 := (WordExpr.halts_iff hconst a).1 he
    rw [State.conc_store] at hsim
    simp only [Bool.not_true, Bool.false_eq_true, if_false, valueOf_some, Option.getD_some, hzero,
      and_self, if_true]
    rw [if_neg (by decide)]
    rw [valueOf_some] at hsim
    exact ⟨hsim.issueLevel, hsim.val, hsim.out⟩
  · have hsim := checkOverwrite_sim (a := a) hlv hcheck
    refine hsim.bind ?_
    have hstored := Storing_sim (a := a) (hsim.issueLevel.trans hlv) hstore
    simp only [Bool.not_true, Bool.false_eq_true, if_false]
    by_cases hddr : addr = 0xFE06
    · rw [if_pos hddr] at hstored ⊢
      exact hstored
    · rw [if_neg hddr] at hstored ⊢
      rw [if_neg]
      · exact hstored
      · rintro ⟨haddr, hzero⟩
        obtain ⟨e, rfl, hfalse⟩ := hnot haddr
        rw [valueOf_some, Option.getD_some] at hzero
        have := (WordExpr.halts_iff (WordExpr.isConst_of_halts_eq_false hfalse) a).2 hzero
        rw [hfalse] at this
        cases this

end

end Klc3
