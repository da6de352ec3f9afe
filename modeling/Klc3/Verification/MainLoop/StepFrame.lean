import Klc3.Verification.Executor.Reads
import Klc3.Verification.MainLoop.ConditionCodes

/-!
# The frame of a step

What a step leaves alone: the registers other than the destination, the memory other
than the cell that a store addresses, the output and the condition codes. The IR keeps
the instruction except after a jump through a register, where it is overwritten by the
target.
-/

namespace Klc3

namespace InstValue

variable (i : InstValue)

def isStore : Bool :=
  match i.instID with
  | .ST | .STR | .STI => true
  | _ => false

/-- The instructions that may set the PC. -/
def isJump : Bool :=
  match i.instID with
  | .BR | .JMP | .JSR | .JSRR | .TRAP => true
  | _ => false

/-- The instructions that read or write data in memory. -/
def isAccess : Bool :=
  match i.instID with
  | .LD | .LDR | .LDI | .ST | .STR | .STI | .TRAP => true
  | _ => false

/-- The general register that an instruction writes. -/
def destination : Option (Fin 8) :=
  if i.setsCC then some i.dr else if i.links then some 7 else none

/-- The cell that a store addresses, with the PC already behind it. -/
def target (L : Lc3) : Word :=
  match i.instID with
  | .ST => L.pc + i.imm9
  | .STR => L.reg i.baseR + i.imm6
  | _ => L.mem (L.pc + i.imm9)

end InstValue

namespace State

/-- What `i` leaves alone on the way from `s`, where the PC is already behind it, to `t`. -/
structure Keeps (s : State) (i : InstValue) (t : State) : Prop where
  path : s.SamePath t
  ir : i.instID ≠ .JMP → i.instID ≠ .JSRR → t.ir = s.ir
  reg : ∀ r, i.destination ≠ some r → (t.reg r).getD (.const 0) = (s.reg r).getD (.const 0)
  ccRef : i.setsCC = false → t.ccRef = s.ccRef
  mem : i.isStore = false → t.mem = s.mem
  out : t.lc3Out = s.lc3Out ∨ i.isStore = true ∧ ∃ e, t.lc3Out = s.lc3Out ++ [e]
  pc : i.isJump = false → t.pc = s.pc
  entries : i.isAccess = false → t.memStoringUninitReg = s.memStoringUninitReg

variable {s t u : State} {ir : InstValue}

theorem Reads.lc3 (h : s.Reads u) (a : Assignment) : u.lc3 a = s.lc3 a := by
  have hreg : (u.lc3 a).reg = (s.lc3 a).reg := by
    funext r
    rw [lc3_reg, lc3_reg, h.reg_getD]
  unfold State.lc3 at hreg ⊢
  simp only at hreg
  rw [hreg, h.pc, h.mem, h.lc3Out]

theorem lc3_mem (s : State) (a : Assignment) (addr : Word) :
    (s.lc3 a).mem addr = (s.cellExpr addr).eval a := by
  change (((s.mem.read addr).bind MemValue.e).map (·.eval a)).getD 0 = _
  unfold cellExpr
  cases (s.mem.read addr).bind MemValue.e <;> rfl

theorem Keeps.refl (s : State) (ir : InstValue) : s.Keeps ir s :=
  ⟨⟨rfl, rfl, rfl, rfl, .inl rfl⟩, fun _ _ => rfl, fun _ _ => rfl, fun _ => rfl, fun _ => rfl,
    .inl rfl, fun _ => rfl, fun _ => rfl⟩

/-- Reading operands comes before everything else. -/
theorem Keeps.of_reads (h : s.Reads u) (hk : u.Keeps ir t) : s.Keeps ir t where
  path := h.path.trans hk.path
  ir hJMP hJSRR := (hk.ir hJMP hJSRR).trans h.ir
  reg r hr := (hk.reg r hr).trans (h.reg_getD r)
  ccRef hcc := (hk.ccRef hcc).trans h.ccRef
  mem hstore := (hk.mem hstore).trans h.mem
  out := by
    rw [← h.lc3Out]
    exact hk.out
  pc hjump := (hk.pc hjump).trans h.pc
  entries haccess := (hk.entries haccess).trans h.memStoringUninitReg

theorem Reads.keeps (h : s.Reads t) (ir : InstValue) : s.Keeps ir t :=
  .of_reads h (.refl t ir)

theorem keeps_setRegAndCC (s : State) (value : Option WordExpr) (hcc : ir.setsCC = true) :
    s.Keeps ir (s.setRegAndCC ir.dr value ir) where
  path := ⟨rfl, rfl, rfl, rfl, .inl rfl⟩
  ir _ _ := rfl
  reg r hr := by
    have hne : r ≠ ir.dr := by
      rintro rfl
      exact hr (by rw [InstValue.destination, if_pos hcc])
    simp [setRegAndCC, setReg, mark, hne]
  ccRef h := absurd (hcc.symm.trans h) (by simp)
  mem _ := rfl
  out := .inl rfl
  pc _ := rfl
  entries _ := rfl

theorem keeps_jump (s : State) (pc : Word) (hjump : ir.isJump = true) :
    s.Keeps ir (s.jump pc ir) where
  path := ⟨rfl, rfl, rfl, rfl, .inl rfl⟩
  ir _ _ := rfl
  reg _ _ := rfl
  ccRef _ := rfl
  mem _ := rfl
  out := .inl rfl
  pc hno := absurd (hjump.symm.trans hno) (by simp)
  entries _ := rfl

/-- A call writes R7 and goes on elsewhere; what it does in between is up to `hk`. -/
theorem Keeps.link {w : Word} (hlinks : ir.links = true)
    (hk : ((s.setReg 7 (some (.const w))).mark (.gpr 7) ir).Keeps ir t) : s.Keeps ir t := by
  have hcc : ir.setsCC = false := by
    unfold InstValue.links at hlinks
    unfold InstValue.setsCC
    cases hid : ir.instID <;> simp_all
  have hpath : s.SamePath ((s.setReg 7 (some (.const w))).mark (.gpr 7) ir) :=
    ⟨rfl, rfl, rfl, rfl, .inl rfl⟩
  refine ⟨hpath.trans hk.path, hk.ir, fun r hr => ?_, hk.ccRef, hk.mem, hk.out, hk.pc,
    hk.entries⟩
  rw [hk.reg r hr]
  have hne : r ≠ 7 := by
    rintro rfl
    exact hr (by simp [InstValue.destination, hcc, hlinks])
  simp [setReg, mark, hne]

end State

namespace Mach

variable {m m' : Mach} {ir : InstValue} {t : State}

theorem memReadData_keeps {addr : Word} {dr : Option (Fin 8)} {value : Option WordExpr}
    (haccess : ir.isAccess = true) (h : memReadData m addr ir dr = .ok (m', value))
    (hk : m'.s.Keeps ir t) : m.s.Keeps ir t := by
  obtain ⟨-, u, hreads, ⟨-, hs⟩ | ⟨-, hs⟩⟩ := memReadData_eq_ok h
  · rw [hs] at hk
    have hpath : u.SamePath (u.forget addr) := ⟨rfl, rfl, rfl, rfl, .inl rfl⟩
    exact .of_reads hreads ⟨hpath.trans hk.path, hk.ir, hk.reg, hk.ccRef, hk.mem, hk.out,
      hk.pc, fun hno => absurd (haccess.symm.trans hno) (by simp)⟩
  · rw [hs] at hk
    exact .of_reads hreads hk

theorem memReadData_same {addr : Word} {dr : Option (Fin 8)} {value : Option WordExpr}
    (h : memReadData m addr ir dr = .ok (m', value)) :
    m'.s.mem = m.s.mem ∧ ∀ a, m'.s.lc3 a = m.s.lc3 a := by
  obtain ⟨-, u, hreads, ⟨-, hs⟩ | ⟨-, hs⟩⟩ := memReadData_eq_ok h
  · rw [hs]
    exact ⟨hreads.mem, hreads.lc3⟩
  · rw [hs]
    exact ⟨hreads.mem, hreads.lc3⟩

theorem loadFrom_keeps {addr : Word} (hcc : ir.setsCC = true) (haccess : ir.isAccess = true)
    (h : Executor.loadFrom ir m addr = .ok m') : m.s.Keeps ir m'.s := by
  obtain ⟨⟨m₁, data⟩, hread, h⟩ := Except.bind_eq_ok_iff.1 h
  refine memReadData_keeps haccess hread ?_
  dsimp only at h
  split at h
  · cases h
    exact .refl _ _
  · cases h
    exact State.keeps_setRegAndCC _ _ hcc

theorem memWriteData_keeps {addr : Word} {value : Option WordExpr} (hstore : ir.isStore = true)
    (h : memWriteData m addr value ir = .ok m') : m.s.Keeps ir m'.s := by
  obtain ⟨u, hreads, ⟨-, hs, -⟩ | ⟨-, v, out, hv, hout, hs⟩⟩ := memWriteData_writes h
  · rw [hs]
    exact hreads.keeps ir
  · refine ⟨?_, fun _ _ => ?_, fun r _ => ?_, fun _ => ?_, fun hno => ?_, ?_, fun _ => ?_,
      fun hno => ?_⟩
    · rw [hs]
      have hpath := hv.path
      exact hreads.path.trans ⟨hpath.colorStack, hpath.jsrStack, hpath.latestInst,
        hpath.latestNonOSInst, hpath.messedUp⟩
    · rw [hs]
      exact hv.ir.trans hreads.ir
    · rw [hs]
      exact (hv.reg_getD r).trans (hreads.reg_getD r)
    · rw [hs]
      exact hv.ccRef.trans hreads.ccRef
    · rw [hstore] at hno
      cases hno
    · have hlen : m'.s.lc3Out = m.s.lc3Out ++ out := by
        rw [hs, ← hreads.lc3Out]
        exact congrArg (· ++ out) hv.lc3Out
      rw [hlen]
      match out, hout with
      | [], _ => exact .inl (List.append_nil _)
      | [e], _ => exact .inr ⟨hstore, e, rfl⟩
    · rw [hs]
      exact hv.pc.trans hreads.pc
    · have haccess : ir.isAccess = true := by
        unfold InstValue.isStore at hstore
        unfold InstValue.isAccess
        cases hid : ir.instID <;> simp_all
      exact absurd (haccess.symm.trans hno) (by simp)

theorem executeADD_keeps (hcc : ir.setsCC = true) (h : executeADD m ir = .ok m') :
    m.s.Keeps ir m'.s := by
  obtain ⟨⟨m₁, op1⟩, hget₁, h⟩ := Except.bind_eq_ok_iff.1 h
  dsimp only at h
  rw [Except.ite_bind_eq] at h
  obtain ⟨⟨m₂, op2⟩, hget₂, h⟩ := Except.bind_eq_ok_iff.1 h
  obtain ⟨e, -, h⟩ := Except.bind_eq_ok_iff.1 h
  cases h
  have hreads₂ : m₁.s.Reads m₂.s := by
    split at hget₂
    · exact (getReg_reads hget₂).1
    · cases hget₂
      exact .refl _
  exact .of_reads ((getReg_reads hget₁).1.trans hreads₂) (State.keeps_setRegAndCC _ _ hcc)

theorem executeAND_keeps (hcc : ir.setsCC = true) (h : executeAND m ir = .ok m') :
    m.s.Keeps ir m'.s := by
  obtain ⟨m₁, m₂, hwarn₁, hwarn₂, rfl⟩ := executeAND_eq_ok h
  have hreads₁ : m.s.Reads m₁.s := by
    split at hwarn₁
    · exact warnOnAndOperand_reads (.inl (Option.isNone_iff_eq_none.1 ‹_›)) hwarn₁
    · cases hwarn₁
      exact .refl _
  have hreads₂ : m₁.s.Reads m₂.s := by
    split at hwarn₂
    · rename_i hnone
      refine warnOnAndOperand_reads ?_ hwarn₂
      have hnone : m.s.reg ir.sr2 = none := by
        unfold andOperand2 at hnone
        split at hnone
        · exact Option.isNone_iff_eq_none.1 hnone
        · cases hnone
      rcases hreads₁.reg ir.sr2 with heq | ⟨-, hzero⟩
      · exact .inl (heq.trans hnone)
      · exact .inr hzero
    · cases hwarn₂
      exact .refl _
  exact .of_reads (hreads₁.trans hreads₂) (State.keeps_setRegAndCC _ _ hcc)

theorem executeJMP_keeps (hid : ir.instID = .JMP) (h : executeJMP m ir = .ok m') :
    m.s.Keeps ir m'.s ∧ (m'.s.status = .normal →
      ∃ c, (m.s.reg ir.baseR).getD (.const 0) = .const c ∧ m'.s.ir = .const c) := by
  obtain ⟨m₁, hcheck, h⟩ := Except.bind_eq_ok_iff.1 h
  have hreads₁ := checkRetInMainCode_reads hcheck
  split at h
  · obtain ⟨⟨m₂, newPC⟩, hget, h⟩ := Except.bind_eq_ok_iff.1 h
    obtain ⟨hreads₂, hvalue⟩ := getReg_reads hget
    have hreads := hreads₁.trans hreads₂
    dsimp only at h
    split at h
    · obtain ⟨⟨note, hraise⟩, hbroken⟩ := symbolicPC_eq_ok h
      refine ⟨(hreads.trans (newStateIssue_reads hraise)).keeps ir, fun hnormal => ?_⟩
      rw [hbroken] at hnormal
      cases hnormal
    · rename_i c hconst
      obtain ⟨d, rfl⟩ := WordExpr.isConst_iff.1 (Option.isSome_of_eq_some hconst)
      cases h
      refine ⟨.of_reads hreads ⟨⟨rfl, rfl, rfl, rfl, .inl rfl⟩, ?_, fun _ _ => rfl, fun _ => rfl,
        fun _ => rfl, .inl rfl, fun hjump => ?_, fun _ => rfl⟩,
        fun _ => ⟨d, ?_, rfl⟩⟩
      · exact fun hJMP => absurd hid hJMP
      · rw [InstValue.isJump, hid] at hjump
        cases hjump
      · rw [← hreads₁.reg_getD, ← hvalue]
  · rename_i hne
    cases h
    exact ⟨hreads₁.keeps ir, fun hnormal => absurd hnormal hne⟩

theorem executeJSRR_keeps (hid : ir.instID = .JSRR) (h : executeJSRR m ir = .ok m') :
    m.s.Keeps ir m'.s ∧ (m'.s.status = .normal →
      ∃ c, (m.s.reg ir.baseR).getD (.const 0) = .const c ∧ m'.s.ir = .const c) := by
  obtain ⟨⟨m₁, newPC⟩, hget, h⟩ := Except.bind_eq_ok_iff.1 h
  obtain ⟨hreads, hvalue⟩ := getReg_reads hget
  dsimp only at h
  split at h
  · obtain ⟨⟨note, hraise⟩, hbroken⟩ := symbolicPC_eq_ok h
    refine ⟨(hreads.trans (newStateIssue_reads hraise)).keeps ir, fun hnormal => ?_⟩
    rw [hbroken] at hnormal
    cases hnormal
  · rename_i c hconst
    obtain ⟨d, rfl⟩ := WordExpr.isConst_iff.1 (Option.isSome_of_eq_some hconst)
    cases h
    refine ⟨.of_reads hreads (.link (w := m₁.s.pc) (by rw [InstValue.links, hid])
      ⟨⟨rfl, rfl, rfl, rfl, .inl rfl⟩, ?_, fun _ _ => rfl, fun _ => rfl, fun _ => rfl, .inl rfl,
        fun hjump => ?_, fun _ => rfl⟩), fun _ => ⟨d, hvalue.symm, rfl⟩⟩
    · exact fun _ hJSRR => absurd hid hJSRR
    · rw [InstValue.isJump, hid] at hjump
      cases hjump

theorem executeTRAP_keeps (hid : ir.instID = .TRAP) (h : executeTRAP m ir = .ok m') :
    m.s.Keeps ir m'.s := by
  unfold executeTRAP at h
  split at h
  · cases h
    exact ⟨⟨rfl, rfl, rfl, rfl, .inl rfl⟩, fun _ _ => rfl, fun _ _ => rfl, fun _ => rfl,
      fun _ => rfl, .inl rfl, fun _ => rfl, fun _ => rfl⟩
  · rw [setRegWord_gpr, Except.ok_bind'] at h
    obtain ⟨⟨m₁, newPC⟩, hread, h⟩ := Except.bind_eq_ok_iff.1 h
    refine .link (w := m.s.pc) (by rw [InstValue.links, hid])
      (memReadData_keeps (by rw [InstValue.isAccess, hid]) hread ?_)
    dsimp only at h
    split at h
    · cases h
      exact .refl _ _
    · cases newPC with
      | none => cases h
      | some newPC =>
          obtain ⟨c, -, h⟩ := Except.bind_eq_ok_iff.1 h
          cases h
          exact State.keeps_jump _ _ (by rw [InstValue.isJump, hid])

theorem executeRTI_keeps (h : executeRTI m ir = .ok m') : m.s.Keeps ir m'.s := by
  obtain ⟨m₁, hraise, h⟩ := Except.bind_eq_ok_iff.1 h
  obtain ⟨_, -, h⟩ := Except.bind_eq_ok_iff.1 h
  cases h
  exact (newStateIssue_reads hraise).keeps ir

theorem executeSimple_keeps (hid : ir.isSimple = true) (h : Executor.executeSimple m ir = .ok m') :
    m.s.Keeps ir m'.s := by
  unfold Executor.executeSimple at h
  unfold InstValue.isSimple at hid
  cases hinst : ir.instID <;> simp only [hinst, Bool.false_eq_true] at h hid
  case ADD => exact executeADD_keeps (by rw [InstValue.setsCC, hinst]) h
  case ADDi => exact executeADD_keeps (by rw [InstValue.setsCC, hinst]) h
  case AND => exact executeAND_keeps (by rw [InstValue.setsCC, hinst]) h
  case ANDi => exact executeAND_keeps (by rw [InstValue.setsCC, hinst]) h
  case JMP => exact (executeJMP_keeps hinst h).1
  case JSRR => exact (executeJSRR_keeps hinst h).1
  case TRAP => exact executeTRAP_keeps hinst h
  case LD =>
    exact loadFrom_keeps (by rw [InstValue.setsCC, hinst]) (by rw [InstValue.isAccess, hinst]) h
  case ST => exact memWriteData_keeps (by rw [InstValue.isStore, hinst]) h
  case JSR =>
    cases h
    exact .link (w := m.s.pc) (by rw [InstValue.links, hinst])
      (State.keeps_jump _ _ (by rw [InstValue.isJump, hinst]))
  case LEA =>
    cases h
    exact State.keeps_setRegAndCC _ _ (by rw [InstValue.setsCC, hinst])
  case NOT =>
    obtain ⟨⟨m₁, op⟩, hget, h⟩ := Except.bind_eq_ok_iff.1 h
    cases h
    exact .of_reads (getReg_reads hget).1
      (State.keeps_setRegAndCC _ _ (by rw [InstValue.setsCC, hinst]))
  case RTI => exact executeRTI_keeps h

end Mach

namespace Executor

variable {ex : Executor} {m : Mach} {ir : InstValue} {t : State}

theorem Accesses.keeps {addr : WordExpr} {access : Mach → Word → Except Abort Mach}
    (haccess : ∀ {m m' : Mach} {c : Word}, access m c = .ok m' → m.s.Keeps ir m'.s)
    (h : Accesses ex m addr access t) : m.s.Keeps ir t := by
  obtain ⟨u, c, pkg, m', hcopy, -, hrun⟩ := h
  exact .of_reads (.of_copy hcopy) (haccess hrun)

/-- The mid address of `LDI` and `STI` is what the cell behind the offset holds. -/
theorem readMid_eval {m₁ : Mach} {mid : WordExpr}
    (hread : memReadData m (m.s.pc + ir.imm9) ir none = .ok (m₁, some mid)) (a : Assignment) :
    (m.s.lc3 a).mem ((m.s.lc3 a).pc + ir.imm9) = mid.eval a := by
  obtain ⟨hvalue, -⟩ := Mach.memReadData_eq_ok hread
  have hmid : mid = m.s.cellExpr (m.s.pc + ir.imm9) := hvalue
  rw [State.lc3_mem, hmid]
  rfl

/-- The base of `LDR` and `STR` is what the register denotes. -/
theorem base_eval {m₁ : Mach} {base : WordExpr} (hget : getReg m ir.baseR ir = .ok (m₁, base))
    (a : Assignment) :
    (m.s.lc3 a).reg ir.baseR + ir.imm6 = (ExprBuilder.add base (.const ir.imm6)).eval a := by
  obtain ⟨-, hbase⟩ := Mach.getReg_reads hget
  rw [ExprBuilder.eval_add, hbase, State.lc3_reg]
  rfl

theorem Executes.keeps (h : Executes ex m ir t) : m.s.Keeps ir t := by
  cases h with
  | simple m' hid h => exact Mach.executeSimple_keeps hid h
  | falls m₁ br cond u _ hsolve hcopy =>
      exact ((Mach.solveBRCond_reads hsolve).trans (.of_copy hcopy)).keeps ir
  | branches m₁ br cond u hid hsolve hcopy =>
      exact .of_reads ((Mach.solveBRCond_reads hsolve).trans (.of_copy hcopy))
        (State.keeps_jump _ _ (by rw [InstValue.isJump, hid]))
  | loads m₁ base _ hid hget h =>
      refine .of_reads (Mach.getReg_reads hget).1 (h.keeps fun hrun => ?_)
      exact Mach.loadFrom_keeps (by rw [InstValue.setsCC, hid]) (by rw [InstValue.isAccess, hid])
        hrun
  | stores m₁ base _ hid hget h =>
      refine .of_reads (Mach.getReg_reads hget).1 (h.keeps fun hrun => ?_)
      exact Mach.memWriteData_keeps (by rw [InstValue.isStore, hid]) hrun
  | stops m₁ mid hid hread _ =>
      refine Mach.memReadData_keeps ?_ hread (.refl _ _)
      rcases hid with hid | hid <;> rw [InstValue.isAccess, hid]
  | loadsIndirect m₁ mid _ hid hread _ h =>
      refine Mach.memReadData_keeps (by rw [InstValue.isAccess, hid]) hread (h.keeps fun hrun => ?_)
      exact Mach.loadFrom_keeps (by rw [InstValue.setsCC, hid]) (by rw [InstValue.isAccess, hid])
        hrun
  | storesIndirect m₁ mid _ hid hread _ h =>
      refine Mach.memReadData_keeps (by rw [InstValue.isAccess, hid]) hread (h.keeps fun hrun => ?_)
      exact Mach.memWriteData_keeps (by rw [InstValue.isStore, hid]) hrun

/-- A store that was made or refused at `c`, which is the target of the instruction. -/
inductive StoresAt (ex : Executor) (m : Mach) (ir : InstValue) (c : Word) (t : State) : Prop
  | refused (hinst : ∃ i, m.s.mem.read c = some (.inst i)) (hmem : t.mem = m.s.mem)
      (hbroken : t.status = .broken)
      (htarget : ex.WF → ex.Owns m.s.constraints → ∀ a, t.constraints.Sat a →
        ir.target (m.s.lc3 a) = c)
  | made (value : Option WordExpr) (hinst : ∀ i, m.s.mem.read c ≠ some (.inst i))
      (hmem : t.mem = m.s.mem.store c value)
      (htarget : ex.WF → ex.Owns m.s.constraints → ∀ a, t.constraints.Sat a →
        ir.target (m.s.lc3 a) = c)

theorem StoresAt.of_write {m' m₁ : Mach} {c : Word} {value : Option WordExpr}
    (hmem : m₁.s.mem = m.s.mem)
    (htarget : ex.WF → ex.Owns m.s.constraints → ∀ a, m₁.s.constraints.Sat a →
      ir.target (m.s.lc3 a) = c)
    (h : memWriteData m₁ c value ir = .ok m') : StoresAt ex m ir c m'.s := by
  have hconstraints : m'.s.constraints = m₁.s.constraints := by
    obtain ⟨ev, hframe⟩ := Mach.memWriteData_frames Mach.closed_any (Mach.all_any _)
      (fun _ _ => trivial) h
    exact hframe.same.constraints
  rw [← hconstraints] at htarget
  rcases Mach.memWriteData_mem h with ⟨hinst, hmem', hbroken⟩ | ⟨hinst, hmem'⟩
  · rw [hmem] at hinst hmem'
    exact .refused hinst hmem' hbroken htarget
  · rw [hmem] at hinst hmem'
    exact .made value hinst hmem' htarget

/-- Every store goes to one cell, unless it ends before. -/
theorem Executes.storesAt (hstore : ir.isStore = true) (hnormal : m.s.status = .normal)
    (h : Executes ex m ir t) :
    (t.mem = m.s.mem ∧ t.status = .broken) ∨ ∃ c, StoresAt ex m ir c t := by
  unfold InstValue.isStore at hstore
  cases h with
  | simple m' hid h =>
      unfold InstValue.isSimple at hid
      have hST : ir.instID = .ST := by
        cases hinst : ir.instID <;> simp_all
      simp only [executeSimple, hST] at h
      refine .inr ⟨m.s.pc + ir.imm9, .of_write rfl (fun _ _ a _ => ?_) h⟩
      rw [InstValue.target, hST]
      rfl
  | falls m₁ br cond u hid => simp [hid] at hstore
  | branches m₁ br cond u hid => simp [hid] at hstore
  | loads m₁ base _ hid => simp [hid] at hstore
  | stores m₁ base _ hid hget h =>
      obtain ⟨u, c, pkg, m', hcopy, haddr, hrun⟩ := h
      have hreads := (Mach.getReg_reads hget).1.trans (.of_copy hcopy)
      have hconstraints :=
        (Mach.getReg_effects Mach.closed_any (Mach.all_any _) hget).1.same.constraints
      refine .inr ⟨c, .of_write hreads.mem (fun hwf howns a ha => ?_) hrun⟩
      rw [InstValue.target, hid]
      rw [← hconstraints] at howns
      exact (base_eval hget a).trans (haddr hwf howns a ha)
  | stops m₁ mid _ hread hne =>
      refine .inl ⟨(Mach.memReadData_same hread).1, ?_⟩
      obtain ⟨ev, heff⟩ := (Mach.memReadData_effects Mach.closed_any (Mach.all_any _) hread).1
      by_cases herror : m.pkg.anyError ev
      · exact heff.broken herror
      · exact absurd ((heff.status herror).trans hnormal) hne
  | loadsIndirect m₁ mid _ hid => simp [hid] at hstore
  | storesIndirect m₁ mid _ hid hread _ h =>
      obtain ⟨u, c, pkg, m', hcopy, haddr, hrun⟩ := h
      have hconstraints :=
        (Mach.memReadData_effects Mach.closed_any (Mach.all_any _) hread).1.same.constraints
      have hmem : u.mem = m.s.mem :=
        (State.Reads.of_copy hcopy).mem.trans (Mach.memReadData_same hread).1
      refine .inr ⟨c, .of_write hmem (fun hwf howns a ha => ?_) hrun⟩
      rw [InstValue.target, hid]
      rw [← hconstraints] at howns
      exact (readMid_eval hread a).trans (haddr hwf howns a ha)

/-- A jump through a register leaves its target in the IR. -/
theorem Executes.jumps_ir (hid : ir.instID = .JMP ∨ ir.instID = .JSRR) (h : Executes ex m ir t)
    (hnormal : t.status = .normal) :
    ∃ c, (m.s.reg ir.baseR).getD (.const 0) = .const c ∧ t.ir = .const c := by
  cases h with
  | simple m' _ h =>
      rcases hid with hid | hid
      · simp only [executeSimple, hid] at h
        exact (Mach.executeJMP_keeps hid h).2 hnormal
      · simp only [executeSimple, hid] at h
        exact (Mach.executeJSRR_keeps hid h).2 hnormal
  | falls | branches | loads | stores | stops | loadsIndirect | storesIndirect => simp_all

end Executor

/-! ## Steps of reachable states -/

/-- The frame of a step from `s` to `t` that executes `i`. -/
structure State.StepFrame (s : State) (i : InstValue) (t : State) : Prop where
  ir : t.ir = .const i.ir
  reg : ∀ r, i.destination ≠ some r → ∀ a, (t.lc3 a).reg r = (s.lc3 a).reg r
  ccRef : i.setsCC = false → t.ccRef = s.ccRef
  mem : i.isStore = false → ∀ x, t.mem.read x = s.mem.read x
  cell : i.isStore = true → ∀ a, t.constraints.Sat a →
    ∀ x, x ≠ i.target { s.lc3 a with pc := s.pc + 1 } → t.mem.read x = s.mem.read x
  out : t.lc3Out = s.lc3Out ∨ i.isStore = true ∧ ∃ e, t.lc3Out = s.lc3Out ++ [e]

namespace Exploration

variable {fuel : Nat} {solver : Solver} {o : Options} {gold : Option Gold} {E₀ E : Exploration}

/-- Every result of every step from a reachable state keeps the frame, if and only if the
instruction is no jump through a register, or one to the address that is its own word. -/
theorem reachable_frame_iff (exact : solver.Exact) (hstart : E₀.Starts solver o gold)
    (hreach : E₀.Reaches fuel E) :
    ∀ s ∈ E.frontier, s.status = .normal → ∀ r, E.session.ex.step ⟨s, E.session.pkg⟩ = .ok r →
      ∀ t ∈ r.states, t.status = .normal → ∃ i, s.mem.read s.pc = some (.inst i) ∧
        (s.StepFrame i t ↔ (i.instID = .JMP ∨ i.instID = .JSRR →
          (s.reg i.baseR).getD (.const 0) = .const i.ir)) := by
  intro s hs hnormal r hstep t ht htnormal
  have hinv := Reaches.inv_true exact hstart hreach
  cases Executor.mem_step hstep ht with
  | stopped hne => exact absurd hnormal hne
  | fails m' type note _ _ hbroken =>
      rw [hbroken] at htnormal
      cases htnormal
  | executes i _ hfetch _ h =>
      have howns : E.session.ex.Owns s.constraints := hinv.owns hs
      have hkeeps := h.keeps
      refine ⟨i, hfetch, fun hframe hid => ?_, fun hjump => ⟨?_, ?_, hkeeps.ccRef, ?_, ?_, ?_⟩⟩
      · obtain ⟨c, hc, hir⟩ := h.jumps_ir hid htnormal
        rw [hframe.ir] at hir
        rw [hir]
        exact hc
      · by_cases hid : i.instID = .JMP ∨ i.instID = .JSRR
        · obtain ⟨c, hc, hir⟩ := h.jumps_ir hid htnormal
          rw [hir, ← hc]
          exact hjump hid
        · rw [not_or] at hid
          exact hkeeps.ir hid.1 hid.2
      · intro r hr a
        rw [State.lc3_reg, State.lc3_reg, hkeeps.reg r hr]
        rfl
      · intro hstore x
        rw [hkeeps.mem hstore]
        rfl
      · intro hstore a ha x hx
        rcases h.storesAt hstore hnormal with ⟨hmem, -⟩ | ⟨c, hat⟩
        · rw [hmem]
          rfl
        · cases hat with
          | refused _ hmem _ _ =>
              rw [hmem]
              rfl
          | made value _ hmem htarget =>
              have hne : x ≠ c := fun heq => hx (heq.trans (htarget hinv.wf howns a ha).symm)
              rw [hmem, MemoryManager.read_store, if_neg fun h => hne h.1]
              rfl
      · exact hkeeps.out

end Exploration

/-- A program that jumps through a register. -/
def Program.jumping : Program where
  mem :=
    [(0x3000, .inst ⟨0x3000, 0xE001, ⟨.LEA, .RL, 0xF000, 0xE000⟩, by decide, false, [],
        "jumping.asm", 1, "LEA R0, DONE"⟩),
     (0x3001, .inst ⟨0x3001, 0xC000, ⟨.JMP, .R, 0xFE3F, 0xC000⟩, by decide, false, [],
        "jumping.asm", 2, "JMP R0"⟩),
     (0x3002, .inst ⟨0x3002, 0xF025, ⟨.TRAP, .V, 0xFF00, 0xF000⟩, matchInst_halt, false, ["DONE"],
        "jumping.asm", 3, "INSTANT_HALT"⟩)]
  constraints := []
  initPC := 0x3000
  preferences := []

def Options.jumping : Options :=
  { Options.sample with test := .jumping }

/-- The first two steps of `Program.jumping`. -/
theorem jumping_run : ∃ (E₀ E : Exploration) (s₀ s t₀ t : State) (r₀ r : StepResult)
    (i₀ i : InstValue), E₀.Starts Solver.ideal .jumping none ∧ E₀.Reaches 0 E ∧
    (s₀ ∈ E₀.frontier ∧ s₀.status = .normal ∧ s₀.mem.read s₀.pc = some (.inst i₀) ∧
      i₀.instID = .LEA ∧ E₀.session.ex.step ⟨s₀, E₀.session.pkg⟩ = .ok r₀ ∧ t₀ ∈ r₀.states ∧
      t₀.status = .normal) ∧
    (s ∈ E.frontier ∧ s.status = .normal ∧ s.mem.read s.pc = some (.inst i) ∧
      E.session.ex.step ⟨s, E.session.pkg⟩ = .ok r ∧ t ∈ r.states ∧ t.status = .normal ∧
      i.ir = 0xC000 ∧ t.ir = .const 0x3002) := by
  have hrun : ∃ l, Options.jumping.start Solver.ideal none = .ok l ∧
      ∃ s₀, l.searcher.states = [s₀] ∧ s₀.status = .normal ∧
      ∃ i₀, s₀.mem.read s₀.pc = some (.inst i₀) ∧ i₀.instID = .LEA ∧
      ∃ r₀ t₀, l.session.ex.step ⟨s₀, l.session.pkg⟩ = .ok r₀ ∧ r₀.states = [t₀] ∧
        t₀.status = .normal ∧
      ∃ S₁ l₁, l.session.advance 0 s₀ = .ok (some (S₁, l₁)) ∧
      ∃ s₁, l₁ = [s₁] ∧ s₁.status = .normal ∧
      ∃ i, s₁.mem.read s₁.pc = some (.inst i) ∧ i.ir = 0xC000 ∧
      ∃ r t, S₁.ex.step ⟨s₁, S₁.pkg⟩ = .ok r ∧ r.states = [t] ∧ t.status = .normal ∧
        t.ir = .const 0x3002 := by
    refine ⟨_, rfl, ?_⟩
    refine ⟨_, rfl, rfl, ?_⟩
    refine ⟨_, rfl, rfl, ?_⟩
    refine ⟨_, _, rfl, rfl, rfl, ?_⟩
    refine ⟨_, _, rfl, ?_⟩
    refine ⟨_, rfl, rfl, ?_⟩
    refine ⟨_, rfl, rfl, ?_⟩
    exact ⟨_, _, rfl, rfl, rfl, rfl⟩
  obtain ⟨l, hl, s₀, hs₀, hnormal₀, i₀, hi₀, hid₀, r₀, t₀, hstep₀, hr₀, ht₀, S₁, l₁, hnext, s₁, rfl,
    hnormal₁, i, hi, hir, r, t, hstep, hr, ht, htir⟩ := hrun
  obtain ⟨E₀, hstart, hsession, hfrontier⟩ := Options.start_explores rfl hl
  rw [hs₀, List.perm_singleton] at hfrontier
  rw [← hsession] at hnext hstep₀
  refine ⟨E₀, ⟨S₁, [s₁]⟩, s₀, s₁, t₀, t, r₀, r, i₀, i, hstart, ?_, ?_, ?_⟩
  · exact .single ⟨[], s₀, [], [s₁], hfrontier, hnext, rfl⟩
  · exact ⟨by simp [hfrontier], hnormal₀, hi₀, hid₀, hstep₀, by simp [hr₀], ht₀⟩
  · exact ⟨by simp, hnormal₁, hi, hstep, by simp [hr], ht, hir, htir⟩

/-- After the jump the IR holds its target. -/
theorem jumping_frame_lost : ∃ (E₀ E : Exploration) (s t : State) (r : StepResult) (i : InstValue),
    E₀.Starts Solver.ideal .jumping none ∧ E₀.Reaches 0 E ∧ s ∈ E.frontier ∧
    s.status = .normal ∧ s.mem.read s.pc = some (.inst i) ∧
    E.session.ex.step ⟨s, E.session.pkg⟩ = .ok r ∧ t ∈ r.states ∧ t.status = .normal ∧
    ¬ s.StepFrame i t := by
  obtain ⟨E₀, E, -, s, -, t, -, r, -, i, hstart, hreach, -, hs, hnormal, hi, hstep, ht, htnormal,
    hir, htir⟩ := jumping_run
  refine ⟨E₀, E, s, t, r, i, hstart, hreach, hs, hnormal, hi, hstep, ht, htnormal, fun h => ?_⟩
  have hword := h.ir
  rw [htir, hir] at hword
  revert hword
  decide

theorem jumping_frame : ∃ (E : Exploration) (s t : State) (r : StepResult) (i : InstValue),
    E.Starts Solver.ideal .jumping none ∧ s ∈ E.frontier ∧ s.status = .normal ∧
    s.mem.read s.pc = some (.inst i) ∧ i.instID = .LEA ∧
    E.session.ex.step ⟨s, E.session.pkg⟩ = .ok r ∧ t ∈ r.states ∧ s.StepFrame i t := by
  obtain ⟨E₀, -, s, -, t, -, r, -, i, -, hstart, -, ⟨hs, hnormal, hi, hid, hstep, ht, htnormal⟩, -⟩ :=
    jumping_run
  obtain ⟨i', hi', hiff⟩ := @Exploration.reachable_frame_iff 0 _ _ _ _ _ Solver.ideal_exact hstart
    .refl s hs hnormal r hstep t ht htnormal
  rw [hi] at hi'
  cases hi'
  refine ⟨E₀, s, t, r, i, hstart, hs, hnormal, hi, hid, hstep, ht, hiff.2 ?_⟩
  rw [hid]
  rintro (h | h) <;> cases h

end Klc3
