import Klc3.Verification.Executor.Closed

/-!
# Frame conditions of the executor

What every function of the executor that works on one state leaves alone, which
issues it can raise and what happens to the status.
-/

namespace Klc3

namespace State

/-- The last instruction that changed a register. -/
def mark (s : State) (r : Reg) (ir : InstValue) : State :=
  { s with regChangeLocation := fun x => if x = r then some ir else s.regChangeLocation x }

theorem mark_silent (s : State) (r : Reg) (ir : InstValue) : s.Silent (s.mark r ir) :=
  ⟨⟨rfl, rfl, rfl, rfl, rfl, rfl, rfl, rfl, rfl⟩, rfl, rfl, rfl, rfl⟩

/-- A data instruction leaves its result in a register that sets the condition codes. -/
def setRegAndCC (s : State) (r : Fin 8) (value : Option WordExpr) (ir : InstValue) : State :=
  { (s.setReg r value).mark (.gpr r) ir with ccRef := some r, ccChangeLocation := some ir }

/-- A jump to a constant address. -/
def jump (s : State) (target : Word) (ir : InstValue) : State :=
  { s with pc := target }.mark .pc ir

end State

section Equations

variable (m : Mach) (r : Fin 8) (value : Option WordExpr) (w : Word) (ir : InstValue)

@[simp] theorem setRegExpr_gpr : setRegExpr m (.gpr r) value ir =
    .ok ⟨(m.s.setReg r value).mark (.gpr r) ir, m.pkg⟩ := rfl

@[simp] theorem setRegExpr_ir (e : WordExpr) : setRegExpr m .ir (some e) ir =
    .ok ⟨{ m.s with ir := e }.mark .ir ir, m.pkg⟩ := rfl

@[simp] theorem setRegExpr_pc : setRegExpr m .pc (some (.const w)) ir =
    .ok ⟨{ m.s with ir := .const w }.jump w ir, m.pkg⟩ := rfl

@[simp] theorem setRegWord_gpr : setRegWord m (.gpr r) w ir =
    .ok ⟨(m.s.setReg r (some (.const w))).mark (.gpr r) ir, m.pkg⟩ := rfl

@[simp] theorem setRegWord_pc : setRegWord m .pc w ir = .ok ⟨m.s.jump w ir, m.pkg⟩ := rfl

@[simp] theorem setRegAndCC_eq : setRegAndCC m r value ir =
    .ok ⟨m.s.setRegAndCC r value ir, m.pkg⟩ := rfl

@[simp] theorem updateIRAndPC_eq : Executor.updateIRAndPC m ir =
    .ok ⟨({ m.s with ir := .const ir.ir }.mark .ir ir).jump (m.s.pc + 1) ir, m.pkg⟩ := rfl

end Equations

/-! ## Stores to memory -/

/-- Storing the expression to MCR stops the clock. -/
def WordExpr.halts (e : WordExpr) : Bool :=
  match e.asConst with
  | some c => c &&& 0x8000 = 0
  | none => true

namespace MemoryManager

variable {mem mem' : MemoryManager} {addr : Word} {value : Option WordExpr} {result : WriteResult}

/-- The memory after a store. -/
def store (mem : MemoryManager) (addr : Word) (value : Option WordExpr) : MemoryManager :=
  if addr ∈ deviceAddrs then mem
  else { mem with mem := fun x => if x = addr then some (DataValue.alloc value) else mem.mem x }

@[simp] theorem store_baseMem (mem : MemoryManager) (addr : Word) (value : Option WordExpr) :
    (mem.store addr value).baseMem = mem.baseMem := by
  unfold store
  split <;> rfl

theorem read_store (mem : MemoryManager) (addr x : Word) (value : Option WordExpr) :
    (mem.store addr value).read x =
      if x = addr ∧ addr ∉ deviceAddrs then some (DataValue.alloc value) else mem.read x := by
  unfold store
  by_cases hdev : addr ∈ deviceAddrs
  · simp [hdev]
  · by_cases hx : x = addr
    · subst hx
      have hne := hdev
      simp only [deviceAddrs, List.mem_cons, List.not_mem_nil, or_false, not_or] at hne
      obtain ⟨h0, -, h4, h6, he⟩ := hne
      simp only [hdev, not_false_eq_true, and_true, if_true, if_false, read, h0, h4, h6, he]
    · simp only [hdev, hx, if_false, false_and, read]

/-- The outcome of a store is decided by the address, except at MCR. -/
theorem writeData_eq_ok (h : mem.writeData addr value = .ok (result, mem')) :
    mem' = mem.store addr value ∧
    (result = .halt ↔ addr = 0xFFFE ∧ ∃ e, value = some e ∧ e.halts = true) ∧
    (result = .ddr ↔ addr = 0xFE06) ∧ (addr = 0xFFFE → value.isSome) := by
  unfold writeData write at h
  split at h
  · rename_i hdev
    cases h
    rcases hdev with rfl | rfl | rfl <;> simp [store, deviceAddrs]
  · split at h
    · rename_i haddr
      cases h
      subst haddr
      simp [store, deviceAddrs]
    · split at h
      · rename_i haddr
        subst haddr
        cases value with
        | none => cases h
        | some e =>
            cases e with
            | const c =>
                simp only [DataValue.alloc, MemValue.e] at h
                split at h <;> cases h <;> simp_all [store, deviceAddrs, WordExpr.halts, WordExpr.asConst]
            | _ =>
                cases h
                simp [store, deviceAddrs, WordExpr.halts, WordExpr.asConst]
      · rename_i hdev hddr hmcr
        cases h
        have hmem : addr ∉ deviceAddrs := by
          simp only [deviceAddrs, List.mem_cons, List.not_mem_nil, or_false]
          tauto
        simp only [store, hmem, if_false, hddr, hmcr]
        simp

end MemoryManager

namespace State

/-- The state after a store, before the devices react. -/
def store (s : State) (addr : Word) (value : Option WordExpr) (ir : InstValue) : State :=
  { s with
    mem := s.mem.store addr value
    memStoringUninitReg := fun x =>
      if x = addr then (match value with
        | none => some (ir.sr, ir)
        | some _ => none) else s.memStoringUninitReg x
    mcrLog := if addr = 0xFFFE then s.mcrLog ++ value.toList else s.mcrLog }

@[simp] theorem store_issueLog (s : State) (addr : Word) (value : Option WordExpr)
    (ir : InstValue) : (s.store addr value ir).issueLog = s.issueLog := rfl

theorem All.store {P : WordExpr → Prop} {s : State} (h : s.All P) {addr : Word}
    {value : Option WordExpr} {ir : InstValue} (hvalue : ∀ e, value = some e → P e) :
    (s.store addr value ir).All P where
  reg := h.reg
  mem x v e hread he := by
    change (s.mem.store addr value).read x = some v at hread
    rw [MemoryManager.read_store] at hread
    split at hread
    · cases hread
      exact hvalue e he
    · exact h.mem x v e hread he
  out := h.out

end State

namespace Mach

variable {P : WordExpr → Prop} {m m' : Mach} {ir : InstValue}

theorem assertBroken_eq_ok {u : Unit} (h : assertBroken m = .ok u) : m.s.status = .broken := by
  unfold assertBroken at h
  split at h
  · assumption
  · cases h

/-! ## Registers -/

/-- An uninitialized register is reported in user code and becomes 0. -/
theorem getReg_eq_ok {r : Fin 8} {e : WordExpr} (h : getReg m r ir = .ok (m', e)) :
    (m.s.reg r = some e ∧ m' = m) ∨
    (m.s.reg r = none ∧ e = .const 0 ∧ ∃ m₁ : Mach,
      (ir.belongsToOS = true ∧ m₁ = m ∨ ir.belongsToOS = false ∧
        ∃ note, m.newStateIssue .warnUseUninitializedRegister ir note = .ok m₁) ∧
      m' = ⟨m₁.s.setReg r (some (.const 0)), m₁.pkg⟩) := by
  unfold getReg at h
  split at h
  · cases h
    exact .inl ⟨‹_›, rfl⟩
  · rename_i hreg
    refine .inr ⟨hreg, ?_⟩
    dsimp only at h
    split at h
    · cases h
      exact ⟨rfl, m, .inl ⟨‹_›, rfl⟩, rfl⟩
    · rename_i hos
      obtain ⟨m₁, hraise, h⟩ := Except.bind_eq_ok_iff.1 h
      cases h
      exact ⟨rfl, m₁, .inr ⟨by simpa using hos, _, hraise⟩, rfl⟩

/-- A register that is set keeps its value when a register is read. -/
theorem getReg_keeps {r x : Fin 8} {e v : WordExpr} (h : getReg m r ir = .ok (m', e))
    (hx : m.s.reg x = some v) : m'.s.reg x = some v := by
  rcases getReg_eq_ok h with ⟨-, rfl⟩ | ⟨hnone, -, m₁, hm₁, rfl⟩
  · exact hx
  · have hne : x ≠ r := by
      rintro rfl
      rw [hnone] at hx
      cases hx
    simp only [State.setReg, if_neg hne]
    rcases hm₁ with ⟨-, rfl⟩ | ⟨-, note, hraise⟩
    · exact hx
    · obtain ⟨⟨trigger, hs⟩, -⟩ := newStateIssue_eq_ok hraise
      rw [hs]
      exact hx

theorem setRegAndCC_effects {r : Fin 8} {value : Option WordExpr} (hm : m.s.All P)
    (hvalue : ∀ e, value = some e → P e) :
    Effects P m ⟨m.s.setRegAndCC r value ir, m.pkg⟩ :=
  have hall := hm.setReg (r := r) hvalue
  .of_silent ⟨⟨rfl, rfl, rfl, rfl, rfl, rfl, rfl, rfl, rfl⟩, rfl, rfl, rfl, rfl⟩
    ⟨hall.reg, hall.mem, hall.out⟩

theorem setReg_effects (r : Fin 8) (value : Option WordExpr) (hm : m.s.All P)
    (hvalue : ∀ e, value = some e → P e) : Effects P m ⟨m.s.setReg r value, m.pkg⟩ :=
  .of_silent (m.s.setReg_silent r value) (hm.setReg hvalue)

theorem mark_effects {r : Reg} (hm : m.s.All P) : Effects P m ⟨m.s.mark r ir, m.pkg⟩ :=
  .of_silent (m.s.mark_silent r ir) ⟨hm.reg, hm.mem, hm.out⟩

theorem jump_effects {target : Word} (hm : m.s.All P) :
    Effects P m ⟨m.s.jump target ir, m.pkg⟩ :=
  .of_silent ⟨⟨rfl, rfl, rfl, rfl, rfl, rfl, rfl, rfl, rfl⟩, rfl, rfl, rfl, rfl⟩
    ⟨hm.reg, hm.mem, hm.out⟩

theorem setIR_effects {e : WordExpr} (hm : m.s.All P) :
    Effects P m ⟨{ m.s with ir := e }, m.pkg⟩ :=
  .of_silent ⟨⟨rfl, rfl, rfl, rfl, rfl, rfl, rfl, rfl, rfl⟩, rfl, rfl, rfl, rfl⟩
    ⟨hm.reg, hm.mem, hm.out⟩

variable (hP : Closed P)

include hP

/-- A return address goes to `R7`. -/
theorem link_effects (r : Fin 8) (w : Word) (ir : InstValue) (hm : m.s.All P) :
    Effects P m ⟨(m.s.setReg r (some (.const w))).mark (.gpr r) ir, m.pkg⟩ := by
  have h := setReg_effects r (some (.const w)) hm
    (by rintro e ⟨⟩; exact hP.const w)
  exact h.trans (mark_effects (m := ⟨_, m.pkg⟩) h.all)

theorem getReg_effects {r : Fin 8} {e : WordExpr} (hm : m.s.All P)
    (h : getReg m r ir = .ok (m', e)) : Effects P m m' ∧ P e := by
  rcases getReg_eq_ok h with ⟨hreg, rfl⟩ | ⟨-, rfl, m₁, hraise, rfl⟩
  · exact ⟨.refl hm, hm.reg _ _ hreg⟩
  · have heff : Effects P m m₁ := by
      rcases hraise with ⟨-, rfl⟩ | ⟨-, note, hraise⟩
      · exact .refl hm
      · exact newStateIssue_effects hm hraise
    exact ⟨heff.trans (setReg_effects _ _ heff.all (by rintro e ⟨⟩; exact hP.const 0)), hP.const 0⟩

theorem getCCExpr_effects {e : WordExpr} (hm : m.s.All P)
    (h : getCCExpr m ir = .ok (m', e)) : Effects P m m' ∧ P e := by
  unfold getCCExpr at h
  split at h
  · rename_i e' hcc
    cases h
    obtain ⟨r, -, hreg⟩ := Option.bind_eq_some_iff.1 hcc
    exact ⟨.refl hm, hm.reg _ _ hreg⟩
  · split at h
    · obtain ⟨m₁, hraise, h⟩ := Except.bind_eq_ok_iff.1 h
      cases h
      exact ⟨newStateIssue_effects hm hraise, hP.const 0⟩
    · rename_i r _
      obtain ⟨m₁, hraise, h⟩ := Except.bind_eq_ok_iff.1 h
      cases h
      have heff := newStateIssue_effects hm hraise
      have hset := setReg_effects r (some (.const 0)) heff.all
        (by rintro e ⟨⟩; exact hP.const 0)
      refine ⟨heff.trans (hset.trans (.of_silent ?_ ?_)), hP.const 0⟩
      · exact ⟨⟨rfl, rfl, rfl, rfl, rfl, rfl, rfl, rfl, rfl⟩, rfl, rfl, rfl, rfl⟩
      · exact ⟨hset.all.reg, hset.all.mem, hset.all.out⟩

/-! ## Memory -/

omit hP in
theorem warnOnRead_effects {addr : Word} {value : MemValue} (hm : m.s.All P)
    (h : warnOnRead m addr value ir = .ok m') : Effects P m m' := by
  unfold warnOnRead at h
  split at h
  · split at h
    · exact newStateIssue_effects hm h
    · cases h
      exact .refl hm
  · exact newStateIssue_effects hm h

theorem memReadData_effects {addr : Word} {dr : Option (Fin 8)} {value : Option WordExpr}
    (hm : m.s.All P) (h : memReadData m addr ir dr = .ok (m', value)) :
    Effects P m m' ∧ ∀ e, value = some e → P e := by
  unfold memReadData at h
  split at h
  · obtain ⟨m₁, hraise, h⟩ := Except.bind_eq_ok_iff.1 h
    cases h
    exact ⟨newStateIssue_effects hm hraise, by rintro e ⟨⟩; exact hP.const 0⟩
  · rename_i cell hread
    obtain ⟨m₁, hraise, h⟩ := Except.bind_eq_ok_iff.1 h
    have heff := warnOnRead_effects hm hraise
    split at h
    · rename_i e hvalue
      cases h
      exact ⟨heff, by rintro e ⟨⟩; exact hm.mem _ _ _ hread hvalue⟩
    · split at h
      · cases h
        exact ⟨heff, by rintro e ⟨⟩; exact hP.const 0⟩
      · split at h
        · cases h
          exact ⟨heff, by rintro e ⟨⟩⟩
        · obtain ⟨m₂, hraise', h⟩ := Except.bind_eq_ok_iff.1 h
          cases h
          have heff' := newStateIssue_effects heff.all hraise'
          refine ⟨heff.trans (heff'.trans (.of_silent ?_ ?_)), by rintro e ⟨⟩; exact hP.const 0⟩
          · exact ⟨⟨rfl, rfl, rfl, rfl, rfl, rfl, rfl, rfl, rfl⟩, rfl, rfl, rfl, rfl⟩
          · exact ⟨heff'.all.reg, heff'.all.mem, heff'.all.out⟩

omit hP in
theorem checkOverwrite_effects {addr : Word} {goesOn : Bool} (hm : m.s.All P)
    (h : checkOverwrite m addr ir = .ok (m', goesOn)) : Effects P m m' := by
  unfold checkOverwrite at h
  split at h
  · obtain ⟨m₁, hraise, h⟩ := Except.bind_eq_ok_iff.1 h
    cases h
    exact newStateIssue_effects hm hraise
  · split at h
    · obtain ⟨m₁, hraise, h⟩ := Except.bind_eq_ok_iff.1 h
      cases h
      exact newStateIssue_effects hm hraise
    · cases h
      exact .refl hm
  · obtain ⟨m₁, hraise, h⟩ := Except.bind_eq_ok_iff.1 h
    obtain ⟨_, _, h⟩ := Except.bind_eq_ok_iff.1 h
    cases h
    exact newStateIssue_effects hm hraise

/-! ## Stores -/

omit hP in
theorem checkOverwrite_mcr {goesOn : Bool}
    (h : checkOverwrite m 0xFFFE ir = .ok (m', goesOn)) : m' = m ∧ goesOn = true := by
  have hread : m.s.mem.read 0xFFFE = some (DataValue.alloc (some (.const 0x8000))) := rfl
  simp only [checkOverwrite, hread, DataValue.alloc] at h
  cases h
  exact ⟨rfl, rfl⟩

/-- The clock is stopped through MCR: the state halts, and it is reported unless a
`TRAP` leads here. -/
inductive Halting (m m' : Mach) : Prop
  | trap (last : InstValue) (hlast : m.s.latestNonOSInst.1 = some last)
      (htrap : last.instID = .TRAP) (h : m' = ⟨{ m.s with status := .halted }, m.pkg⟩)
  | manual (last : InstValue) (note : String) (hlast : m.s.latestNonOSInst.1 = some last)
      (htrap : last.instID ≠ .TRAP)
      (h : newStateIssue ⟨{ m.s with status := .halted }, m.pkg⟩ .warnManualHalt last note = .ok m')

omit hP in
theorem afterWrite_halt {value : Option WordExpr} (h : afterWrite m value ir .halt = .ok m') :
    Halting m m' := by
  unfold afterWrite at h
  dsimp only at h
  split at h
  · cases h
  · rename_i last hlast
    split at h
    · rename_i htrap
      exact .manual last _ hlast htrap h
    · rename_i htrap
      cases h
      exact .trap last hlast (by simpa using htrap) rfl

/-- A store that goes to memory or to the display. -/
inductive Storing (m : Mach) (addr : Word) (value : Option WordExpr) (ir : InstValue) (m' : Mach) :
    Prop
  | plain (haddr : addr ≠ 0xFE06) (h : m' = ⟨m.s.store addr value ir, m.pkg⟩)
  | display (e : WordExpr) (haddr : addr = 0xFE06) (hvalue : value = some e)
      (h : m' = ⟨{ m.s.store addr value ir with lc3Out := m.s.lc3Out ++ [e] }, m.pkg⟩)
  | displayNull (m₁ : Mach) (note : String) (haddr : addr = 0xFE06) (hvalue : value = none)
      (hraise : newStateIssue ⟨m.s.store addr value ir, m.pkg⟩ .warnUseUninitializedRegister ir note
        = .ok m₁)
      (h : m' = ⟨{ m₁.s with lc3Out := m₁.s.lc3Out ++ [.const 0] }, m₁.pkg⟩)

omit hP in
/-- Everything a store can do: it is given up at an instruction, it stops the clock,
or it goes to memory or the display. -/
theorem memWriteData_eq_ok {addr : Word} {value : Option WordExpr}
    (hstore : memWriteData m addr value ir = .ok m') :
    checkOverwrite m addr ir = .ok (m', false) ∨
    (∃ e, addr = 0xFFFE ∧ value = some e ∧ e.halts = true ∧
      Halting ⟨m.s.store addr value ir, m.pkg⟩ m') ∨
    (∃ m₁, checkOverwrite m addr ir = .ok (m₁, true) ∧
      (addr = 0xFFFE → ∃ e, value = some e ∧ e.halts = false) ∧ Storing m₁ addr value ir m') := by
  obtain ⟨⟨m₁, goesOn⟩, hcheck, hrest⟩ := Except.bind_eq_ok_iff.1 hstore
  cases goesOn with
  | false =>
      cases hrest
      exact .inl hcheck
  | true =>
      obtain ⟨⟨result, mem⟩, hwrite, h⟩ := Except.bind_eq_ok_iff.1 hrest
      obtain ⟨rfl, hhalt, hddr, hsome⟩ := MemoryManager.writeData_eq_ok hwrite
      refine .inr ?_
      cases result with
      | success =>
          cases h
          refine .inr ⟨m₁, hcheck, ?_, .plain (by simpa using hddr) rfl⟩
          intro haddr
          obtain ⟨e, rfl⟩ := Option.isSome_iff_exists.1 (hsome haddr)
          simpa [haddr] using hhalt
      | halt =>
          obtain ⟨haddr, e, rfl, he⟩ := hhalt.1 rfl
          subst haddr
          obtain ⟨rfl, -⟩ := checkOverwrite_mcr hcheck
          refine .inl ⟨e, rfl, rfl, he, ?_⟩
          exact afterWrite_halt h
      | ddr =>
          have haddr := hddr.1 rfl
          refine .inr ⟨m₁, hcheck, by rw [haddr]; simp, ?_⟩
          cases value with
          | none =>
              obtain ⟨m₂, hraise, h⟩ := Except.bind_eq_ok_iff.1 h
              cases h
              exact .displayNull m₂ _ haddr rfl hraise rfl
          | some e =>
              cases h
              exact .display e haddr rfl rfl

omit hP in
theorem store_effect (addr : Word) (ir : InstValue) {value : Option WordExpr} (hm : m.s.All P)
    (hvalue : ∀ e, value = some e → P e) :
    Effect P [] m ⟨m.s.store addr value ir, m.pkg⟩ where
  same := ⟨rfl, rfl, rfl, rfl, by simp [State.store], rfl, rfl, rfl, rfl⟩
  all := hm.store hvalue
  issueLog := by simp [State.store]
  mcrLog := by
    simp only [State.store]
    split
    · exact List.prefix_append _ _
    · exact List.prefix_rfl
  raises := .refl _ _
  broken := by simp
  status := fun _ => rfl

theorem Storing.effects {addr : Word} {value : Option WordExpr} (hm : m.s.All P)
    (hvalue : ∀ e, value = some e → P e) (h : Storing m addr value ir m') : Effects P m m' := by
  have hstore : Effects P m ⟨m.s.store addr value ir, m.pkg⟩ := ⟨_, store_effect addr ir hm hvalue⟩
  have hout : ∀ {m₁ : Mach} {e : WordExpr}, m₁.s.All P → P e →
      Effects P m₁ ⟨{ m₁.s with lc3Out := m₁.s.lc3Out ++ [e] }, m₁.pkg⟩ := by
    intro m₁ e hall he
    refine .of_silent ⟨⟨rfl, rfl, rfl, rfl, rfl, rfl, rfl, rfl, rfl⟩, rfl, rfl, rfl, rfl⟩
      ⟨hall.reg, hall.mem, ?_⟩
    intro e' he'
    rcases List.mem_append.1 he' with he' | he'
    · exact hall.out e' he'
    · rw [List.mem_singleton] at he'
      exact he' ▸ he
  cases h with
  | plain _ h => exact h ▸ hstore
  | display e _ he h => exact h ▸ hstore.trans (hout hstore.all (hvalue e he))
  | displayNull m₁ note _ _ hraise h =>
      have hraised := newStateIssue_effects hstore.all hraise
      exact h ▸ hstore.trans (hraised.trans (hout hraised.all (hP.const 0)))

/-- The frame condition without the issues and the status. -/
def Frames (P : WordExpr → Prop) (m m' : Mach) : Prop :=
  ∃ ev, Frame P ev m m'

omit hP in
theorem Effects.frames (h : Effects P m m') : Frames P m m' :=
  let ⟨ev, h⟩ := h
  ⟨ev, h.toFrame⟩

omit hP in
theorem Frames.trans {m'' : Mach} (h : Frames P m m') (h' : Frames P m' m'') : Frames P m m'' :=
  let ⟨_, h⟩ := h
  let ⟨_, h'⟩ := h'
  ⟨_, h.trans h'⟩

omit hP in
theorem setStatus_frame (status : Status) (hm : m.s.All P) :
    Frame P [] m ⟨{ m.s with status := status }, m.pkg⟩ :=
  ⟨⟨rfl, rfl, rfl, rfl, rfl, rfl, rfl, rfl, rfl⟩, ⟨hm.reg, hm.mem, hm.out⟩, by simp,
    List.prefix_rfl, .refl _ _⟩

omit hP in
theorem Halting.frames (hm : m.s.All P) (h : Halting m m') : Frames P m m' := by
  have hframe := setStatus_frame .halted hm
  cases h with
  | trap last _ _ h => exact h ▸ ⟨_, hframe⟩
  | manual last note _ _ h =>
      exact .trans ⟨_, hframe⟩ (newStateIssue_effects hframe.all h).frames

theorem memWriteData_frames {addr : Word} {value : Option WordExpr} (hm : m.s.All P)
    (hvalue : ∀ e, value = some e → P e) (h : memWriteData m addr value ir = .ok m') :
    Frames P m m' := by
  rcases memWriteData_eq_ok h with h | ⟨e, -, -, -, h⟩ | ⟨m₁, hcheck, -, h⟩
  · exact (checkOverwrite_effects hm h).frames
  · have hstore := store_effect addr ir hm hvalue
    exact .trans ⟨_, hstore.toFrame⟩ (h.frames hstore.all)
  · have hcheck' := checkOverwrite_effects hm hcheck
    exact (hcheck'.trans (h.effects hP hcheck'.all hvalue)).frames

/-! ## Instructions -/

theorem executeST_frames (hm : m.s.All P) (h : executeST m ir = .ok m') : Frames P m m' :=
  memWriteData_frames hP hm (fun e he => hm.reg _ e he) h

theorem loadFrom_effects {addr : Word} (hm : m.s.All P)
    (h : Executor.loadFrom ir m addr = .ok m') : Effects P m m' := by
  obtain ⟨⟨m₁, value⟩, hread, h⟩ := Except.bind_eq_ok_iff.1 h
  obtain ⟨heff, hvalue⟩ := memReadData_effects hP hm hread
  dsimp only at h
  split at h
  · cases h
    exact heff
  · rw [setRegAndCC_eq] at h
    cases h
    exact heff.trans (setRegAndCC_effects heff.all hvalue)

theorem executeLD_effects (hm : m.s.All P) (h : executeLD m ir = .ok m') : Effects P m m' :=
  loadFrom_effects hP hm h

omit hP in
theorem symbolicPC_eq_ok (h : symbolicPC m ir = .ok m') :
    (∃ note, m.newStateIssue .errSymbolicPC ir note = .ok m') ∧ m'.s.status = .broken := by
  obtain ⟨m₁, hraise, h⟩ := Except.bind_eq_ok_iff.1 h
  obtain ⟨_, hassert, h⟩ := Except.bind_eq_ok_iff.1 h
  cases h
  exact ⟨⟨_, hraise⟩, assertBroken_eq_ok hassert⟩

omit hP in
/-- `RET` in the main code is reported once, and the stack is given up. -/
theorem checkRetInMainCode_eq_ok (h : checkRetInMainCode m ir = .ok m') :
    (ir.belongsToOS = false ∧ ir.baseR = 7 ∧ m.s.stackHasMessedUp = false ∧
      (∃ color, m.s.colorStack = [color]) ∧ ∃ (m₁ : Mach) (note : String),
        m.newStateIssue .errRetInMainCode ir note = .ok m₁ ∧
        m' = ⟨{ m₁.s with stackHasMessedUp := true }, m₁.pkg⟩) ∨
    (¬ (ir.belongsToOS = false ∧ ir.baseR = 7 ∧ m.s.stackHasMessedUp = false ∧
      ∃ color, m.s.colorStack = [color]) ∧ m' = m) := by
  unfold checkRetInMainCode at h
  split at h
  · rename_i hcond
    obtain ⟨hos, hret, hmess⟩ := hcond
    split at h
    · rename_i color hstack
      obtain ⟨m₁, hraise, h⟩ := Except.bind_eq_ok_iff.1 h
      cases h
      exact .inl ⟨hos, hret, hmess, ⟨color, hstack⟩, m₁, _, hraise, rfl⟩
    · rename_i hstack
      cases h
      exact .inr ⟨fun ⟨_, _, _, color, hcolor⟩ => hstack color hcolor, rfl⟩
  · rename_i hcond
    cases h
    exact .inr ⟨fun ⟨hos, hret, hmess, _⟩ => hcond ⟨hos, hret, hmess⟩, rfl⟩

omit hP in
theorem checkRetInMainCode_effects (hm : m.s.All P) (h : checkRetInMainCode m ir = .ok m') :
    Effects P m m' := by
  rcases checkRetInMainCode_eq_ok h with ⟨-, -, -, -, m₁, note, hraise, rfl⟩ | ⟨-, rfl⟩
  · have heff := newStateIssue_effects hm hraise
    refine heff.trans (.of_silent ?_ ⟨heff.all.reg, heff.all.mem, heff.all.out⟩)
    exact ⟨⟨rfl, rfl, rfl, rfl, rfl, rfl, rfl, rfl, rfl⟩, rfl, rfl, rfl, rfl⟩
  · exact .refl hm

theorem executeJMP_effects (hm : m.s.All P) (h : executeJMP m ir = .ok m') : Effects P m m' := by
  obtain ⟨m₁, hcheck, h⟩ := Except.bind_eq_ok_iff.1 h
  have heff := checkRetInMainCode_effects hm hcheck
  dsimp only at h
  split at h
  · obtain ⟨⟨m₂, newPC⟩, hget, h⟩ := Except.bind_eq_ok_iff.1 h
    obtain ⟨heff₂, -⟩ := getReg_effects hP heff.all hget
    refine heff.trans (heff₂.trans ?_)
    dsimp only at h
    split at h
    · obtain ⟨⟨note, hraise⟩, -⟩ := symbolicPC_eq_ok h
      exact newStateIssue_effects heff₂.all hraise
    · rename_i c hc
      rw [WordExpr.asConst_eq_some hc, setRegExpr_pc] at h
      cases h
      have hir := setIR_effects (e := .const c) heff₂.all
      exact hir.trans (jump_effects hir.all)
  · cases h
    exact heff

theorem executeJSRR_effects (hm : m.s.All P) (h : executeJSRR m ir = .ok m') :
    Effects P m m' := by
  obtain ⟨⟨m₁, newPC⟩, hget, h⟩ := Except.bind_eq_ok_iff.1 h
  obtain ⟨heff, -⟩ := getReg_effects hP hm hget
  refine heff.trans ?_
  dsimp only at h
  split at h
  · obtain ⟨⟨note, hraise⟩, -⟩ := symbolicPC_eq_ok h
    exact newStateIssue_effects heff.all hraise
  · rename_i c hc
    rw [WordExpr.asConst_eq_some hc, setRegWord_gpr, Except.ok_bind', setRegExpr_pc] at h
    cases h
    have hlink := link_effects hP 7 m₁.s.pc ir heff.all
    have hir := setIR_effects (e := .const c) hlink.all
    exact hlink.trans (hir.trans (jump_effects hir.all))

theorem executeADD_effects (hm : m.s.All P) (h : executeADD m ir = .ok m') :
    Effects P m m' := by
  obtain ⟨⟨m₁, op1⟩, hget1, h⟩ := Except.bind_eq_ok_iff.1 h
  obtain ⟨heff1, hop1⟩ := getReg_effects hP hm hget1
  have hrest : ∀ {m₂ : Mach} {op2 : WordExpr}, Effects P m₁ m₂ → P op2 →
      (addResult op1 op2 >>= fun e => setRegAndCC m₂ ir.dr (some e) ir) = .ok m' →
      Effects P m m' := by
    intro m₂ op2 heff2 hop2 h
    obtain ⟨e, hsum, h⟩ := Except.bind_eq_ok_iff.1 h
    rw [setRegAndCC_eq] at h
    cases h
    refine heff1.trans (heff2.trans (setRegAndCC_effects heff2.all ?_))
    rintro e' ⟨⟩
    exact hP.add _ _ _ hop1 hop2 hsum
  dsimp only at h
  split at h
  · obtain ⟨⟨m₂, op2⟩, hget2, h⟩ := Except.bind_eq_ok_iff.1 h
    obtain ⟨heff2, hop2⟩ := getReg_effects hP heff1.all hget2
    exact hrest heff2 hop2 h
  · exact hrest (.refl heff1.all) (hP.const ir.imm5) h

theorem warnOnAndOperand_effects {r : Fin 8} {other : Option WordExpr} (hm : m.s.All P)
    (h : warnOnAndOperand m r other ir = .ok m') : Effects P m m' := by
  unfold warnOnAndOperand at h
  split at h
  · obtain ⟨m₁, hraise, h⟩ := Except.bind_eq_ok_iff.1 h
    rw [setRegWord_gpr] at h
    cases h
    have heff := newStateIssue_effects hm hraise
    exact heff.trans (link_effects hP r 0 ir heff.all)
  · cases h
    exact .refl hm

/-- The second operand of `AND`. -/
def andOperand2 (m : Mach) (ir : InstValue) : Option WordExpr :=
  if ir.instDef.format = .RRR then m.s.reg ir.sr2 else some (.const ir.imm5)

omit hP in
theorem executeAND_eq_ok (h : executeAND m ir = .ok m') :
    ∃ m₁ m₂ : Mach,
      (if (m.s.reg ir.sr1).isNone then warnOnAndOperand m ir.sr1 (andOperand2 m ir) ir else pure m)
        = .ok m₁ ∧
      (if (andOperand2 m ir).isNone then warnOnAndOperand m₁ ir.sr2 (m.s.reg ir.sr1) ir else pure m₁)
        = .ok m₂ ∧
      m' = ⟨m₂.s.setRegAndCC ir.dr (some (ExprBuilder.and ((m.s.reg ir.sr1).getD (.const 0))
        ((andOperand2 m ir).getD (.const 0)))) ir, m₂.pkg⟩ := by
  unfold executeAND at h
  dsimp only at h
  rw [← andOperand2, Except.ite_bind_eq] at h
  obtain ⟨m₁, hwarn1, h⟩ := Except.bind_eq_ok_iff.1 h
  rw [Except.ite_bind_eq] at h
  obtain ⟨m₂, hwarn2, h⟩ := Except.bind_eq_ok_iff.1 h
  rw [setRegAndCC_eq] at h
  cases h
  exact ⟨m₁, m₂, hwarn1, hwarn2, rfl⟩

theorem executeAND_effects (hm : m.s.All P) (h : executeAND m ir = .ok m') :
    Effects P m m' := by
  obtain ⟨m₁, m₂, h1, h2, rfl⟩ := executeAND_eq_ok h
  have heff1 : Effects P m m₁ := by
    split at h1
    · exact warnOnAndOperand_effects hP hm h1
    · cases h1
      exact .refl hm
  have heff2 : Effects P m₁ m₂ := by
    split at h2
    · exact warnOnAndOperand_effects hP heff1.all h2
    · cases h2
      exact .refl heff1.all
  have hget : ∀ {e : Option WordExpr}, (∀ e', e = some e' → P e') → P (e.getD (.const 0)) := by
    intro e he
    cases e with
    | none => exact hP.const 0
    | some e => exact he e rfl
  refine heff1.trans (heff2.trans (setRegAndCC_effects heff2.all ?_))
  rintro e ⟨⟩
  refine hP.and _ _ (hget fun e he => hm.reg _ e he) (hget fun e he => ?_)
  unfold andOperand2 at he
  split at he
  · exact hm.reg _ e he
  · cases he
    exact hP.const _

theorem executeNOT_effects (hm : m.s.All P) (h : executeNOT m ir = .ok m') :
    Effects P m m' := by
  obtain ⟨⟨m₁, op⟩, hget, h⟩ := Except.bind_eq_ok_iff.1 h
  obtain ⟨heff, hop⟩ := getReg_effects hP hm hget
  cases h
  refine heff.trans (setRegAndCC_effects heff.all ?_)
  rintro e ⟨⟩
  exact hP.not _ hop

theorem executeLEA_effects (hm : m.s.All P) (h : executeLEA m ir = .ok m') :
    Effects P m m' := by
  cases h
  exact setRegAndCC_effects hm (by rintro e ⟨⟩; exact hP.const _)

theorem executeJSR_effects (hm : m.s.All P) (h : executeJSR m ir = .ok m') :
    Effects P m m' := by
  cases h
  have hlink := link_effects hP 7 m.s.pc ir hm
  exact hlink.trans (jump_effects hlink.all)

theorem executeTRAP_effects (hm : m.s.All P) (hinstant : ir.sourceContent ≠ "INSTANT_HALT")
    (h : executeTRAP m ir = .ok m') : Effects P m m' := by
  unfold executeTRAP at h
  rw [if_neg hinstant, setRegWord_gpr, Except.ok_bind'] at h
  have hlink := link_effects hP 7 m.s.pc ir hm
  obtain ⟨⟨m₁, newPC⟩, hread, h⟩ := Except.bind_eq_ok_iff.1 h
  obtain ⟨heff, -⟩ := memReadData_effects hP hlink.all hread
  refine hlink.trans (heff.trans ?_)
  dsimp only at h
  split at h
  · cases h
    exact .refl heff.all
  · split at h
    · cases h
    · obtain ⟨c, -, h⟩ := Except.bind_eq_ok_iff.1 h
      rw [setRegWord_pc] at h
      cases h
      exact jump_effects heff.all

omit hP in
theorem executeRTI_effects (hm : m.s.All P) (h : executeRTI m ir = .ok m') : Effects P m m' := by
  obtain ⟨m₁, hraise, h⟩ := Except.bind_eq_ok_iff.1 h
  obtain ⟨_, _, h⟩ := Except.bind_eq_ok_iff.1 h
  cases h
  exact newStateIssue_effects hm hraise

/-- Instructions with one result, other than a store. -/
theorem executeSimple_effects (hm : m.s.All P) (hST : ir.instID ≠ .ST)
    (hinstant : ir.instID = .TRAP → ir.sourceContent ≠ "INSTANT_HALT")
    (h : Executor.executeSimple m ir = .ok m') : Effects P m m' := by
  unfold Executor.executeSimple at h
  split at h
  · exact executeADD_effects hP hm h
  · exact executeADD_effects hP hm h
  · exact executeAND_effects hP hm h
  · exact executeAND_effects hP hm h
  · exact executeJMP_effects hP hm h
  · exact executeJSR_effects hP hm h
  · exact executeJSRR_effects hP hm h
  · exact executeLD_effects hP hm h
  · exact executeLEA_effects hP hm h
  · exact executeNOT_effects hP hm h
  · exact absurd ‹_› hST
  · exact executeTRAP_effects hP hm (hinstant ‹_›) h
  · exact executeRTI_effects hm h

theorem executeSimple_frames (hm : m.s.All P) (h : Executor.executeSimple m ir = .ok m') :
    Frames P m m' := by
  by_cases hST : ir.instID = .ST
  · simp only [Executor.executeSimple, hST] at h
    exact executeST_frames hP hm h
  · by_cases hinstant : ir.instID = .TRAP ∧ ir.sourceContent = "INSTANT_HALT"
    · simp only [Executor.executeSimple, hinstant.1, executeTRAP, hinstant.2, if_true] at h
      cases h
      exact ⟨_, setStatus_frame _ hm⟩
    · exact (executeSimple_effects hP hm hST (fun h1 h2 => hinstant ⟨h1, h2⟩) h).frames

end Mach

end Klc3
