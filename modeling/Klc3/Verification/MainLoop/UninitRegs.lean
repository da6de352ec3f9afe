import Klc3.Lib.Deposit
import Klc3.Verification.MainLoop.Runs
import Klc3.Verification.MainLoop.StepFrame

/-!
# Uninitialized registers in memory

A store of an uninitialized register leaves an entry in `memStoringUninitReg`. It stays
until something else is stored there or the cell is loaded other than back into that
register, which is reported.
-/

namespace Klc3

open Deposit (Access Pending replay replay_append replay_congr)
open IssuePackage (Leveled)
open MemoryManager (deviceAddrs)

namespace State

instance (lv : IssueType → Option Level) (s : State) (addr : Word) :
    Decidable (s.ReadBreaks lv addr) :=
  match h : s.mem.read addr with
  | none => decidable_of_iff (lv .warnPossibleWildRead = some .error) (by simp [ReadBreaks, h])
  | some (.inst _) =>
    decidable_of_iff (lv .warnReadInstAsData = some .error) (by simp [ReadBreaks, h])
  | some (.data d) =>
    decidable_of_iff ((d.forWrite = true ∧ lv .warnReadUninitializedMemory = some .error) ∨
      (d.e = none ∧ (s.memStoringUninitReg addr).isSome ∧
        lv .warnUseUninitializedRegister = some .error)) (by simp [ReadBreaks, h])

/-- The registers that `memStoringUninitReg` names. -/
def marks (s : State) (addr : Word) : Option (Fin 8) :=
  (s.memStoringUninitReg addr).map Prod.fst

/-- The access of a store. At an instruction it is refused. -/
def stored (s : State) (addr : Word) (value : Option WordExpr) (ir : InstValue) :
    List (Access Word (Fin 8)) :=
  match s.mem.read addr with
  | some (.inst _) => []
  | _ => [.store addr (if value.isNone then some ir.sr else none)]

/-- The accesses of an instruction for one input, the latest first, with the PC already
behind it. A value that is used as an address has no reader. -/
def accesses (lv : IssueType → Option Level) (s : State) (ir : InstValue) (a : Assignment) :
    List (Access Word (Fin 8)) :=
  match ir.instID with
  | .LD => [.load (s.pc + ir.imm9) (some ir.dr)]
  | .ST => s.stored (s.pc + ir.imm9) (s.reg ir.sr) ir
  | .LDR => [.load ((s.lc3 a).reg ir.baseR + ir.imm6) (some ir.dr)]
  | .STR => s.stored ((s.lc3 a).reg ir.baseR + ir.imm6) (s.reg ir.sr) ir
  | .LDI =>
    (if s.ReadBreaks lv (s.pc + ir.imm9) then []
      else [.load ((s.lc3 a).mem (s.pc + ir.imm9)) (some ir.dr)]) ++
    [.load (s.pc + ir.imm9) none]
  | .STI =>
    (if s.ReadBreaks lv (s.pc + ir.imm9) then []
      else s.stored ((s.lc3 a).mem (s.pc + ir.imm9)) (s.reg ir.sr) ir) ++
    [.load (s.pc + ir.imm9) none]
  | .TRAP => if ir.sourceContent = "INSTANT_HALT" then [] else [.load ir.vec8 none]
  | _ => []

/-- A cell with an entry holds null. -/
def NullMarked (s : State) : Prop :=
  ∀ x ∉ deviceAddrs, ∀ r, s.marks x = some r → s.mem.read x = some (DataValue.alloc none)

/-- From `s` to `t` the entries change as the accesses say. -/
structure Moves (s : State) (accs : List (Access Word (Fin 8))) (t : State) : Prop where
  marks : ∀ x ∉ deviceAddrs, t.marks x = replay s.marks accs x
  nullMarked : t.NullMarked

variable {s t u : State} {accs accs' : List (Access Word (Fin 8))}

theorem marks_congr (h : t.memStoringUninitReg = s.memStoringUninitReg) : t.marks = s.marks := by
  unfold marks
  rw [h]

theorem NullMarked.congr (h : s.NullMarked) (hentries : t.memStoringUninitReg = s.memStoringUninitReg)
    (hmem : t.mem = s.mem) : t.NullMarked := by
  unfold NullMarked
  rw [marks_congr hentries, hmem]
  exact h

theorem NullMarked.of_reads (h : s.NullMarked) (hreads : s.Reads t) : t.NullMarked :=
  h.congr hreads.memStoringUninitReg hreads.mem

theorem Moves.of_same (h : s.NullMarked) (hentries : t.memStoringUninitReg = s.memStoringUninitReg)
    (hmem : t.mem = s.mem) : s.Moves [] t :=
  ⟨fun _ _ => by rw [marks_congr hentries]; rfl, h.congr hentries hmem⟩

theorem Moves.trans (h : s.Moves accs t) (h' : t.Moves accs' u) : s.Moves (accs' ++ accs) u where
  marks x hx := by
    rw [h'.marks x hx, replay_append]
    exact replay_congr (h.marks x hx)
  nullMarked := h'.nullMarked

/-- What happens before and after the accesses. -/
theorem Moves.congr {s' t' : State} (h : s.Moves accs t)
    (hs : s'.memStoringUninitReg = s.memStoringUninitReg)
    (ht : t'.memStoringUninitReg = t.memStoringUninitReg) (hmem : t'.mem = t.mem) :
    s'.Moves accs t' where
  marks x hx := by
    rw [marks_congr ht, marks_congr hs]
    exact h.marks x hx
  nullMarked := h.nullMarked.congr ht hmem

end State

namespace Mach

variable {m m' : Mach} {ir : InstValue} {addr : Word}

/-- A load. -/
theorem memReadData_moves {dr : Option (Fin 8)} {value : Option WordExpr}
    (hnull : m.s.NullMarked) (h : memReadData m addr ir dr = .ok (m', value)) :
    m.s.Moves [.load addr dr] m'.s := by
  obtain ⟨-, u, hreads, ⟨hwarns, hs⟩ | ⟨hsilent, hs⟩⟩ := memReadData_eq_ok h
  · obtain ⟨-, r, stored, hentry, hne⟩ := hwarns
    have hmark : m.s.marks addr = some r := by rw [State.marks, hentry]; rfl
    have hforget : ∀ x, m'.s.marks x = if x = addr then none else m.s.marks x := by
      intro x
      rw [hs, ← State.marks_congr hreads.memStoringUninitReg]
      unfold State.marks State.forget
      dsimp only
      split <;> rfl
    refine ⟨fun x _ => ?_, fun x hx r' hr' => ?_⟩
    · rw [hforget x, Deposit.replay_load]
      by_cases hx : x = addr
      · subst hx
        rw [if_pos rfl, if_pos ⟨rfl, by rw [hmark]; exact hne⟩]
      · rw [if_neg hx, if_neg fun h => hx h.1]
    · rw [hforget x] at hr'
      split at hr'
      · cases hr'
      · rw [hs]
        exact (congrArg (fun mem => mem.read x) hreads.mem).trans (hnull x hx r' hr')
  · rw [hs]
    refine ⟨fun x hx => ?_, hnull.of_reads hreads⟩
    rw [State.marks_congr hreads.memStoringUninitReg, Deposit.replay_load]
    split
    · rename_i hload
      obtain ⟨rfl, hne⟩ := hload
      -- otherwise the load would have warned
      cases hentry : m.s.memStoringUninitReg x with
      | none => rw [State.marks, hentry]; rfl
      | some entry =>
          obtain ⟨r, stored⟩ := entry
          have hmark : m.s.marks x = some r := by rw [State.marks, hentry]; rfl
          rw [hmark] at hne
          exact absurd ⟨⟨_, hnull x hx r hmark, rfl⟩, r, stored, hentry, hne⟩ hsilent
    · rfl

/-- A store. -/
theorem memWriteData_moves {value : Option WordExpr} (hnull : m.s.NullMarked)
    (h : memWriteData m addr value ir = .ok m') : m.s.Moves (m.s.stored addr value ir) m'.s := by
  obtain ⟨u, hreads, ⟨⟨i, hinst⟩, hs, -⟩ | ⟨hinst, v, out, hv, -, hs⟩⟩ := memWriteData_writes h
  · have hstored : m.s.stored addr value ir = [] := by
      unfold State.stored
      rw [hinst]
    rw [hstored, hs]
    exact .of_same hnull hreads.memStoringUninitReg hreads.mem
  · have hstored : m.s.stored addr value ir =
        [.store addr (if value.isNone then some ir.sr else none)] := by
      unfold State.stored
      split
      · exact absurd ‹_› (hinst _)
      · rfl
    have hmarks : ∀ x, m'.s.marks x =
        if x = addr then (if value.isNone then some ir.sr else none) else m.s.marks x := by
      intro x
      rw [hs, ← State.marks_congr hreads.memStoringUninitReg]
      unfold State.marks
      change (v.memStoringUninitReg x).map Prod.fst = _
      rw [hv.memStoringUninitReg]
      unfold State.store
      dsimp only
      split
      · cases value <;> rfl
      · rfl
    rw [hstored]
    refine ⟨fun x _ => (hmarks x).trans (Deposit.replay_store _ _).symm, fun x hx r hr => ?_⟩
    have hmem : m'.s.mem = m.s.mem.store addr value := by
      rw [hs, ← hreads.mem]
      exact hv.mem
    rw [hmem, MemoryManager.read_store]
    rw [hmarks x] at hr
    split at hr
    · rename_i hxa
      subst hxa
      rw [if_pos ⟨rfl, hx⟩]
      cases value with
      | none => rfl
      | some e => cases hr
    · rename_i hne
      rw [if_neg fun h => hne h.1]
      exact hnull x hx r hr

/-- A load into a register. -/
theorem loadFrom_moves (hnull : m.s.NullMarked) (h : Executor.loadFrom ir m addr = .ok m') :
    m.s.Moves [.load addr (some ir.dr)] m'.s := by
  obtain ⟨⟨m₁, data⟩, hread, h⟩ := Except.bind_eq_ok_iff.1 h
  have hmoves := memReadData_moves hnull hread
  dsimp only at h
  split at h
  · cases h
    exact hmoves
  · cases h
    exact hmoves.congr rfl rfl rfl

theorem executeTRAP_moves {lv : IssueType → Option Level} {a : Assignment} (hid : ir.instID = .TRAP)
    (hnull : m.s.NullMarked) (h : executeTRAP m ir = .ok m') :
    m.s.Moves (m.s.accesses lv ir a) m'.s := by
  unfold State.accesses
  simp only [hid]
  unfold executeTRAP at h
  split at h
  · rename_i hhalt
    cases h
    rw [if_pos hhalt]
    exact .of_same hnull rfl rfl
  · rename_i hhalt
    rw [if_neg hhalt]
    rw [setRegWord_gpr, Except.ok_bind'] at h
    obtain ⟨⟨m₁, newPC⟩, hread, h⟩ := Except.bind_eq_ok_iff.1 h
    have hmoves := memReadData_moves (hnull.congr (by rfl) (by rfl)) hread
    dsimp only at h
    split at h
    · cases h
      exact hmoves.congr rfl rfl rfl
    · cases newPC with
      | none => cases h
      | some newPC =>
          obtain ⟨c, -, h⟩ := Except.bind_eq_ok_iff.1 h
          cases h
          exact hmoves.congr rfl rfl rfl

end Mach

namespace Executor

variable {ex : Executor} {m : Mach} {ir : InstValue} {t : State} {a : Assignment}

theorem Accesses.moves {addr : WordExpr} {access : Mach → Word → Except Abort Mach}
    (accs : State → Word → List (Access Word (Fin 8))) (hwf : ex.WF) (howns : ex.Owns m.s.constraints)
    (hnull : m.s.NullMarked)
    (haccess : ∀ {m m' : Mach} {c : Word}, m.s.NullMarked → access m c = .ok m' →
      m.s.Moves (accs m.s c) m'.s ∧ m'.s.constraints = m.s.constraints)
    (hcopy : ∀ {s u : State} (c : Word), s.Copy u → accs u c = accs s c)
    (h : Accesses ex m addr access t) (ha : t.constraints.Sat a) :
    m.s.Moves (accs m.s (addr.eval a)) t := by
  obtain ⟨u, c, pkg, m', hu, haddr, hrun⟩ := h
  have hreads := State.Reads.of_copy hu
  obtain ⟨hmoves, hconstraints⟩ := haccess (m := ⟨u, pkg⟩) (hnull.of_reads hreads) hrun
  rw [hconstraints] at ha
  rw [haddr hwf howns a ha, ← hcopy c hu]
  exact hmoves.congr hreads.memStoringUninitReg.symm rfl rfl

theorem loads_moves {addr : WordExpr} (hwf : ex.WF) (howns : ex.Owns m.s.constraints)
    (hnull : m.s.NullMarked) (h : Accesses ex m addr (loadFrom ir) t) (ha : t.constraints.Sat a) :
    m.s.Moves [.load (addr.eval a) (some ir.dr)] t := by
  refine h.moves (fun _ c => [.load c (some ir.dr)]) hwf howns hnull
    (fun hnull hrun => ⟨Mach.loadFrom_moves hnull hrun, ?_⟩) (fun _ _ => rfl) ha
  exact (Mach.loadFrom_effects Mach.closed_any (Mach.all_any _) hrun).same.constraints

theorem stores_moves {addr : WordExpr} {value : Option WordExpr} (hwf : ex.WF)
    (howns : ex.Owns m.s.constraints) (hnull : m.s.NullMarked)
    (h : Accesses ex m addr (fun m c => memWriteData m c value ir) t) (ha : t.constraints.Sat a) :
    m.s.Moves (m.s.stored (addr.eval a) value ir) t := by
  refine h.moves (fun s c => s.stored c value ir) hwf howns hnull
    (fun hnull hrun => ⟨Mach.memWriteData_moves hnull hrun, ?_⟩) (fun c hu => ?_) ha
  · obtain ⟨ev, hframe⟩ := Mach.memWriteData_frames Mach.closed_any (Mach.all_any _)
      (fun _ _ => trivial) hrun
    exact hframe.same.constraints
  · unfold State.stored
    rw [(State.Reads.of_copy hu).mem]

/-- What an instruction does to the entries. -/
theorem Executes.moves (hwf : ex.WF) (howns : ex.Owns m.s.constraints)
    (hlv : Leveled m.pkg.issueLevel) (hnormal : m.s.status = .normal) (hnull : m.s.NullMarked)
    (h : Executes ex m ir t) (ha : t.constraints.Sat a) :
    m.s.Moves (m.s.accesses m.pkg.issueLevel ir a) t := by
  by_cases haccess : ir.isAccess = false
  · have haccs : m.s.accesses m.pkg.issueLevel ir a = [] := by
      unfold InstValue.isAccess at haccess
      unfold State.accesses
      cases hid : ir.instID <;> simp_all
    have hstore : ir.isStore = false := by
      unfold InstValue.isAccess at haccess
      unfold InstValue.isStore
      cases hid : ir.instID <;> simp_all
    rw [haccs]
    exact .of_same hnull (h.keeps.entries haccess) (h.keeps.mem hstore)
  have haccess : ir.isAccess = true := by simpa using haccess
  cases h with
  | simple m' hsimple h =>
      unfold InstValue.isAccess at haccess
      unfold InstValue.isSimple at hsimple
      unfold executeSimple at h
      cases hid : ir.instID <;> simp only [hid, Bool.false_eq_true] at haccess hsimple h
      case LD =>
        have hmoves := Mach.loadFrom_moves hnull h
        unfold State.accesses
        simp only [hid]
        exact hmoves
      case ST =>
        have hmoves := Mach.memWriteData_moves hnull h
        unfold State.accesses
        simp only [hid]
        exact hmoves
      case TRAP => exact Mach.executeTRAP_moves hid hnull h
  | falls m₁ br cond u hid => simp [InstValue.isAccess, hid] at haccess
  | branches m₁ br cond u hid => simp [InstValue.isAccess, hid] at haccess
  | loads m₁ base _ hid hget h =>
      have hreads := (Mach.getReg_reads hget).1
      have hcs := (Mach.getReg_effects Mach.closed_any (Mach.all_any _) hget).1.same.constraints
      have hmoves := loads_moves hwf (by rw [hcs]; exact howns) (hnull.of_reads hreads) h ha
      unfold State.accesses
      simp only [hid]
      rw [base_eval hget a]
      exact hmoves.congr hreads.memStoringUninitReg.symm rfl rfl
  | stores m₁ base _ hid hget h =>
      have hreads := (Mach.getReg_reads hget).1
      have hcs := (Mach.getReg_effects Mach.closed_any (Mach.all_any _) hget).1.same.constraints
      have hmoves := stores_moves hwf (by rw [hcs]; exact howns) (hnull.of_reads hreads) h ha
      unfold State.accesses
      simp only [hid]
      rw [base_eval hget a]
      unfold State.stored at hmoves ⊢
      rw [hreads.mem] at hmoves
      exact hmoves.congr hreads.memStoringUninitReg.symm rfl rfl
  | stops m₁ mid hid hread hne =>
      have hbreaks : m.s.ReadBreaks m.pkg.issueLevel (m.s.pc + ir.imm9) := by
        obtain ⟨m₂, hread₂, -, -, hstatus⟩ := Mach.memReadData_spec hlv (m.s.pc + ir.imm9) ir
        cases hread.symm.trans hread₂
        by_contra hgoes
        exact hne (hstatus.2 ⟨hnormal, hgoes⟩)
      have hmoves := Mach.memReadData_moves hnull hread
      unfold State.accesses
      rcases hid with hid | hid
      · simp only [hid, if_pos hbreaks]
        exact hmoves
      · simp only [hid, if_pos hbreaks]
        exact hmoves
  | loadsIndirect m₁ mid _ hid hread hnormal₁ h =>
      obtain ⟨m₂, hread₂, hdata, -, hstatus⟩ := Mach.memReadData_spec hlv (m.s.pc + ir.imm9) ir
      have hmoves := Mach.memReadData_moves hnull hread
      have hmid := readMid_eval hread a
      cases hread.symm.trans hread₂
      have hmoves₂ := loads_moves hwf (by rw [hdata.constraints]; exact howns) hmoves.nullMarked h ha
      unfold State.accesses
      simp only [hid, if_neg (hstatus.1 hnormal₁).2]
      rw [show (m.s.lc3 a).mem (m.s.pc + ir.imm9) = _ from hmid]
      exact hmoves.trans hmoves₂
  | storesIndirect m₁ mid _ hid hread hnormal₁ h =>
      obtain ⟨m₂, hread₂, hdata, -, hstatus⟩ := Mach.memReadData_spec hlv (m.s.pc + ir.imm9) ir
      have hmoves := Mach.memReadData_moves hnull hread
      have hmid := readMid_eval hread a
      have hmem := (Mach.memReadData_same hread).1
      cases hread.symm.trans hread₂
      have hmoves₂ := stores_moves hwf (by rw [hdata.constraints]; exact howns) hmoves.nullMarked h ha
      unfold State.accesses
      simp only [hid, if_neg (hstatus.1 hnormal₁).2]
      rw [show (m.s.lc3 a).mem (m.s.pc + ir.imm9) = _ from hmid]
      unfold State.stored at hmoves₂ ⊢
      rw [hmem, hdata.reg] at hmoves₂
      exact hmoves.trans hmoves₂

/-- What a step does to the entries. -/
theorem step_moves {r : StepResult} (hwf : ex.WF) (howns : ex.Owns m.s.constraints)
    (hlv : Leveled m.pkg.issueLevel) (hnormal : m.s.status = .normal) (hnull : m.s.NullMarked)
    (h : ex.step m = .ok r) (ht : t ∈ r.states) (ha : t.constraints.Sat a) :
    m.s.Moves (match m.s.mem.read m.s.pc with
      | some (.inst ir) => { m.s with pc := m.s.pc + 1 }.accesses m.pkg.issueLevel ir a
      | _ => []) t := by
  cases mem_step h ht with
  | stopped hne => exact absurd hnormal hne
  | fails m' type note hfetch hraise _ =>
      have hreads := Mach.newStateIssue_reads hraise
      split
      · exact absurd ‹_› (hfetch _)
      · exact .of_same hnull hreads.memStoringUninitReg hreads.mem
  | executes ir _ hfetch _ h =>
      have hmoves := Executes.moves (m := m.fetched ir) hwf howns hlv hnormal
        (hnull.congr (by rfl) (by rfl)) h ha
      rw [hfetch]
      exact hmoves.congr rfl rfl rfl

end Executor

/-- The accesses of a path, for one input. -/
def State.accessesNext (lv : IssueType → Option Level) (s _t : State)
    (history : Assignment → List (Access Word (Fin 8))) (a : Assignment) :
    List (Access Word (Fin 8)) :=
  (match s.mem.read s.pc with
    | some (.inst ir) => { s with pc := s.pc + 1 }.accesses lv ir a
    | _ => []) ++ history a

namespace Mach

variable {m : Mach} {addr : Word} {r : Fin 8} {stored : InstValue}

/-- The issue about a value that came from an uninitialized register. -/
def warnUninitCell (m : Mach) (r : Fin 8) (stored ir : InstValue) : Except Abort Mach :=
  m.newStateIssue .warnUseUninitializedRegister ir
    ("Using value of: R" ++ toString r.val ++ "\n" ++
      "    Stored uninitialized reg value into memory at: " ++ stored.formattedContext ++ ".\n")

theorem memReadData_null (hread : m.s.mem.read addr = some (DataValue.alloc none))
    (hentry : m.s.memStoringUninitReg addr = some (r, stored)) (ir : InstValue)
    (dr : Option (Fin 8)) :
    memReadData m addr ir dr = if dr = some r then .ok (m, none) else do
      let m' ← m.warnUninitCell r stored ir
      return ({ m' with s := m'.s.forget addr }, some (.const 0)) := by
  unfold memReadData
  simp only [hread, warnOnRead, DataValue.alloc, MemValue.e, Bool.false_eq_true, if_false,
    pure_bind, hentry]
  rfl

end Mach

namespace Exploration

variable {fuel : Nat} {solver : Solver} {o : Options} {gold : Option Gold} {E₀ E : Exploration}

theorem Traced.uninit {s : State} {g : Assignment → List (Access Word (Fin 8))}
    (exact : solver.Exact) (hpkg : o.issuePackage.Configured) (hstart : E₀.Starts solver o gold)
    (h : Traced fuel (State.accessesNext o.issuePackage.issueLevel) E₀ (fun _ => []) E s g) :
    s.NullMarked ∧ ∀ a, s.constraints.Sat a → ∀ x ∉ deviceAddrs,
      s.marks x = replay (fun _ => none) (g a) x := by
  have hinv : E₀.Inv (fun _ => True) solver o :=
    hstart.inv closed_true exact fun _ _ _ _ _ => trivial
  refine (Traced.rule (I := fun s g => s.NullMarked ∧ ∀ a, s.constraints.Sat a →
    ∀ x ∉ deviceAddrs, s.marks x = replay (fun _ => none) (g a) x) closed_true hinv ?_ ?_ h).2.2
  · obtain ⟨fa, ex, s₀, -, hinit, -, -, -, -, -, -, -, -, hfrontier⟩ := hstart
    intro s hs
    rw [hfrontier] at hs
    obtain rfl := List.mem_singleton.1 hs
    obtain ⟨cs, rfl⟩ := Executor.createInitState_init hinit
    exact ⟨fun x _ r hr => (by cases hr), fun _ _ _ _ => rfl⟩
  · rintro E s g r t t' hinv hs ⟨hnull, hg⟩ hnormal hstep ht hcore -
    have hentries : t'.memStoringUninitReg = t.memStoringUninitReg :=
      State.core_congr State.memStoringUninitReg hcore fun _ => rfl
    have howns : E.session.ex.Owns s.constraints := hinv.owns hs
    have hlv : Leveled E.session.pkg.issueLevel := by
      rw [hinv.issueLevel]
      exact hpkg.leveled
    have hsplits := (Executor.step_spec (m := ⟨s, E.session.pkg⟩) Mach.closed_any hinv.wf howns
      (Mach.all_any _) hstep).splits
    have hmem : t.constraints.Sat ∈ r.states.map fun t => t.constraints.Sat :=
      List.mem_map_of_mem ht
    have hmoves : ∀ a, t.constraints.Sat a → s.Moves _ t' := fun a ha =>
      (Executor.step_moves (m := ⟨s, E.session.pkg⟩) hinv.wf howns hlv hnormal hnull hstep ht
        ha).congr rfl hentries (State.core_mem hcore)
    obtain ⟨a₀, ha₀⟩ := hsplits.inhabited _ hmem
    refine ⟨(hmoves a₀ ha₀).nullMarked, fun a ha x hx => ?_⟩
    rw [State.core_constraints hcore] at ha
    rw [(hmoves a ha).marks x hx, hinv.issueLevel, State.accessesNext, replay_append]
    exact replay_congr (hg a ((hsplits.covers a).2 ⟨_, hmem, ha⟩) x hx)

/-- Along every path, a cell has an entry for a register exactly when the last store there
stored that register uninitialized and it was not loaded since, except back into that
register. Loading such a cell raises the issue unless it goes back into the register, which
then is uninitialized again. -/
theorem reachable_uninit (exact : solver.Exact) (hpkg : o.issuePackage.Configured)
    (hstart : E₀.Starts solver o gold) (hreach : E₀.Reaches fuel E) :
    ∀ s ∈ E.frontier,
      (∃ g, Traced fuel (State.accessesNext o.issuePackage.issueLevel) E₀ (fun _ => []) E s g) ∧
      (∀ g, Traced fuel (State.accessesNext o.issuePackage.issueLevel) E₀ (fun _ => []) E s g →
        ∀ a, s.constraints.Sat a → ∀ x ∉ deviceAddrs, ∀ r,
          (∃ stored, s.memStoringUninitReg x = some (r, stored)) ↔ Pending (g a) x r) ∧
      ∀ x ∉ deviceAddrs, ∀ r stored, s.memStoringUninitReg x = some (r, stored) →
        ∀ (m : Mach) (ir : InstValue), m.s.mem = s.mem →
          m.s.memStoringUninitReg x = some (r, stored) →
          (∀ dr, dr ≠ some r → memReadData m x ir dr = (do
            let m' ← m.warnUninitCell r stored ir
            return ({ m' with s := m'.s.forget x }, some (.const 0)))) ∧
          memReadData m x ir (some r) = .ok (m, none) ∧
          (ir.dr = r → m.s.status = .normal → ∃ m', Executor.loadFrom ir m x = .ok m' ∧
            m'.s.reg r = none ∧ m'.pkg = m.pkg ∧ m'.s.issueLog = m.s.issueLog) := by
  intro s hs
  obtain ⟨g₀, htraced⟩ := hreach.traced hs
  refine ⟨⟨g₀, htraced⟩, fun g hg a ha x hx r => ?_, fun x hx r stored hentry m ir hmem hentry' => ?_⟩
  · have hmark := (hg.uninit exact hpkg hstart).2 a ha x hx
    rw [← Deposit.replay_eq_some_iff, ← hmark, State.marks]
    constructor
    · rintro ⟨stored, hentry⟩
      rw [hentry]
      rfl
    · intro h
      obtain ⟨⟨r', stored⟩, hentry, rfl⟩ := Option.map_eq_some_iff.1 h
      exact ⟨stored, hentry⟩
  · have hread : m.s.mem.read x = some (DataValue.alloc none) := by
      rw [hmem]
      refine (htraced.uninit exact hpkg hstart).1 x hx r ?_
      rw [State.marks, hentry]
      rfl
    have hnull := Mach.memReadData_null hread hentry' ir
    refine ⟨fun dr hdr => (hnull dr).trans (if_neg hdr), (hnull _).trans (if_pos rfl), ?_⟩
    rintro rfl hnormal
    refine ⟨⟨m.s.setRegAndCC ir.dr none ir, m.pkg⟩, ?_, ?_, rfl, rfl⟩
    · unfold Executor.loadFrom
      rw [hnull, if_pos rfl, Except.ok_bind']
      dsimp only
      rw [if_neg (not_not.2 hnormal)]
      rfl
    · simp [State.setRegAndCC, State.setReg, State.mark]

end Exploration

/-- A program that saves a register and restores it. -/
def Program.saving : Program where
  mem :=
    [(0x3000, .inst ⟨0x3000, 0x3201, ⟨.ST, .RL, 0xF000, 0x3000⟩, by decide, false, [],
        "saving.asm", 1, "ST R1, CELL"⟩),
     (0x3001, .inst ⟨0x3001, 0x2200, ⟨.LD, .RL, 0xF000, 0x2000⟩, by decide, false, [],
        "saving.asm", 2, "LD R1, CELL"⟩),
     (0x3002, .data ⟨some (.const 0), false, false⟩)]
  constraints := []
  initPC := 0x3000
  preferences := []

def Options.saving : Options :=
  { Options.sample with test := .saving }

/-- After the first step the cell holds the uninitialized register. -/
theorem saving_uninit : ∃ (E₀ E : Exploration) (s : State)
    (g : Assignment → List (Access Word (Fin 8))) (stored : InstValue),
    E₀.Starts Solver.ideal .saving none ∧ E₀.Reaches 0 E ∧ s ∈ E.frontier ∧
    Exploration.Traced 0 (State.accessesNext Options.saving.issuePackage.issueLevel) E₀
      (fun _ => []) E s g ∧
    s.memStoringUninitReg 0x3002 = some (1, stored) ∧ (∀ a, Pending (g a) 0x3002 1) ∧
    ∀ ir, memReadData ⟨s, E.session.pkg⟩ 0x3002 ir (some 1) = .ok (⟨s, E.session.pkg⟩, none) := by
  have hrun : ∃ l, Options.saving.start Solver.ideal none = .ok l ∧
      ∃ s₀, l.searcher.states = [s₀] ∧ ∃ S₁ l₁, l.session.advance 0 s₀ = .ok (some (S₁, l₁)) ∧
      ∃ s₁, l₁ = [s₁] ∧ s₁.constraints = [] ∧
      ∃ stored, s₁.memStoringUninitReg 0x3002 = some (1, stored) := by
    refine ⟨_, rfl, ?_⟩
    refine ⟨_, rfl, ?_⟩
    refine ⟨_, _, rfl, ?_⟩
    exact ⟨_, rfl, rfl, _, rfl⟩
  obtain ⟨l, hl, s₀, hs₀, S₁, l₁, hnext, s₁, rfl, hcs, stored, hentry⟩ := hrun
  obtain ⟨E₀, hstart, hsession, hfrontier⟩ := Options.start_explores rfl hl
  rw [hs₀, List.perm_singleton] at hfrontier
  rw [← hsession] at hnext
  have hreach : E₀.Reaches 0 ⟨S₁, [s₁]⟩ := .single ⟨[], s₀, [], [s₁], hfrontier, hnext, rfl⟩
  obtain ⟨⟨g, hg⟩, hpending, hloads⟩ := Exploration.reachable_uninit Solver.ideal_exact .empty
    hstart hreach s₁ (by simp)
  refine ⟨E₀, _, s₁, g, stored, hstart, hreach, by simp, hg, hentry, fun a => ?_, fun ir => ?_⟩
  · exact (hpending g hg a (by rw [hcs]; simp) 0x3002 (by decide) 1).1 ⟨stored, hentry⟩
  · exact (hloads 0x3002 (by decide) 1 stored hentry ⟨s₁, S₁.pkg⟩ ir rfl hentry).2.1

end Klc3
