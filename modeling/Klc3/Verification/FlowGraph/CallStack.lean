import Klc3.Verification.FlowGraph.Colors
import Klc3.Verification.MainLoop.Tracking

/-!
# The call stack of a state

The two stacks of a state are one machine that calls and returns move. The tracker
follows it, and colours the nodes on the way.
-/

namespace Klc3

/-! ## The machine -/

/-- `colorStack`, `jsrStack` and `stackHasMessedUp`, tops first. -/
structure CallStack where
  colors : List Word
  calls : List InstValue
  messedUp : Bool

def State.callStack (s : State) : CallStack :=
  ⟨s.colorStack, s.jsrStack, s.stackHasMessedUp⟩

def InstValue.isCall (i : InstValue) : Bool :=
  i.instID = .JSR ∨ i.instID = .JSRR

theorem InstValue.isRET_of_isCall {i : InstValue} (h : i.isCall = true) : i.isRET = false := by
  cases hid : i.instID <;> simp_all [isCall, isRET]

namespace CallStack

variable {k k' : CallStack} {executed : InstValue} {pc initPC : Word}

/-- A `RET` that the tracker finds improper. -/
def improper (k : CallStack) (executed : InstValue) (pc : Word) : Bool :=
  executed.isRET && !k.messedUp && decide (2 ≤ k.colors.length) &&
    k.calls.head?.any fun top => !SubroutineTracker.returnsProperly pc top

/-- What an executed instruction does to the stacks once the PC is at a node again. An
improper `RET` pushes the top colour a second time. -/
inductive Transfers (executed : InstValue) (pc : Word) : CallStack → CallStack → Prop
  | calls {cs : List Word} {js : List InstValue} {b : Bool} (hcall : executed.isCall = true) :
      Transfers executed pc ⟨cs, js, b⟩ ⟨pc :: cs, executed :: js, b⟩
  | returns {c color : Word} {cs : List Word} {top : InstValue} {js : List InstValue}
      (hret : executed.isRET = true) (hproper : SubroutineTracker.returnsProperly pc top = true) :
      Transfers executed pc ⟨c :: color :: cs, top :: js, false⟩ ⟨color :: cs, js, false⟩
  | improper {c color : Word} {cs : List Word} {top : InstValue} {js : List InstValue}
      (hret : executed.isRET = true)
      (himproper : SubroutineTracker.returnsProperly pc top = false) :
      Transfers executed pc ⟨c :: color :: cs, top :: js, false⟩
        ⟨c :: c :: color :: cs, top :: js, true⟩
  | ignored {c color : Word} {cs : List Word} {js : List InstValue}
      (hret : executed.isRET = true) :
      Transfers executed pc ⟨c :: color :: cs, js, true⟩ ⟨c :: color :: cs, js, true⟩
  | inMain {c : Word} {js : List InstValue} {b : Bool} (hret : executed.isRET = true) :
      Transfers executed pc ⟨[c], js, b⟩ ⟨[c], js, true⟩
  | other {same : CallStack} (hcall : executed.isCall = false) (hret : executed.isRET = false) :
      Transfers executed pc same same

/-- The stacks are nested calls from the main code: below every call lies the colour it
was made under. -/
structure Nested (initPC : Word) (colored : InstValue → Word → Prop) (k : CallStack) : Prop where
  length : k.colors.length = k.calls.length + 1
  bottom : k.colors.getLast? = some initPC
  calls : ∀ p ∈ k.calls.zip k.colors.tail, p.1.isCall = true ∧ colored p.1 p.2

variable {colored colored' : InstValue → Word → Prop}

theorem Nested.mono (h : k.Nested initPC colored)
    (hsub : ∀ i color, colored i color → colored' i color) : k.Nested initPC colored' :=
  ⟨h.length, h.bottom, fun p hp => ⟨(h.calls p hp).1, hsub _ _ (h.calls p hp).2⟩⟩

theorem Nested.head (h : k.Nested initPC colored) : ∃ color, k.colors.head? = some color := by
  have hlength := h.length
  match hcs : k.colors with
  | [] => simp [hcs] at hlength
  | color :: cs => exact ⟨color, rfl⟩

/-- Calls and returns keep the nesting, as long as a call is made from a node that has the
colour on top. -/
theorem Transfers.nested (h : Transfers executed pc k k') (hk : k.Nested initPC colored)
    (hcolored : executed.isCall = true → ∀ color ∈ k.colors.head?, colored executed color)
    (hmessed : k'.messedUp = false) : k'.Nested initPC colored := by
  cases h with
  | @calls cs js b hcall =>
      cases cs with
      | nil => exact absurd hk.length (by simp)
      | cons c cs =>
          refine ⟨by simpa using hk.length, hk.bottom, fun p hp => ?_⟩
          rcases List.mem_cons.1 hp with rfl | hp
          · exact ⟨hcall, hcolored hcall c rfl⟩
          · exact hk.calls p hp
  | returns =>
      refine ⟨by simpa using hk.length, hk.bottom, fun p hp => ?_⟩
      exact hk.calls p (List.mem_cons_of_mem _ hp)
  | improper => cases hmessed
  | ignored => cases hmessed
  | inMain => cases hmessed
  | other => exact hk

/-- A call pushes the address it goes to. -/
theorem Transfers.of_call (h : Transfers executed pc k k') (hcall : executed.isCall = true) :
    k'.colors.head? = some pc ∧ k'.messedUp = k.messedUp := by
  have hnot := InstValue.isRET_of_isCall hcall
  cases h with
  | calls => exact ⟨rfl, rfl⟩
  | returns hret _ => exact absurd (hnot.symm.trans hret) (by simp)
  | improper hret _ => exact absurd (hnot.symm.trans hret) (by simp)
  | ignored hret => exact absurd (hnot.symm.trans hret) (by simp)
  | inMain hret => exact absurd (hnot.symm.trans hret) (by simp)
  | other hno _ => exact absurd (hno.symm.trans hcall) (by simp)

/-- What is neither a call nor a `RET` leaves the stacks alone. -/
theorem Transfers.of_other (h : Transfers executed pc k k') (hcall : executed.isCall = false)
    (hret : executed.isRET = false) : k' = k := by
  cases h with
  | calls hyes => exact absurd (hcall.symm.trans hyes) (by simp)
  | returns hyes _ => exact absurd (hret.symm.trans hyes) (by simp)
  | improper hyes _ => exact absurd (hret.symm.trans hyes) (by simp)
  | ignored hyes => exact absurd (hret.symm.trans hyes) (by simp)
  | inMain hyes => exact absurd (hret.symm.trans hyes) (by simp)
  | other => rfl

/-- No transfer empties the stack of colours. -/
theorem Transfers.colors_ne_nil (h : Transfers executed pc k k') (hk : k.colors ≠ []) :
    k'.colors ≠ [] := by
  cases h with
  | other => exact hk
  | _ => simp

/-- The stacks grow by the same number, unless a `RET` is improper. -/
theorem Transfers.length (h : Transfers executed pc k k') {n : Nat}
    (hk : k.colors.length = k.calls.length + n) :
    k'.colors.length =
      k'.calls.length + n + if k.improper executed pc = true then 1 else 0 := by
  cases h with
  | calls hcall =>
      rw [if_neg (by simp [CallStack.improper, InstValue.isRET_of_isCall hcall])]
      simp only [List.length_cons] at hk ⊢
      omega
  | returns _ hproper =>
      rw [if_neg (by simp [CallStack.improper, hproper])]
      simp only [List.length_cons] at hk ⊢
      omega
  | improper hret himproper =>
      rw [if_pos (by simp [CallStack.improper, hret, himproper])]
      simp only [List.length_cons] at hk ⊢
      omega
  | ignored => simpa [CallStack.improper] using hk
  | inMain => simpa [CallStack.improper] using hk
  | other _ hret => simpa [CallStack.improper, hret] using hk

/-- The stacks stay as they are in a `RET` that is improper, or that comes after one, only
in the second case. -/
theorem Transfers.kept_iff (h : Transfers executed pc k k') (hret : executed.isRET = true)
    (hwrong : k.improper executed pc = true ∨ k.messedUp = true) :
    (k'.colors = k.colors ∧ k'.calls = k.calls) ↔ k.messedUp = true := by
  cases h with
  | calls hcall =>
      rw [InstValue.isRET_of_isCall hcall] at hret
      cases hret
  | returns _ hproper => simp [CallStack.improper, hproper] at hwrong
  | improper => simp
  | ignored => simp
  | inMain => simpa [CallStack.improper] using hwrong
  | other _ hnot =>
      rw [hnot] at hret
      cases hret

theorem Transfers.messedUp_of_improper (h : Transfers executed pc k k')
    (hwrong : k.improper executed pc = true) : k'.messedUp = true := by
  cases h with
  | calls hcall => simp [CallStack.improper, InstValue.isRET_of_isCall hcall] at hwrong
  | returns _ hproper => simp [CallStack.improper, hproper] at hwrong
  | other _ hret => simp [CallStack.improper, hret] at hwrong
  | _ => rfl

theorem Transfers.messedUp (h : Transfers executed pc k k') (hmessed : k'.messedUp = false) :
    k.messedUp = false := by
  cases h with
  | calls => exact hmessed
  | returns => rfl
  | other => exact hmessed
  | _ => cases hmessed

end CallStack

/-! ## The tracker follows the machine -/

namespace FlowAnalysis

variable {fa fa' fa'' : FlowAnalysis} {node color : Word}

/-- The graph has the nodes it had, they keep their colours, and no subroutine is
forgotten. -/
structure Paints (fa fa' : FlowAnalysis) : Prop where
  nodes : fa'.fg.nodes = fa.fg.nodes
  initPC : fa'.fg.initPC = fa.fg.initPC
  marks : fa.marks ⊆ fa'.marks
  knows : ∀ c, fa.Knows c → fa'.Knows c

theorem Paints.refl (fa : FlowAnalysis) : fa.Paints fa := ⟨rfl, rfl, subset_rfl, fun _ => id⟩

theorem Paints.trans (h : fa.Paints fa') (h' : fa'.Paints fa'') : fa.Paints fa'' :=
  ⟨h'.nodes.trans h.nodes, h'.initPC.trans h.initPC, h.marks.trans h'.marks,
    fun c hc => h'.knows c (h.knows c hc)⟩

theorem Paints.getNodeByAddr (h : fa.Paints fa') (addr : Word) :
    fa'.fg.getNodeByAddr addr = fa.fg.getNodeByAddr addr := by
  rw [FlowGraph.getNodeByAddr, h.nodes]
  rfl

theorem Paints.hasColor (h : fa.Paints fa') (hcolor : fa.hasColor node color = true) :
    fa'.hasColor node color = true :=
  mem_marks.1 (h.marks (mem_marks.2 hcolor))

theorem color_paints (h : fa.color node color = .ok fa') : fa.Paints fa' := by
  have hfg := color_fg h
  exact ⟨by rw [hfg], by rw [hfg], (color_spreads h).mono, fun _ => colorPath_knows h⟩

theorem setupInitState_paints {s : State} : fa.Paints (fa.setupInitState s).1 := by
  unfold setupInitState
  dsimp only
  split
  · refine ⟨by rw [insertColor_fg], by rw [insertColor_fg], ?_, fun c => (knows_insertColor _ _ _).2⟩
    rw [marks_insertColor]
    exact Set.subset_insert _ _
  · exact .refl fa

/-- Nothing happens at a node that has the colour. -/
theorem color_seen (h : fa.hasColor node color = true) : fa.color node color = .ok fa := by
  rw [FlowAnalysis.color, colorFuel, colorPath, if_pos h]
  rfl

theorem color_hasColor (h : fa.color node color = .ok fa') : fa'.hasColor node color = true :=
  (color_spreads h).starts (node, color) (List.mem_singleton.2 rfl)

theorem marks_congr (h : fa'.colors = fa.colors) : fa'.marks = fa.marks := by
  unfold marks hasColor
  rw [h]

/-- Entry and exit pairs are no matter of colours. -/
theorem setUpEntryExitPairs_spec {edge : Option Nat}
    (h : fa.setUpEntryExitPairs edge = .ok fa') : fa'.marks = fa.marks ∧ fa.Paints fa' := by
  have hextends := setUpEntryExitPairs_extends h
  have hspec : fa'.colors = fa.colors ∧ ∀ c, fa.Knows c → fa'.Knows c := by
    unfold setUpEntryExitPairs at h
    split at h
    · split at h
      · cases h
      · split at h
        · cases h
        · obtain ⟨retTo, -, h⟩ := Except.bind_eq_ok_iff.1 h
          cases retTo <;> cases h <;>
            exact ⟨rfl, fun c hc => (knows_setSubroutine _ _ _).2 (.inr hc)⟩
    · cases h
  have hmarks := marks_congr hspec.1
  exact ⟨hmarks, hextends.nodes, hextends.initPC, hmarks.symm.subset, hspec.2⟩

end FlowAnalysis

namespace SubroutineTracker

open FlowAnalysis (Paints)

variable {fa fa' : FlowAnalysis} {m m' : Mach} {s s' : State} {executed : InstValue}

/-- After a call its subroutine is known. -/
theorem updateOnCall_knows (h : updateOnCall fa s executed = .ok (fa', s')) :
    fa'.Knows s.pc ∧ ∀ c, fa.Knows c → fa'.Knows c := by
  unfold updateOnCall at h
  dsimp only at h
  split at h
  · obtain ⟨fa₁, hcolor, h⟩ := Except.bind_eq_ok_iff.1 h
    obtain ⟨fa₂, hset, h⟩ := Except.bind_eq_ok_iff.1 h
    cases h
    have hkeeps : ∀ c, (fa.enterSubroutine s.pc).Knows c → fa'.Knows c := fun c hc =>
      (FlowAnalysis.setUpEntryExitPairs_spec hset).2.knows c (FlowAnalysis.colorPath_knows hcolor hc)
    exact ⟨hkeeps _ ((FlowAnalysis.knows_enterSubroutine _ _).2 (.inl rfl)),
      fun c hc => hkeeps c ((FlowAnalysis.knows_enterSubroutine _ _).2 (.inr hc))⟩
  · rename_i hknown
    cases h
    exact ⟨by simpa [FlowAnalysis.Knows, Option.isSome_iff_ne_none] using hknown, fun _ => id⟩

/-- A call is coloured under the address it goes to, when the subroutine is new. -/
theorem updateOnCall_spreads (h : updateOnCall fa s executed = .ok (fa', s')) :
    Spreads fa.fg.colorNext fa.marks
      (if (fa.subroutines.lookup s.pc).isNone then [(s.pc, s.pc)] else []) fa'.marks := by
  unfold updateOnCall at h
  dsimp only at h
  split at h
  · rename_i hnew
    rw [if_pos hnew]
    obtain ⟨fa₁, hcolor, h⟩ := Except.bind_eq_ok_iff.1 h
    obtain ⟨fa₂, hset, h⟩ := Except.bind_eq_ok_iff.1 h
    cases h
    rw [(FlowAnalysis.setUpEntryExitPairs_spec hset).1,
      ← FlowAnalysis.marks_enterSubroutine fa s.pc, ← FlowAnalysis.enterSubroutine_fg fa s.pc]
    exact FlowAnalysis.color_spreads hcolor
  · rename_i hknown
    rw [if_neg hknown]
    cases h
    exact .nil _

theorem flagImproperRET_colors (fa : FlowAnalysis) (s : State) :
    (flagImproperRET fa s).colors = fa.colors ∧
      (flagImproperRET fa s).subroutines = fa.subroutines := by
  unfold flagImproperRET
  split <;> exact ⟨rfl, rfl⟩

/-- An issue leaves the stacks and the machine alone. -/
theorem newStateIssue_stacks {type : IssueType} {location : Option InstValue} {note : String}
    (h : m.newStateIssue type location note = .ok m') :
    m'.s.callStack = m.s.callStack ∧ m'.s.pc = m.s.pc := by
  obtain ⟨⟨trigger, hs⟩, -⟩ := Mach.newStateIssue_eq_ok h
  rw [hs]
  exact ⟨rfl, rfl⟩

theorem updateOnImproperRET_stacks {top : InstValue}
    (h : updateOnImproperRET fa m executed top = .ok (fa', m')) :
    m'.s.callStack =
      ⟨m.s.colorStack.head?.toList ++ m.s.colorStack, m.s.jsrStack, true⟩ ∧
    fa'.colors = fa.colors ∧ fa'.subroutines = fa.subroutines := by
  obtain ⟨m₁, hraise, h⟩ := Except.bind_eq_ok_iff.1 h
  cases h
  have hkeeps := (newStateIssue_stacks hraise).1
  simp only [State.callStack, CallStack.mk.injEq] at hkeeps
  refine ⟨?_, flagImproperRET_colors _ _⟩
  unfold State.callStack
  dsimp only
  rw [hkeeps.1, hkeeps.2.1]

theorem updateOnReturn_transfers (hret : executed.isRET = true) (hlen : 2 ≤ m.s.colorStack.length)
    (h : updateOnReturn fa m executed = .ok (fa', m')) :
    CallStack.Transfers executed m.s.pc m.s.callStack m'.s.callStack ∧
      fa'.colors = fa.colors ∧ fa'.subroutines = fa.subroutines := by
  obtain ⟨c, color, cs, hcs⟩ : ∃ c color cs, m.s.colorStack = c :: color :: cs := by
    match hcs : m.s.colorStack with
    | [] => simp [hcs] at hlen
    | [c] => simp [hcs] at hlen
    | c :: color :: cs => exact ⟨c, color, cs, rfl⟩
  unfold updateOnReturn at h
  unfold State.callStack
  split at h
  · rename_i hmessed
    cases h
    rw [hcs, hmessed]
    exact ⟨.ignored hret, rfl, rfl⟩
  · rename_i hmessed
    rw [Bool.not_eq_true] at hmessed
    split at h
    · cases h
    · rename_i top calls hjsr
      rw [hcs, hjsr, hmessed]
      split at h
      · rename_i hproper
        rw [hcs, List.tail_cons] at h
        dsimp only at h
        split at h
        · cases h
          dsimp only
          rw [hmessed]
          exact ⟨.returns hret hproper, rfl, rfl⟩
        · cases h
      · rename_i himproper
        obtain ⟨hkeeps, hcolors⟩ := updateOnImproperRET_stacks h
        rw [hcs, hjsr] at hkeeps
        simp only [State.callStack] at hkeeps
        rw [hkeeps]
        exact ⟨.improper hret (by simpa using himproper), hcolors⟩

theorem updateOnReturnInMain_transfers (hret : executed.isRET = true)
    (hlen : ¬ 2 ≤ m.s.colorStack.length)
    (h : updateOnReturnInMain fa m executed = .ok (fa', m')) :
    CallStack.Transfers executed m.s.pc m.s.callStack m'.s.callStack ∧
      fa'.colors = fa.colors ∧ fa'.subroutines = fa.subroutines := by
  unfold updateOnReturnInMain at h
  split at h
  · cases h
  · rename_i color rest hcs
    obtain rfl : rest = [] := by
      rw [hcs] at hlen
      cases rest with
      | nil => rfl
      | cons _ _ => simp at hlen
    dsimp only at h
    rw [Except.ite_bind_eq] at h
    obtain ⟨label, -, h⟩ := Except.bind_eq_ok_iff.1 h
    obtain ⟨m₁, hraise, h⟩ := Except.bind_eq_ok_iff.1 h
    cases h
    have hkeeps := (newStateIssue_stacks hraise).1
    simp only [State.callStack, CallStack.mk.injEq] at hkeeps
    refine ⟨?_, rfl, rfl⟩
    unfold State.callStack
    dsimp only
    rw [hkeeps.1, hkeeps.2.1, hcs]
    exact .inMain hret

/-- The tracker moves the stacks, and sets up a subroutine that is new. -/
theorem updateOnInst_transfers (h : updateOnInst fa m executed = .ok (fa', m')) :
    CallStack.Transfers executed m.s.pc m.s.callStack m'.s.callStack ∧
    Spreads fa.fg.colorNext fa.marks
      (if executed.isCall = true ∧ (fa.subroutines.lookup m.s.pc).isNone then [(m.s.pc, m.s.pc)]
        else []) fa'.marks ∧
    ∀ c, fa.Knows c → fa'.Knows c := by
  unfold updateOnInst at h
  split at h
  · rename_i hcall
    obtain ⟨⟨fa₁, s'⟩, hcolor, h⟩ := Except.bind_eq_ok_iff.1 h
    cases h
    have hspread := updateOnCall_spreads hcolor
    have hknows := (updateOnCall_knows hcolor).2
    rw [updateOnCall_eq_ok hcolor]
    have hisCall : executed.isCall = true := by simpa [InstValue.isCall] using hcall
    refine ⟨.calls hisCall, ?_, hknows⟩
    rw [if_congr (and_iff_right hisCall) rfl rfl]
    exact hspread
  · rename_i hcall
    have hisCall : executed.isCall = false := by simpa [InstValue.isCall] using hcall
    rw [if_neg (by simp [hisCall])]
    -- Without a call no node gets a colour here.
    suffices hkeeps : CallStack.Transfers executed m.s.pc m.s.callStack m'.s.callStack ∧
        fa'.colors = fa.colors ∧ fa'.subroutines = fa.subroutines by
      rw [FlowAnalysis.marks_congr hkeeps.2.1]
      refine ⟨hkeeps.1, .nil _, fun c hc => ?_⟩
      rw [FlowAnalysis.Knows, hkeeps.2.2]
      exact hc
    split at h
    · rename_i hret
      split at h
      · rename_i hlen
        exact updateOnReturn_transfers hret hlen h
      · rename_i hlen
        exact updateOnReturnInMain_transfers hret hlen h
    · rename_i hret
      cases h
      exact ⟨.other hisCall (by simpa using hret), rfl, rfl⟩

theorem updateOnInst_paints (h : updateOnInst fa m executed = .ok (fa', m')) : fa.Paints fa' := by
  have hextends := updateOnInst_extends h
  obtain ⟨-, hspread, hknows⟩ := updateOnInst_transfers h
  exact ⟨hextends.nodes, hextends.initPC, hspread.mono, hknows⟩

/-- The two ways of `updateColors`: nothing is done, or the stacks move and the top colour
is spread from the node at the PC. -/
theorem updateColors_eq_ok (h : updateColors fa m = .ok (fa', m')) :
    ((m.s.latestNonOSInst.1 = none ∨ fa.fg.getNodeByAddr m.s.pc = none) ∧ fa' = fa ∧ m' = m) ∨
    ∃ executed fa₁, m.s.latestNonOSInst.1 = some executed ∧
      (fa.fg.getNodeByAddr m.s.pc).isSome ∧ updateOnInst fa m executed = .ok (fa₁, m') ∧
      ((m'.s.stackHasMessedUp = true ∧ fa' = fa₁) ∨
        (m'.s.stackHasMessedUp = false ∧ ∃ color cs, m'.s.colorStack = color :: cs ∧
          fa₁.color m'.s.pc color = .ok fa')) := by
  unfold updateColors at h
  split at h
  · rename_i hnone
    cases h
    exact .inl ⟨.inl hnone, rfl, rfl⟩
  rename_i executed hexec
  split at h
  · rename_i hnode
    cases h
    exact .inl ⟨.inr (by simpa using hnode), rfl, rfl⟩
  rename_i hnode
  obtain ⟨⟨fa₁, m₁⟩, hinst, h⟩ := Except.bind_eq_ok_iff.1 h
  refine .inr ⟨executed, fa₁, hexec, by simpa [Option.isSome_iff_ne_none] using hnode, ?_⟩
  dsimp only at h
  split at h
  · rename_i hmessed
    cases h
    exact ⟨hinst, .inl ⟨hmessed, rfl⟩⟩
  · rename_i hmessed
    split at h
    · cases h
    · rename_i color cs hcs
      obtain ⟨fa₂, hcolor, h⟩ := Except.bind_eq_ok_iff.1 h
      cases h
      exact ⟨hinst, .inr ⟨by simpa using hmessed, color, cs, hcs, hcolor⟩⟩

theorem updateColors_paints (h : updateColors fa m = .ok (fa', m')) : fa.Paints fa' := by
  rcases updateColors_eq_ok h with ⟨-, rfl, -⟩ | ⟨executed, fa₁, -, -, hinst, h⟩
  · exact .refl fa'
  rcases h with ⟨-, rfl⟩ | ⟨-, color, cs, -, hcolor⟩
  · exact updateOnInst_paints hinst
  · exact (updateOnInst_paints hinst).trans (FlowAnalysis.color_paints hcolor)

/-! ## The assertions on the stacks -/

/-- The assertions that the stacks are not empty and that the colours agree. -/
def isStackAssert : Abort → Bool
  | .emptyStack | .colorInconsistent => true
  | _ => false

variable {err : Abort}

theorem newStateIssue_error {type : IssueType} {location : Option InstValue} {note : String}
    (h : m.newStateIssue type location note = .error err) : isStackAssert err = false := by
  match hlevel : m.pkg.issueLevel type with
  | some level =>
      obtain ⟨m', hok⟩ := Mach.newStateIssueWith_isOk location note none hlevel
      rw [Mach.newStateIssue, hok] at h
      cases h
  | none =>
      unfold Mach.newStateIssue Mach.newStateIssueWith IssuePackage.raiseIssue
        IssuePackage.getIssueLevel at h
      rw [hlevel] at h
      cases h
      rfl

theorem getRetToNode_error {fg : FlowGraph} {node : Word}
    (h : fg.getRetToNode node = .error err) : isStackAssert err = false := by
  unfold FlowGraph.getRetToNode at h
  split at h
  · cases h
    rfl
  · split at h <;> cases h

theorem colorPath_error {n : Nat} {node color : Word}
    (h : FlowAnalysis.colorPath n fa node color = .error err) : isStackAssert err = false := by
  induction n generalizing fa node color err with
  | zero => cases h
  | succ n ih =>
      unfold FlowAnalysis.colorPath at h
      split at h
      · cases h
      split at h
      · cases h
        rfl
      dsimp only at h
      split at h
      · rcases Except.bind_eq_error_iff.1 h with hfold | ⟨fa₁, -, h⟩
        · exact Except.foldlM_error (P := fun err => isStackAssert err = false)
            (fun _ _ _ hstep => ih hstep) hfold
        · rcases Except.bind_eq_error_iff.1 h with hretTo | ⟨retTo, -, h⟩
          · exact getRetToNode_error hretTo
          · cases retTo with
            | some next => exact ih h
            | none => cases h
      · split at h
        · split at h
          · split at h
            · cases h
              rfl
            · cases h
          · cases h
        · refine Except.foldlM_error (P := fun err => isStackAssert err = false)
            (fun acc e err hstep => ?_) h
          split at hstep
          · exact ih hstep
          · cases hstep

theorem setUpEntryExitPairs_error {edge : Option Nat}
    (h : fa.setUpEntryExitPairs edge = .error err) : isStackAssert err = false := by
  unfold FlowAnalysis.setUpEntryExitPairs at h
  split at h
  · split at h
    · cases h
      rfl
    · split at h
      · cases h
        rfl
      · rcases Except.bind_eq_error_iff.1 h with hretTo | ⟨retTo, -, h⟩
        · exact getRetToNode_error hretTo
        · cases retTo <;> cases h
  · cases h
    rfl

theorem updateOnCall_error (h : updateOnCall fa s executed = .error err) :
    isStackAssert err = false := by
  unfold updateOnCall at h
  dsimp only at h
  split at h
  · rcases Except.bind_eq_error_iff.1 h with hcolor | ⟨fa₁, -, h⟩
    · exact colorPath_error hcolor
    · rcases Except.bind_eq_error_iff.1 h with hset | ⟨fa₂, -, h⟩
      · exact setUpEntryExitPairs_error hset
      · cases h
  · cases h

/-- With nested stacks a `RET` passes the assertions. -/
theorem updateOnReturn_error {initPC : Word}
    (hnested : m.s.stackHasMessedUp = false →
      m.s.callStack.Nested initPC fun i color => fa.hasColor i.addr color = true)
    (hlen : 2 ≤ m.s.colorStack.length) (h : updateOnReturn fa m executed = .error err) :
    isStackAssert err = false := by
  unfold updateOnReturn at h
  split at h
  · cases h
  rename_i hmessed
  have hk := hnested (by simpa using hmessed)
  have hlength : m.s.colorStack.length = m.s.jsrStack.length + 1 := hk.length
  split at h
  · rename_i hjsr
    rw [hjsr, List.length_nil] at hlength
    omega
  rename_i top calls hjsr
  split at h
  · dsimp only at h
    split at h
    · rename_i htail
      have htail' := congrArg List.length htail
      rw [List.length_tail, List.length_nil] at htail'
      omega
    · rename_i color cs htail
      split at h
      · cases h
      · rename_i hcolor
        refine absurd (hk.calls (top, color) ?_).2 hcolor
        simp [State.callStack, hjsr, htail]
  · rcases Except.bind_eq_error_iff.1 h with hraise | ⟨m₁, -, h⟩
    · exact newStateIssue_error hraise
    · cases h

theorem updateOnReturnInMain_error (hcs : m.s.colorStack ≠ [])
    (h : updateOnReturnInMain fa m executed = .error err) : isStackAssert err = false := by
  unfold updateOnReturnInMain at h
  split at h
  · rename_i hnil
    exact absurd hnil hcs
  · dsimp only at h
    rw [Except.ite_bind_eq] at h
    rcases Except.bind_eq_error_iff.1 h with hlabel | ⟨label, -, h⟩
    · split at hlabel
      · unfold FlowAnalysis.getLabelByAddr at hlabel
        split at hlabel
        · cases hlabel
          rfl
        · split at hlabel <;> cases hlabel
      · cases hlabel
    · rcases Except.bind_eq_error_iff.1 h with hraise | ⟨m₁, -, h⟩
      · exact newStateIssue_error hraise
      · cases h

/-- The assertions of `updateColors` on the stacks hold in a state whose stacks are nested,
or messed up and not empty. -/
theorem updateColors_error {initPC : Word} (hcs : m.s.colorStack ≠ [])
    (hnested : m.s.stackHasMessedUp = false →
      m.s.callStack.Nested initPC fun i color => fa.hasColor i.addr color = true)
    (h : updateColors fa m = .error err) : isStackAssert err = false := by
  unfold updateColors at h
  split at h
  · cases h
  rename_i executed hexec
  split at h
  · cases h
  rcases Except.bind_eq_error_iff.1 h with hinst | ⟨⟨fa₁, m₁⟩, hinst, h⟩
  · unfold updateOnInst at hinst
    split at hinst
    · rcases Except.bind_eq_error_iff.1 hinst with hcall | ⟨⟨fa₁, s₁⟩, -, hdone⟩
      · exact updateOnCall_error hcall
      · cases hdone
    · split at hinst
      · split at hinst
        · rename_i hlen
          exact updateOnReturn_error hnested hlen hinst
        · exact updateOnReturnInMain_error hcs hinst
      · cases hinst
  · have hne := (updateOnInst_transfers hinst).1.colors_ne_nil hcs
    dsimp only at h
    split at h
    · cases h
    · split at h
      · rename_i hnil
        exact absurd hnil hne
      · rcases Except.bind_eq_error_iff.1 h with hcolor | ⟨fa₂, -, h⟩
        · exact colorPath_error hcolor
        · cases h

end SubroutineTracker

end Klc3
