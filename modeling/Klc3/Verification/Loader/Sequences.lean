import Klc3.Model.Scanner
import Klc3.Verification.Loader.Declarations

/-!
# The symbols of a load sequence

When all declarations find free cells, every symbol of a load sequence has cells of its own.
-/

namespace Klc3

namespace Lexer

variable {L : Lexer}

/-! ## Steps -/

/-- The steps of a pass: each token, and the lexer that comes to it. -/
def steps (L : Lexer) : List Token → List (Lexer × Token)
  | [] => []
  | token :: tokens =>
    (L, token) ::
      match L.act token with
      | .ok L' => steps L' tokens
      | .error _ => []

/-- What every step keeps holds before each step of a pass, and after the pass. -/
theorem steps_rule {I : Lexer → Prop} {tokens : List Token} (hL : I L)
    (hstep : ∀ p ∈ L.steps tokens, I p.1 → ∀ L', p.1.act p.2 = .ok L' → I L') :
    (∀ p ∈ L.steps tokens, I p.1) ∧ ∀ L', tokens.foldlM act L = .ok L' → I L' := by
  induction tokens generalizing L with
  | nil =>
    refine ⟨by simp [steps], fun L' h => ?_⟩
    cases h
    exact hL
  | cons token tokens ih =>
    unfold steps at hstep ⊢
    cases hact : L.act token with
    | error e =>
      refine ⟨?_, fun L' h => ?_⟩
      · intro p hp
        obtain rfl := List.mem_singleton.1 hp
        exact hL
      · rw [List.foldlM_cons, hact] at h
        cases h
    | ok K =>
      rw [hact] at hstep
      have hK : I K := hstep (L, token) List.mem_cons_self hL K hact
      obtain ⟨hsteps, hend⟩ := ih hK fun p hp => hstep p (List.mem_cons_of_mem _ hp)
      refine ⟨?_, fun L' h => ?_⟩
      · intro p hp
        rcases List.mem_cons.1 hp with rfl | hp
        · exact hL
        · exact hsteps p hp
      · rw [List.foldlM_cons, hact] at h
        exact hend L' h

/-- The symbol that a step declares has free cells. -/
def DeclaresFree (p : Lexer × Token) : Prop :=
  ∀ d, p.1.declaration p.2 = some d → ∀ addr ∈ d.cells, p.1.tables.mem addr = none

/-- Right after the step, the elements of the symbol that it declares are in its cells. -/
def TakesEffect (p : Lexer × Token) : Prop :=
  ∀ d, p.1.declaration p.2 = some d → ∀ L', p.1.act p.2 = .ok L' →
    ∃ info : SymbolInfo, info.NamedBy d.options ∧
      L'.tables.symbols = p.1.tables.symbols ++ [(info.name, info)] ∧
      info.cells = d.cells ∧ info.Placed d.options L'.tables.mem

end Lexer

/-! ## Cells of their own -/

namespace LoaderTables

variable {t t' : LoaderTables}

/-- No two symbols share a cell. -/
def SymbolsDisjoint (t : LoaderTables) : Prop :=
  t.symbols.Pairwise fun p q => p.2.cells.Disjoint q.2.cells

/-- Each symbol has cells of its own, and each of these has a value. -/
structure Separate (t : LoaderTables) : Prop where
  filled : ∀ p ∈ t.symbols, ∀ addr ∈ p.2.cells, (t.mem addr).isSome
  disjoint : t.SymbolsDisjoint

theorem Separate.of_nil (h : t.symbols = []) : t.Separate where
  filled := by simp [h]
  disjoint := by
    unfold SymbolsDisjoint
    rw [h]
    exact .nil

theorem Separate.retains (h : t.Separate) (hretains : t.Retains t') : t'.Separate where
  filled p hp addr haddr := by
    rw [hretains.symbols] at hp
    exact hretains.mem addr (h.filled p hp addr haddr)
  disjoint := by
    unfold SymbolsDisjoint
    rw [hretains.symbols]
    exact h.disjoint

theorem Separate.introduces (h : t.Separate) {info : SymbolInfo} {o : Lexer.DataOptions}
    (hinfo : t.Introduces t' info o) (hfree : ∀ addr ∈ info.cells, t.mem addr = none) :
    t'.Separate where
  filled p hp addr haddr := by
    rw [hinfo.symbols] at hp
    rcases List.mem_append.1 hp with hp | hp
    · exact hinfo.mem addr (h.filled p hp addr haddr)
    · obtain rfl := List.mem_singleton.1 hp
      exact hinfo.filled addr haddr
  disjoint := by
    unfold SymbolsDisjoint
    rw [hinfo.symbols]
    refine List.pairwise_append.2 ⟨h.disjoint, List.pairwise_singleton _ _, ?_⟩
    intro p hp q hq addr haddr hnew
    obtain rfl := List.mem_singleton.1 hq
    have hsome := h.filled p hp addr haddr
    rw [hfree addr hnew] at hsome
    cases hsome

end LoaderTables

/-! ## Files -/

namespace Lexer

variable {c : IssueCommands}

theorem declaration_first {L : Lexer} (hpass : L.curPass = 1) (token : Token) :
    L.declaration token = none := by
  cases token with
  | operands type text =>
    unfold declaration
    dsimp only
    unfold lineDeclaration
    rw [dataDeclaration_none (L := L.appendLineContent text) (by
      rw [show (L.appendLineContent text).curPass = 1 from hpass]
      decide), ite_self]
  | _ => rfl

/-- The first pass declares nothing. -/
theorem runPass_first {L L' : Lexer} {tokens : List Token} (hc : L.commands = c.commands)
    (h : L.runPass 1 tokens = .ok L') :
    L'.commands = c.commands ∧ L.tables.Retains L'.tables := by
  have hstart : (L.startPass 1).curPass = 1 ∧ (L.startPass 1).commands = c.commands ∧
      L.tables.Retains (L.startPass 1).tables := ⟨rfl, hc, .refl _⟩
  refine ((steps_rule (I := fun K => K.curPass = 1 ∧ K.commands = c.commands ∧
    L.tables.Retains K.tables) hstart ?_).2 L' h).2
  · rintro ⟨K, token⟩ - ⟨hpass, hK, hretains⟩ K' hact
    obtain ⟨hcommands, hdeclares⟩ := act_declares hK hact
    rw [declaration_first hpass] at hdeclares
    exact ⟨(act_grows hact).curPass.trans hpass, hcommands.trans hK, hretains.trans hdeclares⟩

end Lexer

/-- The steps of the second pass over a file. -/
def SourceFile.secondPass (c : IssueCommands) (t : LoaderTables) (f : SourceFile) :
    List (Lexer × Token) :=
  match (f.lexer c t).runPass 1 f.tokens with
  | .error _ => []
  | .ok L =>
    if L.checkFirstPass.errCount > 0 then [] else (L.checkFirstPass.startPass 2).steps f.tokens

/-- The steps of the second passes over files that are loaded one after another. -/
def SourceFile.secondPasses (c : IssueCommands) : LoaderTables → List SourceFile →
    List (Lexer × Token)
  | _, [] => []
  | t, f :: files =>
    f.secondPass c t ++
      match t.load c.commands f with
      | .ok (t', _) => secondPasses c t' files
      | .error _ => []

namespace LoaderTables

variable {c : IssueCommands} {t t' : LoaderTables}

theorem checkFirstPass_tables (L : Lexer) : L.checkFirstPass.tables = L.tables := by
  unfold Lexer.checkFirstPass
  repeat' split
  all_goals rfl

theorem pushProgram_retains (L : Lexer) : L.tables.Retains L.pushProgram.tables := by
  unfold Lexer.pushProgram
  split
  · exact .of_eq rfl rfl
  · exact .refl _

theorem reject_retains {L L' : Lexer} {collect accepted : Bool}
    (h : L.reject collect = .ok (L', accepted)) : L.tables.Retains L'.tables := by
  unfold Lexer.reject at h
  split at h
  · cases h
    exact pushProgram_retains L
  · cases h

/-- After its passes, loading a file declares nothing. -/
theorem load_retains {f : SourceFile} {accepted : Bool}
    (h : t.load c.commands f = .ok (t', accepted)) :
    ∃ L, (f.lexer c t).runPass 1 f.tokens = .ok L ∧
      (L.checkFirstPass.errCount > 0 ∧ L.tables.Retains t' ∨
        ¬L.checkFirstPass.errCount > 0 ∧
          ∃ L₂, L.checkFirstPass.runPass 2 f.tokens = .ok L₂ ∧ L₂.tables.Retains t') := by
  obtain ⟨⟨K, b⟩, hload, h⟩ := Except.bind_eq_ok_iff.1 h
  cases h
  obtain ⟨L, hfirst, hload⟩ := Except.bind_eq_ok_iff.1 hload
  refine ⟨L, hfirst, ?_⟩
  dsimp only at hload
  split at hload
  · rename_i herr
    have hretains := reject_retains hload
    rw [checkFirstPass_tables] at hretains
    exact .inl ⟨herr, hretains⟩
  · rename_i herr
    obtain ⟨L₂, hsecond, hload⟩ := Except.bind_eq_ok_iff.1 hload
    refine .inr ⟨herr, L₂, hsecond, ?_⟩
    split at hload
    · exact reject_retains hload
    · cases hload
      have hpc : L₂.tables.Retains { L₂.tables with initPC := L₂.fileStartAddr } := .of_eq rfl rfl
      exact hpc.trans (pushProgram_retains
        { L₂ with tables := { L₂.tables with initPC := L₂.fileStartAddr } })

section

variable {I : LoaderTables → Prop} (hretain : ∀ {t t' : LoaderTables}, t.Retains t' → I t → I t')
include hretain

/-- What the steps of the second pass keep, when it depends on symbols and free cells only. -/
theorem load_rule {f : SourceFile} (ht : I t)
    (hstep : ∀ p ∈ f.secondPass c t, p.1.commands = c.commands → I p.1.tables →
      ∀ L', p.1.act p.2 = .ok L' → I L'.tables) :
    (∀ p ∈ f.secondPass c t, p.1.commands = c.commands ∧ I p.1.tables) ∧
      ∀ t' accepted, t.load c.commands f = .ok (t', accepted) → I t' := by
  unfold SourceFile.secondPass at *
  cases hfirst : (f.lexer c t).runPass 1 f.tokens with
  | error e =>
    refine ⟨by simp, fun t' accepted h => ?_⟩
    obtain ⟨L, hpass, -⟩ := load_retains h
    cases hfirst.symm.trans hpass
  | ok L =>
    rw [hfirst] at hstep
    dsimp only at hstep ⊢
    obtain ⟨hc, hL⟩ := Lexer.runPass_first rfl hfirst
    replace hL : I L.tables := hretain hL ht
    by_cases herr : L.checkFirstPass.errCount > 0
    · rw [if_pos herr]
      refine ⟨by simp, fun t' accepted h => ?_⟩
      obtain ⟨K, hpass, ⟨-, hretains⟩ | ⟨hnone, -⟩⟩ := load_retains h
      · cases hfirst.symm.trans hpass
        exact hretain hretains hL
      · cases hfirst.symm.trans hpass
        exact absurd herr hnone
    · rw [if_neg herr] at hstep ⊢
      have hstart : (L.checkFirstPass.startPass 2).commands = c.commands ∧
          I (L.checkFirstPass.startPass 2).tables := by
        refine ⟨(congrArg Lexer.Settings.commands (Lexer.checkFirstPass_settings L)).trans hc, ?_⟩
        have htables : (L.checkFirstPass.startPass 2).tables = L.tables := checkFirstPass_tables L
        rw [htables]
        exact hL
      obtain ⟨hsteps, hend⟩ := Lexer.steps_rule
        (I := fun K => K.commands = c.commands ∧ I K.tables) hstart
        fun p hp hI L' hact =>
          ⟨(Lexer.act_declares hI.1 hact).1.trans hI.1, hstep p hp hI.1 hI.2 L' hact⟩
      refine ⟨hsteps, fun t' accepted h => ?_⟩
      obtain ⟨K, hpass, ⟨hsome, -⟩ | ⟨-, L₂, hsecond, hretains⟩⟩ := load_retains h
      · cases hfirst.symm.trans hpass
        exact absurd hsome herr
      · cases hfirst.symm.trans hpass
        exact hretain hretains (hend L₂ hsecond).2

/-- The same for files that are loaded one after another. -/
theorem loadAll_rule {files : List SourceFile} (ht : I t)
    (hstep : ∀ p ∈ SourceFile.secondPasses c t files, p.1.commands = c.commands →
      I p.1.tables → ∀ L', p.1.act p.2 = .ok L' → I L'.tables) :
    (∀ p ∈ SourceFile.secondPasses c t files, p.1.commands = c.commands ∧ I p.1.tables) ∧
      ∀ t', t.loadAll c.commands files = .ok t' → I t' := by
  induction files generalizing t with
  | nil =>
    refine ⟨by simp [SourceFile.secondPasses], fun t' h => ?_⟩
    cases h
    exact ht
  | cons f files ih =>
    unfold SourceFile.secondPasses at hstep ⊢
    obtain ⟨hfile, hrest⟩ := List.forall_mem_append.1 hstep
    obtain ⟨hsteps, hend⟩ := load_rule hretain ht hfile
    cases hload : t.load c.commands f with
    | error e =>
      refine ⟨?_, fun t' h => ?_⟩
      · simpa using hsteps
      · obtain ⟨u, hfold, h⟩ := Except.bind_eq_ok_iff.1 h
        obtain ⟨⟨u, b⟩, hok, hfold⟩ := Except.bind_eq_ok_iff.1 hfold
        cases hload.symm.trans hok
    | ok q =>
      obtain ⟨u, b⟩ := q
      rw [hload] at hrest
      obtain ⟨hlater, hlast⟩ := ih (hend u b hload) hrest
      refine ⟨List.forall_mem_append.2 ⟨hsteps, hlater⟩, fun t' h => ?_⟩
      obtain ⟨v, hfold, h⟩ := Except.bind_eq_ok_iff.1 h
      obtain ⟨⟨v, b'⟩, hok, hfold⟩ := Except.bind_eq_ok_iff.1 hfold
      cases hfold
      cases hload.symm.trans hok
      exact hlast t' h

end

/-- A step that declares a symbol with free cells keeps the symbols apart. -/
theorem Separate.act {L L' : Lexer} {token : Token} (h : L.tables.Separate)
    (hc : L.commands = c.commands) (hfree : Lexer.DeclaresFree (L, token))
    (hact : L.act token = .ok L') : L'.tables.Separate := by
  obtain ⟨-, hdeclares⟩ := Lexer.act_declares hc hact
  unfold Lexer.DeclaresFree at hfree
  cases hd : L.declaration token with
  | none =>
    rw [hd] at hdeclares
    exact h.retains hdeclares
  | some d =>
    rw [hd] at hdeclares
    obtain ⟨info, hcells, hinfo⟩ := hdeclares
    exact h.introduces hinfo fun addr haddr => hfree d hd addr (hcells ▸ haddr)

end LoaderTables

/-- A step that returns puts its symbol where the memory was free. -/
theorem Lexer.takesEffect_iff {c : IssueCommands} {L L' : Lexer} {token : Token}
    (hc : L.commands = c.commands) (hact : L.act token = .ok L') :
    TakesEffect (L, token) ↔ DeclaresFree (L, token) := by
  obtain ⟨-, hdeclares⟩ := act_declares hc hact
  unfold TakesEffect DeclaresFree
  dsimp only
  cases hd : L.declaration token with
  | none => simp
  | some d =>
    rw [hd] at hdeclares
    obtain ⟨info, hcells, hinfo⟩ := hdeclares
    constructor
    · intro heffect d' hd'
      obtain rfl := Option.some.inj hd'
      obtain ⟨info', -, hsymbols, -, hplaced⟩ := heffect d rfl L' hact
      have hlast := List.append_cancel_left (hinfo.symbols.symm.trans hsymbols)
      obtain rfl : info = info' := (Prod.mk.inj (List.singleton_inj.1 hlast)).2
      rw [← hcells]
      exact hinfo.placed.1 hplaced
    · intro hfree d' hd' K hK
      obtain rfl := Option.some.inj hd'
      obtain rfl : L' = K := Except.ok.inj (hact.symm.trans hK)
      exact ⟨info, hinfo.named, hinfo.symbols, hcells, hinfo.placed.2 fun addr haddr =>
        hfree d rfl addr (hcells ▸ haddr)⟩

/-- A declaration takes effect exactly when its cells are free, and in a load sequence whose
declarations all find free cells no two symbols share a cell. -/
theorem declarations_take_effect_iff (c : IssueCommands) {t : LoaderTables}
    (ht : t.symbols = []) (files : List SourceFile) :
    (∀ p ∈ SourceFile.secondPasses c t files, (∃ L', p.1.act p.2 = .ok L') →
      (Lexer.TakesEffect p ↔ Lexer.DeclaresFree p)) ∧
    ((∀ p ∈ SourceFile.secondPasses c t files, Lexer.DeclaresFree p) →
      (∀ p ∈ SourceFile.secondPasses c t files, ∀ L', p.1.act p.2 = .ok L' →
        L'.tables.SymbolsDisjoint) ∧
      ∀ t', t.loadAll c.commands files = .ok t' → t'.SymbolsDisjoint) := by
  constructor
  · intro p hp hact
    have hcommands : ∀ p ∈ SourceFile.secondPasses c t files,
        p.1.commands = c.commands ∧ True :=
      (LoaderTables.loadAll_rule (c := c) (I := fun _ => True) (fun _ _ => trivial) trivial
        fun _ _ _ _ _ _ => trivial).1
    obtain ⟨L', hact⟩ := hact
    exact Lexer.takesEffect_iff (hcommands p hp).1 hact
  · intro hfree
    have hstep : ∀ p ∈ SourceFile.secondPasses c t files, p.1.commands = c.commands →
        p.1.tables.Separate → ∀ L', p.1.act p.2 = .ok L' → L'.tables.Separate :=
      fun p hp hc hseparate L' hact => hseparate.act hc (hfree p hp) hact
    obtain ⟨hsteps, hend⟩ := LoaderTables.loadAll_rule
      (fun hretains hseparate => hseparate.retains hretains) (.of_nil ht) hstep
    refine ⟨fun p hp L' hact => ?_, fun t' h => (hend t' h).disjoint⟩
    exact (hstep p hp (hsteps p hp).1 (hsteps p hp).2 L' hact).disjoint

/-! ## A symbol at concrete data -/

namespace ConcreteCell

def dataFile : SourceFile where
  filename := "data.asm"
  isLC3OS := false
  allowInputFile := false
  collectCompileIssues := false
  ignoreKLC3Extension := false
  tokens := scanFile ".ORIG x3000\n.FILL #5\n.END\n".toList

/-- An input file with one symbolic cell. -/
def inputFile (name : Text) : SourceFile where
  filename := "input.asm"
  isLC3OS := false
  allowInputFile := true
  collectCompileIssues := false
  ignoreKLC3Extension := false
  tokens := scanFile (".ORIG x3000\n; KLC3: INPUT_FILE\n.FILL #0 ; KLC3: SYMBOLIC as ".toList ++
    name ++ "\n.END\n".toList)

/-- An input file with two symbols, behind the data. -/
def symbolsFile : SourceFile where
  filename := "symbols.asm"
  isLC3OS := false
  allowInputFile := true
  collectCompileIssues := false
  ignoreKLC3Extension := false
  tokens := scanFile (".ORIG x3001\n; KLC3: INPUT_FILE\n.FILL #0 ; KLC3: SYMBOLIC as A\n".toList ++
    ".BLKW #2 ; KLC3: SYMBOLIC as B[2] READ_ONLY\n.END\n".toList)

/-- The second of two symbols takes effect, and they share no cell. -/
theorem two_symbols_disjoint :
    (∃ p ∈ SourceFile.secondPasses issueCommands Lexer.emptyTables [dataFile, symbolsFile],
      ∃ d L', p.1.declaration p.2 = some d ∧ d.cells = [0x3002, 0x3003] ∧
        d.options = ⟨true, false, [], "B[2]".toList⟩ ∧ p.1.act p.2 = .ok L' ∧
        Lexer.TakesEffect p) ∧
    ∃ t', Lexer.emptyTables.loadAll issueCommands.commands [dataFile, symbolsFile] = .ok t' ∧
      t'.symbols.map Prod.fst = [['A'], ['B']] ∧ t'.SymbolsDisjoint := by
  have hall : (SourceFile.secondPasses issueCommands Lexer.emptyTables
      [dataFile, symbolsFile]).all (fun p => (p.1.declaration p.2).all fun d =>
        d.cells.all fun addr => (p.1.tables.mem addr).isNone) = true := by decide +kernel
  have hfree : ∀ p ∈ SourceFile.secondPasses issueCommands Lexer.emptyTables
      [dataFile, symbolsFile], Lexer.DeclaresFree p := by
    intro p hp d hd addr haddr
    have hcells := List.all_eq_true.1 hall p hp
    rw [hd] at hcells
    exact Option.isNone_iff_eq_none.1 (List.all_eq_true.1 hcells addr haddr)
  have hiff := declarations_take_effect_iff issueCommands (t := Lexer.emptyTables) rfl
    [dataFile, symbolsFile]
  constructor
  · obtain ⟨p, hp, d, L', hd, hcells, hoptions, hact⟩ :
        ∃ p ∈ SourceFile.secondPasses issueCommands Lexer.emptyTables [dataFile, symbolsFile],
          ∃ d L', p.1.declaration p.2 = some d ∧ d.cells = [0x3002, 0x3003] ∧
            d.options = ⟨true, false, [], "B[2]".toList⟩ ∧ p.1.act p.2 = .ok L' :=
      ⟨_, List.mem_of_getElem? (i := 12) rfl, _, _, rfl, rfl, rfl, rfl⟩
    exact ⟨p, hp, d, L', hd, hcells, hoptions, hact, (hiff.1 p hp ⟨L', hact⟩).2 (hfree p hp)⟩
  · obtain ⟨t', hload, hnames⟩ : ∃ t', Lexer.emptyTables.loadAll issueCommands.commands
        [dataFile, symbolsFile] = .ok t' ∧ t'.symbols.map Prod.fst = [['A'], ['B']] :=
      ⟨_, rfl, rfl⟩
    exact ⟨t', hload, hnames, (hiff.2 hfree).2 t' hload⟩

/-- Two symbols at the address of concrete data: neither takes effect, and they share it. -/
theorem concrete_cell_stays :
    (∃ p ∈ SourceFile.secondPasses issueCommands Lexer.emptyTables [dataFile, inputFile ['A']],
      (∃ L', p.1.act p.2 = .ok L') ∧ ¬Lexer.TakesEffect p) ∧
    ∃ t', Lexer.emptyTables.loadAll issueCommands.commands
        [dataFile, inputFile ['A'], inputFile ['B']] = .ok t' ∧
      t'.mem 0x3000 = some (.data ⟨some (.const 5), false, false⟩) ∧ ¬t'.SymbolsDisjoint := by
  constructor
  · refine ⟨_, List.mem_of_getElem? (i := 10) rfl, ⟨_, rfl⟩, fun heffect => ?_⟩
    have hfree := (Lexer.takesEffect_iff (c := issueCommands) rfl rfl).1 heffect
    cases hfree _ rfl 0x3000 List.mem_cons_self
  · refine ⟨_, rfl, rfl, fun hdisjoint => ?_⟩
    have hshared := (List.pairwise_cons.1 hdisjoint).1 _ List.mem_cons_self
    exact hshared List.mem_cons_self List.mem_cons_self

end ConcreteCell

end Klc3
