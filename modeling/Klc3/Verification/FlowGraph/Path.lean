import Klc3.Model.Path
import Klc3.Verification.FlowGraph.Edges
import Mathlib.Data.List.Chain

/-!
# Compressed paths

A compressed path keeps enough edges for the full path to come back, since an edge is left
out only where there is no other way to go.
-/

namespace Klc3

namespace FlowGraph

variable {fg : FlowGraph} {node : Word} {e : Nat}

theorem isOutEdge_iff :
    fg.isOutEdge node e = true ↔ ∃ edge, fg.edges[e]? = some edge ∧ edge.src = some node := by
  cases hget : fg.edges[e]? <;> simp [isOutEdge, hget]

/-- The node that `e` leads to is the one that `f` leaves. -/
def Joins (fg : FlowGraph) (e f : Nat) : Prop :=
  ∃ node, fg.edgeTo e = some node ∧ fg.isOutEdge node f = true

/-- A runtime edge of the graph. -/
def IsRuntime (fg : FlowGraph) (e : Nat) : Prop :=
  ∃ edge, fg.edges[e]? = some edge ∧ edge.type.isRuntime = true

/-- A walk along runtime edges. -/
structure Walk (fg : FlowGraph) (p : List Nat) : Prop where
  nonempty : p ≠ []
  runtime : ∀ e ∈ p, fg.IsRuntime e
  joins : p.IsChain fg.Joins

/-- A node has no other runtime edge than its unique one. -/
theorem eq_of_uniqueRuntimeOutEdge {f : Nat} (hunique : fg.uniqueRuntimeOutEdge node = some e)
    (hrun : fg.IsRuntime f) (hout : fg.isOutEdge node f = true) : f = e := by
  obtain ⟨edge, hget, htype⟩ := hrun
  obtain ⟨edge', hget', hsrc⟩ := isOutEdge_iff.1 hout
  have hedge : edge' = edge := Option.some.inj (hget'.symm.trans hget)
  have hmem : (f, edge) ∈ fg.runtimeOutEdges node :=
    mem_runtimeOutEdges.2 ⟨hget, htype, hedge ▸ hsrc⟩
  unfold uniqueRuntimeOutEdge at hunique
  split at hunique
  · rename_i e' heq
    rw [heq, List.mem_singleton] at hmem
    rw [← Option.some.inj hunique, ← hmem]
  · cases hunique

/-- A runtime edge that does not guide is the unique one of its node. -/
theorem uniqueRuntimeOutEdge_of_not_guiding {edge : Edge} (hget : fg.edges[e]? = some edge)
    (htype : edge.type.isRuntime = true) (hsrc : edge.src = some node)
    (hguiding : CoverageTracker.isGuidingEdge fg edge = .ok false) :
    fg.uniqueRuntimeOutEdge node = some e := by
  have hmem : (e, edge) ∈ fg.runtimeOutEdges node := mem_runtimeOutEdges.2 ⟨hget, htype, hsrc⟩
  simp only [CoverageTracker.isGuidingEdge, htype, if_true, hsrc] at hguiding
  split at hguiding
  · rename_i hlength
    obtain ⟨e', heq⟩ := List.length_eq_one_iff.1 (beq_iff_eq.1 hlength)
    rw [heq, List.mem_singleton] at hmem
    simp [uniqueRuntimeOutEdge, heq, ← hmem]
  · cases hguiding

/-- Of every edge that leaves a node it is known whether it guides. -/
theorem exists_isGuidingEdge {edge : Edge} (hsrc : edge.src = some node) :
    ∃ b, CoverageTracker.isGuidingEdge fg edge = .ok b := by
  simp only [CoverageTracker.isGuidingEdge, hsrc]
  split
  · split
    · split <;> exact ⟨_, rfl⟩
    · exact ⟨_, rfl⟩
  · exact ⟨_, rfl⟩

end FlowGraph

namespace Path

open FlowGraph

/-- The edges `it` determine the path `rest` from the current node. -/
inductive Compresses (fg : FlowGraph) : Option Word → List Nat → List Nat → Prop
  | nil {cur : Option Word} : Compresses fg cur [] []
  | keep {node : Word} {e : Nat} {it rest : List Nat} : fg.isOutEdge node e = true →
      Compresses fg (fg.edgeTo e) it rest → Compresses fg (some node) (e :: it) (e :: rest)
  | skip {node : Word} {e x : Nat} {it rest : List Nat} : fg.isOutEdge node x = false →
      fg.uniqueRuntimeOutEdge node = some e → Compresses fg (fg.edgeTo e) (x :: it) rest →
      Compresses fg (some node) (x :: it) (e :: rest)

variable {fg : FlowGraph} {node : Word} {cur : Option Word} {front back e x : Nat}
  {it rest es p : List Nat}

/-! ## What is kept -/

theorem exists_keeps (front back : Nat) (hout : fg.isOutEdge node e = true) :
    ∃ b, keeps fg front back e = .ok b := by
  obtain ⟨edge, hget, hsrc⟩ := isOutEdge_iff.1 hout
  unfold keeps
  split
  · exact ⟨true, rfl⟩
  · simp only [hget]
    exact exists_isGuidingEdge hsrc

theorem keeps_front : keeps fg front back front = .ok true := by
  simp [keeps, pure, Except.pure]

theorem keeps_back : keeps fg front back back = .ok true := by
  simp [keeps, pure, Except.pure]

/-- An edge that is left out is the only way to go on. -/
theorem uniqueRuntimeOutEdge_of_not_keeps (hrun : fg.IsRuntime e)
    (hout : fg.isOutEdge node e = true) (hkeeps : keeps fg front back e = .ok false) :
    fg.uniqueRuntimeOutEdge node = some e := by
  obtain ⟨edge, hget, htype⟩ := hrun
  obtain ⟨edge', hget', hsrc⟩ := isOutEdge_iff.1 hout
  have hedge : edge' = edge := Option.some.inj (hget'.symm.trans hget)
  unfold keeps at hkeeps
  split at hkeeps
  · cases hkeeps
  · simp only [hget] at hkeeps
    exact uniqueRuntimeOutEdge_of_not_guiding hget htype (hedge ▸ hsrc) hkeeps

theorem compressFrom_cons {b : Bool} (hkeeps : keeps fg front back e = .ok b)
    (hrest : compressFrom fg front back es = .ok it) :
    compressFrom fg front back (e :: es) = .ok (if b then e :: it else it) := by
  rw [compressFrom, hkeeps, hrest]
  rfl

theorem mem_compressFrom (h : compressFrom fg front back es = .ok it) :
    x ∈ it ↔ x ∈ es ∧ keeps fg front back x = .ok true := by
  induction es generalizing it with
  | nil =>
      cases h
      simp
  | cons e es ih =>
      obtain ⟨keep, hkeeps, h⟩ := Except.bind_eq_ok_iff.1 h
      obtain ⟨it', hrest, h⟩ := Except.bind_eq_ok_iff.1 h
      cases h
      by_cases hx : x = e
      · subst hx
        cases keep with
        | true => simp [hkeeps]
        | false => simp [ih hrest, hkeeps]
      · cases keep with
        | true => simp [ih hrest, hx]
        | false => simp [ih hrest, hx]

/-! ## The way back -/

theorem reconstructNext_keep (res : List Nat) (hout : fg.isOutEdge node e = true) :
    reconstructNext fg ⟨res, some node, e :: it⟩ = .ok (some ⟨res ++ [e], fg.edgeTo e, it⟩) := by
  simp only [reconstructNext, hout, if_true]
  rfl

theorem reconstructNext_skip (res : List Nat) (hout : fg.isOutEdge node x = false)
    (hunique : fg.uniqueRuntimeOutEdge node = some e) :
    reconstructNext fg ⟨res, some node, x :: it⟩ =
      .ok (some ⟨res ++ [e], fg.edgeTo e, x :: it⟩) := by
  simp only [reconstructNext, hout, hunique]
  rfl

/-- The path that the kept edges determine is found. -/
theorem Compresses.run (h : Compresses fg cur it rest) (res : List Nat) {fuel : Nat}
    (hfuel : rest.length < fuel) :
    ∃ r, Loop.run (reconstructNext fg) fuel ⟨res, cur, it⟩ = .ok (some r) ∧ r.res = res ++ rest := by
  obtain ⟨n, rfl⟩ := Nat.exists_eq_succ_of_ne_zero (Nat.ne_zero_of_lt hfuel)
  induction h generalizing res n with
  | nil => exact ⟨⟨res, _, []⟩, rfl, by simp⟩
  | @keep node e it rest hout _ ih =>
      obtain ⟨m, rfl⟩ := Nat.exists_eq_succ_of_ne_zero
        (Nat.ne_zero_of_lt (Nat.lt_of_succ_lt_succ hfuel))
      obtain ⟨r, hrun, hres⟩ := ih (res ++ [e]) m (Nat.lt_of_succ_lt_succ hfuel)
      refine ⟨r, ?_, by simp [hres]⟩
      rw [Loop.run_succ (reconstructNext_keep res hout)]
      exact hrun
  | @skip node e x it rest hout hunique _ ih =>
      obtain ⟨m, rfl⟩ := Nat.exists_eq_succ_of_ne_zero
        (Nat.ne_zero_of_lt (Nat.lt_of_succ_lt_succ hfuel))
      obtain ⟨r, hrun, hres⟩ := ih (res ++ [e]) m (Nat.lt_of_succ_lt_succ hfuel)
      refine ⟨r, ?_, by simp [hres]⟩
      rw [Loop.run_succ (reconstructNext_skip res hout hunique)]
      exact hrun

/-- An edge is kept or left out wherever it is met, so that no kept edge leaves a node whose
edge is left out. -/
theorem isOutEdge_of_keeps (hunique : fg.uniqueRuntimeOutEdge node = some e)
    (hkeeps : keeps fg front back e = .ok false) (hrun : fg.IsRuntime x)
    (hkept : keeps fg front back x = .ok true) : fg.isOutEdge node x = false := by
  by_contra hout
  have heq := eq_of_uniqueRuntimeOutEdge hunique hrun (Bool.eq_true_of_not_eq_false hout)
  rw [heq, hkeeps] at hkept
  cases hkept

/-- The last edge is kept. -/
theorem exists_cons_of_compressFrom (hne : e ≠ back) (hlast : ∀ f ∈ (e :: es).getLast?, f = back)
    (h : compressFrom fg front back es = .ok it) : ∃ x it', it = x :: it' := by
  cases hes : es.getLast? with
  | none =>
      refine absurd (hlast e ?_) hne
      rw [List.getLast?_cons, hes]
      rfl
  | some f =>
      have hf : f = back := by
        refine hlast f ?_
        rw [List.getLast?_cons, hes]
        rfl
      have hback : back ∈ it :=
        (mem_compressFrom h).2 ⟨hf ▸ List.mem_of_getLast? hes, keeps_back⟩
      exact List.exists_cons_of_ne_nil (List.ne_nil_of_mem hback)

/-- What is left of a walk determines it. -/
theorem compressFrom_compresses (front : Nat) (hrun : ∀ e ∈ es, fg.IsRuntime e)
    (hjoins : es.IsChain fg.Joins)
    (hhead : ∀ e ∈ es.head?, ∃ node, cur = some node ∧ fg.isOutEdge node e = true)
    (hlast : ∀ e ∈ es.getLast?, e = back) :
    ∃ it, compressFrom fg front back es = .ok it ∧ Compresses fg cur it es := by
  induction es generalizing cur with
  | nil => exact ⟨[], rfl, .nil⟩
  | cons e es ih =>
      obtain ⟨node, rfl, hout⟩ := hhead e rfl
      obtain ⟨b, hkeeps⟩ := exists_keeps front back hout
      have hlast' : ∀ f ∈ es.getLast?, f = back := by
        intro f hf
        refine hlast f ?_
        rw [List.getLast?_cons, Option.mem_def.1 hf]
        rfl
      obtain ⟨it, hrest, hcompresses⟩ := ih (fun f hf => hrun f (List.mem_cons_of_mem e hf))
        (List.isChain_cons.1 hjoins).2 (List.isChain_cons.1 hjoins).1 hlast'
      refine ⟨if b then e :: it else it, compressFrom_cons hkeeps hrest, ?_⟩
      cases b with
      | true => exact .keep hout hcompresses
      | false =>
          have hne : e ≠ back := by
            rintro rfl
            rw [keeps_back] at hkeeps
            cases hkeeps
          obtain ⟨x, it, rfl⟩ := exists_cons_of_compressFrom hne hlast hrest
          obtain ⟨hx, hkept⟩ := (mem_compressFrom hrest).1 List.mem_cons_self
          have hunique := uniqueRuntimeOutEdge_of_not_keeps (hrun e List.mem_cons_self) hout hkeeps
          exact .skip (isOutEdge_of_keeps hunique hkeeps (hrun x (List.mem_cons_of_mem e hx)) hkept)
            hunique hcompresses

/-- A walk comes back from its compressed path. -/
theorem compress_lossless (h : fg.Walk p) :
    ∃ es, compress fg p = .ok es ∧
      ∀ fuel, p.length ≤ fuel → reconstructedFullPath fuel fg es = .ok (some p) := by
  obtain ⟨hne, hrun, hjoins⟩ := h
  cases p with
  | nil => exact absurd rfl hne
  | cons front rest =>
      have hlast : ∀ e ∈ rest.getLast?, e = rest.getLastD front := by
        intro e he
        rw [List.getLastD_eq_getLast?, Option.mem_def.1 he]
        rfl
      obtain ⟨it, hit, hcompresses⟩ := compressFrom_compresses front
        (fun e he => hrun e (List.mem_cons_of_mem front he)) (List.isChain_cons.1 hjoins).2
        (List.isChain_cons.1 hjoins).1 hlast
      refine ⟨front :: it, compressFrom_cons keeps_front hit, fun fuel hfuel => ?_⟩
      obtain ⟨r, hloop, hres⟩ := hcompresses.run [front] (Nat.lt_of_succ_le hfuel)
      rw [reconstructedFullPath, hloop]
      exact congrArg (fun l => Except.ok (some l)) hres

/-- A loop of two instructions. -/
def counting : FlowGraph :=
  FlowGraph.build
    [(0x3000, .inst ⟨0x3000, 0x1021, ⟨.ADDi, .RRI, 0xF020, 0x1020⟩, matchInst_increment, false,
      ["LOOP"], "count.asm", 2, "ADD R0, R0, #1"⟩),
     (0x3001, .inst ⟨0x3001, 0x0FFE, ⟨.BR, .CL, 0xF000, 0x0000⟩, by decide, false, [],
      "count.asm", 3, "BRnzp LOOP"⟩)] 0x3000

theorem counting_lossless :
    counting.Walk [2, 0, 1, 0, 1, 0] ∧ compress counting [2, 0, 1, 0, 1, 0] = .ok [2, 0, 0, 0] ∧
      ∃ es, compress counting [2, 0, 1, 0, 1, 0] = .ok es ∧
        ∀ fuel, 6 ≤ fuel → reconstructedFullPath fuel counting es = .ok (some [2, 0, 1, 0, 1, 0]) :=
  have hwalk : counting.Walk [2, 0, 1, 0, 1, 0] :=
    { nonempty := by simp
      runtime := by
        intro e he
        simp only [List.mem_cons, List.not_mem_nil, or_false] at he
        rcases he with rfl | rfl | rfl | rfl | rfl | rfl <;> exact ⟨_, rfl, rfl⟩
      joins := by
        simp only [List.isChain_cons_cons, List.isChain_singleton, and_true]
        refine ⟨?_, ?_, ?_, ?_, ?_⟩ <;> exact ⟨_, rfl, rfl⟩ }
  ⟨hwalk, rfl, compress_lossless hwalk⟩

end Path

end Klc3
