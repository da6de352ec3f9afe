import Klc3.Model.State

/-!
# Searchers

The searchers of `Searcher.h`, first the two stack-based ones that `main` can choose.
The stacks have their top at the head. A state object is named by its uid.
-/

namespace Klc3

/-- `SimpleFILOSearcher` and `PrioritizedFILOSearcher`. -/
inductive Searcher where
  | simpleFILO (normalStates completedStates : List State)
  | prioritizedFILO (s0 s1 completedStates : List State)

namespace Searcher

/-- `getNormalStates()`. -/
def normalStates : Searcher → List State
  | simpleFILO normalStates _ => normalStates
  | prioritizedFILO s0 s1 _ => s0 ++ s1

/-- `getCompletedStates()`. -/
def completedStates : Searcher → List State
  | simpleFILO _ completedStates => completedStates
  | prioritizedFILO _ _ completedStates => completedStates

/-- `fetch()`; null when the searcher is empty. -/
def fetch : Searcher → Option (State × Searcher)
  | simpleFILO [] _ => none
  | simpleFILO (s :: rest) done => some (s, simpleFILO rest done)
  | prioritizedFILO (s :: rest) s1 done => some (s, prioritizedFILO rest s1 done)
  | prioritizedFILO [] (s :: rest) done => some (s, prioritizedFILO [] rest done)
  | prioritizedFILO [] [] _ => none

/-- `push` of one state. -/
def pushOne (searcher : Searcher) (s : State) : Searcher :=
  match searcher with
  | simpleFILO normalStates done =>
    if s.status = .normal then simpleFILO (s :: normalStates) done
    else simpleFILO normalStates (done ++ [s])
  | prioritizedFILO s0 s1 done =>
    if s.status = .normal then
      if s.coveredNewEdge || s.coveredNewSegment then prioritizedFILO (s :: s0) s1 done
      else prioritizedFILO s0 (s :: s1) done
    else prioritizedFILO s0 s1 (done ++ [s])

/-- `push(states)`. -/
def push (searcher : Searcher) (states : List State) : Searcher :=
  states.foldl pushOne searcher

end Searcher

/-- All searchers of `Searcher.h`. -/
inductive BasicSearcher where
  | filo (searcher : Searcher)
  | simpleFIFO (normalStates completedStates : List State)
  | randomPicking (pickedState : Option State) (otherNormalState completedStates : List State)

namespace BasicSearcher

/-- `getNormalStates()`. -/
def normalStates : BasicSearcher → List State
  | filo searcher => searcher.normalStates
  | simpleFIFO normalStates _ => normalStates
  | randomPicking pickedState otherNormalState _ => otherNormalState ++ pickedState.toList

/-- `getCompletedStates()`. -/
def completedStates : BasicSearcher → List State
  | filo searcher => searcher.completedStates
  | simpleFIFO _ completedStates => completedStates
  | randomPicking _ _ completedStates => completedStates

/-- The state at a position is swapped with the last one and taken out. -/
def swapPop (states : List State) (id : Nat) : Option (State × List State) :=
  match states[id]?, states.getLast? with
  | some s, some last => some (s, (states.set id last).dropLast)
  | _, _ => none

/-- `fetch()`, where `rand` is what `std::rand` returns. -/
def fetch (rand : Nat) : BasicSearcher → Option (State × BasicSearcher)
  | filo searcher => searcher.fetch.map fun r => (r.1, filo r.2)
  | simpleFIFO [] _ => none
  | simpleFIFO (s :: rest) done => some (s, simpleFIFO rest done)
  | randomPicking (some s) others done => some (s, randomPicking (some s) others done)
  | randomPicking none others done =>
    (swapPop others (rand % others.length)).map fun r => (r.1, randomPicking (some r.1) r.2 done)

/-- `RandomPickingSearcher::push` of one state, after `lastPickedState` was put aside. -/
def pushOneRandom (lastPickedState : Option State) (searcher : BasicSearcher) (s : State) :
    BasicSearcher :=
  match searcher with
  | randomPicking picked others done =>
    if s.status = .normal then
      if lastPickedState.map State.uid = some s.uid then randomPicking (some s) others done
      else randomPicking picked (others ++ [s]) done
    else randomPicking picked others (done ++ [s])
  | _ => searcher

/-- `push(states)`. -/
def push (searcher : BasicSearcher) (states : List State) : BasicSearcher :=
  match searcher with
  | filo searcher => filo (searcher.push states)
  | simpleFIFO normalStates done =>
    simpleFIFO (normalStates ++ states.filter fun s => s.status = .normal)
      (done ++ states.filter fun s => s.status ≠ .normal)
  | randomPicking picked others done =>
    states.foldl (pushOneRandom picked) (randomPicking none others done)

/-- `completedStates.erase(s)`. -/
def eraseCompleted (searcher : BasicSearcher) (s : State) : BasicSearcher :=
  let rest (states : List State) := states.filter fun t => t.uid ≠ s.uid
  match searcher with
  | filo (.simpleFILO normal done) => filo (.simpleFILO normal (rest done))
  | filo (.prioritizedFILO s0 s1 done) => filo (.prioritizedFILO s0 s1 (rest done))
  | simpleFIFO normal done => simpleFIFO normal (rest done)
  | randomPicking picked others done => randomPicking picked others (rest done)

end BasicSearcher

end Klc3
