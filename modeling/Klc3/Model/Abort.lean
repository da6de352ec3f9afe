import Mathlib.Init

/-!
# Aborts

The ways in which klc3 stops abruptly: a failed `assert`, a null pointer that is
dereferenced, or `progExit`. Each constructor is one place of the source.
-/

namespace Klc3

inductive Abort where
  /-- `ConstraintManager`: "attempt to add invalid (false) constraint". -/
  | falseConstraint
  /-- `State` copy constructor: "Only normal state should be forked". -/
  | forkNotNormal
  /-- `IssuePackage::getIssueLevel`: "Unknown issue type". -/
  | unknownIssueType
  /-- `Executor`: "Non-continuable error". -/
  | nonContinuable
  /-- `Executor::executeADD`: "Unexpected mul1 structure" and its twin. -/
  | unexpectedMul
  /-- `Executor`: "Immediate address evaluate to no range". -/
  | noRange
  /-- `Executor`: "Expr under initial constraints evaluates to no value!". -/
  | noInitValue
  /-- `castConstant` of an expression that is not a constant. -/
  | castNonConstant
  /-- An expression or an instruction that is null is dereferenced. -/
  | nullDeref
  /-- `MemoryManager::write` reads the kind of a null value stored to MCR. -/
  | nullStoreToMCR
  /-- `State::getReg`: "Use getReg only for R0-R7". -/
  | notGeneralReg
  /-- `FlowGraph::newNode`: "Too many nodes! Increase MAX_NODE_COUNT!". -/
  | tooManyNodes
  /-- `FlowGraph::getNodeByAddr` is asked for the address after xFFFF. -/
  | outOfBounds
  /-- `FlowGraph::getJustCoveredEdge`: "Fail to match covered edge". -/
  | failToMatchCoveredEdge
  /-- `CoverageTracker`: "Not JMP/JSRR node but no edge to PC exists". -/
  | noEdgeToPC
  /-- `Path::reconstructedFullPath`: "Dead end". -/
  | deadEnd
  /-- `Path::reconstructedFullPath`: "Can not reconstruct the path". -/
  | cannotReconstruct
  /-- `SubroutineTracker`: a subroutine that should be known is not. -/
  | unknownSubroutine
  /-- `SubroutineTracker`: "setUpEntryExitPairs for twice". -/
  | setUpTwice
  /-- `SubroutineTracker`: "Color inconsistent". -/
  | colorInconsistent
  /-- The top of an empty stack is read, or an assertion says so. -/
  | emptyStack
  /-- `LoopAnalyzer::analysisSCC`: "Tarjan stack is not empty". -/
  | tarjanStackNotEmpty
  /-- `PruningSearcher`: "Failed to find the SUBROUTINE_VIRTUAL_EDGE". -/
  | noSubroutineVirtualEdge
  /-- `PruningSearcher`: "Unmatched recorded h2x segment". -/
  | unmatchedH2XSegment
  /-- `PruningSearcher`: "Unmatched recorded h2h segment". -/
  | unmatchedH2HSegment
  /-- `PruningSearcher`: "Empty upperPath implies entering multiple levels at the same
  points?". -/
  | emptyUpperPath
  /-- `PruningSearcher`: "Failed to find h2xEdge of the just exited loop". -/
  | noH2XEdge
  /-- `PruningSearcher`: "Should not enter more than one loop level". -/
  | entersTwoLoops
  /-- `Searcher::eraseCompletedStates`: the state is `HALTED` or `BROKEN`. -/
  | eraseNormal
  /-- `StateAllocator::releaseState`: the state is not alive. -/
  | notAlive
  /-- `main`: a fetched state is not `NORMAL`. -/
  | fetchedNotNormal
  /-- `main`: "Unexpected fork" during the warm-up of the gold program. -/
  | unexpectedFork
  /-- `main`: "Missing final constraints". -/
  | missingFinalConstraints
  /-- `VariableInductor`: "Unhandled solver error". -/
  | solverError
  /-- `Lexer::splitNameAndSubscript`: "No subscript". -/
  | noSubscript
  /-- `std::stoi` throws, and exceptions are disabled. -/
  | stoiFailed
  /-- `Lexer::constructSingleConstraint`: "Invalid left expression retrieved". -/
  | invalidLeft
  /-- Text is read past its end. -/
  | readPastEnd
  /-- `progExit()`. -/
  | progExit
  /-- Not a place of the source: a loop did not end within the iterations given. -/
  | outOfFuel
deriving DecidableEq, Repr

end Klc3
