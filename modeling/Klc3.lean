import Klc3.Verification.PossibleValues.Correctness
import Klc3.Verification.CrossChecker.Correctness
import Klc3.Verification.CrossChecker.Memory
import Klc3.Verification.Executor.Terminal
import Klc3.Verification.Executor.Progress
import Klc3.Verification.Machine.Isa
import Klc3.Verification.MainLoop.Partition
import Klc3.Verification.MainLoop.Progress
import Klc3.Verification.MainLoop.Concrete
import Klc3.Verification.MainLoop.ConditionCodes
import Klc3.Verification.Executor.Devices
import Klc3.Verification.Executor.Initial
import Klc3.Verification.Searcher.Protocol
import Klc3.Verification.FlowGraph.Coverage
import Klc3.Verification.FlowGraph.Tracker
import Klc3.Verification.MainLoop.Control
import Klc3.Verification.MainLoop.Coverage
import Klc3.Verification.Loader.Decode
import Klc3.Verification.Solver.Independent
import Klc3.Verification.Executor.Cache
import Klc3.Verification.MainLoop.Runs
import Klc3.Verification.MainLoop.StepFrame
import Klc3.Verification.MainLoop.Code
import Klc3.Verification.FlowGraph.Colors
import Klc3.Verification.FlowGraph.CallStack
import Klc3.Verification.MainLoop.Calls
import Klc3.Verification.FlowGraph.Subroutines
import Klc3.Verification.MainLoop.StaticColors
import Klc3.Verification.MainLoop.WarmUp
import Klc3.Verification.MainLoop.UninitRegs
import Klc3.Verification.MainLoop.Broken
import Klc3.Verification.FlowGraph.Path
import Klc3.Verification.FlowGraph.DuplicateColors
import Klc3.Lib.Dfs
import Klc3.Lib.Tarjan
import Klc3.Verification.FlowGraph.Built
import Klc3.Verification.FlowGraph.Exits
import Klc3.Verification.FlowGraph.RetEdges
import Klc3.Model.SymbolicCommand
import Klc3.Model.CompileIssues
import Klc3.Model.LoopAnalyzer
import Klc3.Verification.FlowGraph.Components
import Klc3.Verification.Loader.Fields
import Klc3.Verification.Loader.Symbolic
import Klc3.Verification.Loader.Constraints
import Klc3.Verification.Loader.Frame
import Klc3.Verification.Loader.CommandLog
import Klc3.Verification.Loader.Initial
import Klc3.Verification.Loader.DataOptions
import Klc3.Verification.Loader.DataFlags
import Klc3.Verification.Loader.Declarations
import Klc3.Verification.Loader.Sequences
import Klc3.Verification.Loader.Labels
import Klc3.Verification.Loader.Strings
import Klc3.Verification.Loader.Reports
import Klc3.Verification.Loader.CompileIssues
import Klc3.Model.VariableInductor
import Klc3.Verification.Generation.VariableInductor
import Klc3.Model.EarlyRelease
import Klc3.Verification.Executor.References
import Klc3.Verification.Searcher.Retention
import Klc3.Lib.Counting
import Klc3.Model.ByteAssignment
import Klc3.Verification.Solver.Bytes
import Klc3.Model.InitialValues
import Klc3.Verification.Solver.Factors
import Klc3.Verification.Solver.InitialValues
import Klc3.Verification.MainLoop.EarlyRelease
