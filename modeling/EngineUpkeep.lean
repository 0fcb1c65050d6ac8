import EngineUpkeep.Main
import EngineUpkeep.Proofs.Workload.Pool
import EngineUpkeep.Proofs.Workload.Sequential
import EngineUpkeep.Proofs.Workload.Agreement
import EngineUpkeep.Proofs.Report.Issues
import EngineUpkeep.Proofs.Report.Diagnostic
import EngineUpkeep.Proofs.Report.Merge
import EngineUpkeep.Proofs.Workload.Batching
import EngineUpkeep.Proofs.FileTree.Change
import EngineUpkeep.Proofs.Unify.Steps
import EngineUpkeep.Proofs.Unify.LastCopy
import EngineUpkeep.Proofs.Path.Below
import EngineUpkeep.Proofs.FileTree.Below
import EngineUpkeep.Proofs.Unify.Effect
import EngineUpkeep.Proofs.FileTree.Straight
import EngineUpkeep.Proofs.FileTree.Moves
import EngineUpkeep.Proofs.Unify.Standing
import EngineUpkeep.Proofs.Unify.Failed
import EngineUpkeep.Proofs.Unify.BuildList
import EngineUpkeep.Proofs.Unify.Independence
import EngineUpkeep.Proofs.Unify.Order
import EngineUpkeep.Proofs.Analysis.Sources
import EngineUpkeep.Proofs.Report.Line
import EngineUpkeep.Proofs.Workload.Invariance
import EngineUpkeep.Proofs.Analysis.Streams
import EngineUpkeep.Proofs.Path.Fold
import EngineUpkeep.Proofs.Unify.Sequence
import EngineUpkeep.Proofs.Selection.Places
import EngineUpkeep.Proofs.Workload.Account
import EngineUpkeep.Proofs.FileTree.Content
import EngineUpkeep.Proofs.Workload.Uninterrupted
import EngineUpkeep.Proofs.Analysis.Alike
import EngineUpkeep.Proofs.Analysis.Named
import EngineUpkeep.Proofs.Text.Trim
import EngineUpkeep.Proofs.Analyzer.Streams
import EngineUpkeep.Proofs.Unify.Refusal
import EngineUpkeep.Proofs.Text.Search
import EngineUpkeep.Proofs.Text.ByteOrder
import EngineUpkeep.Proofs.Unify.Markers
import EngineUpkeep.Proofs.Selection.Membership
import EngineUpkeep.Proofs.Path.Ends
import EngineUpkeep.Proofs.Selection.Reported
import EngineUpkeep.Proofs.Workload.Progress
import EngineUpkeep.Proofs.Path.Key
import EngineUpkeep.Proofs.Report.Rendering
import EngineUpkeep.Proofs.Text.Decimal
import EngineUpkeep.Proofs.Json.Plain
import EngineUpkeep.Proofs.Json.RoundTrip
import EngineUpkeep.Proofs.Report.Decoding
import EngineUpkeep.Proofs.Analysis.Arguments
import EngineUpkeep.Proofs.Unify.Precondition
import EngineUpkeep.Proofs.Settings.Given
import EngineUpkeep.Proofs.Analyzer.Version
import EngineUpkeep.Proofs.Analyzer.Rank
import EngineUpkeep.Proofs.Analyzer.Lookup
import EngineUpkeep.Proofs.CommandLine.Writing
import EngineUpkeep.Proofs.Path.Stack
import EngineUpkeep.Proofs.Path.Relative
import EngineUpkeep.Proofs.Report.Spelling
import EngineUpkeep.Proofs.Path.Ancestors
import EngineUpkeep.Proofs.Project.Root
