import Coupling.Analysis
import Coupling.Classification
import Coupling.Command
import Coupling.Command.Arguments
import Coupling.Config
import Coupling.Config.Overrides
import Coupling.Config.Reader
import Coupling.Discovery
import Coupling.Edge
import Coupling.Error
import Coupling.FileSystem
import Coupling.Graph
import Coupling.Json.Printer
import Coupling.Json.Reader
import Coupling.Json.Value
import Coupling.Main
import Coupling.Outline
import Coupling.Path
import Coupling.Policy
import Coupling.Report.Grouping
import Coupling.Report.Unit
import Coupling.Report.WholeTree
import Coupling.Resolution
import Coupling.Run.Draft
import Coupling.Run.Machine
import Coupling.Run.Outcome
import Coupling.Run.Progress
import Coupling.Run.Schedule
import Coupling.Sorted
import Coupling.Source.Grammar
import Coupling.Source.Lexer
import Coupling.Source.Outline
import Coupling.Source.Rule
import Coupling.Source.Token
import Coupling.Source.Tree
import Coupling.Source.Written
import Coupling.SourceIndex
import Coupling.SourceTree
import Coupling.StandardLibrary
import Coupling.Text.Blank
import Coupling.Text.Dotted
import Coupling.Text.Identifier
import Coupling.Text.Rendering
import Coupling.Text.Utf8
import Coupling.Proofs.Order
import Coupling.Proofs.Report
import Coupling.Proofs.Classification
import Coupling.Proofs.Run.History
import Coupling.Proofs.Run.Accounting
import Coupling.Proofs.Run.Outcome
import Coupling.Proofs.SourceTree
import Coupling.Proofs.Run.Backpressure
import Coupling.Proofs.Draft
import Coupling.Proofs.Run.Aggregation
import Coupling.Proofs.Run.ReceiveOrder
import Coupling.Proofs.Run.Termination
import Coupling.Proofs.Run.SingleUnit
import Coupling.Proofs.Run.FailurePolicy
import Coupling.Proofs.Source.Completeness
import Coupling.Proofs.Source.Heads
import Coupling.Proofs.Source.Walk
import Coupling.Proofs.Source.Reach
import Coupling.Proofs.Source.Address
import Coupling.Proofs.Source.Build
import Coupling.Proofs.Source.Nesting
import Coupling.Proofs.Source.Correspondence
import Coupling.Proofs.ReportHistory
import Coupling.Proofs.TreeAssembly
import Coupling.Proofs.Run.Workers
import Coupling.Proofs.Discovery
import Coupling.Proofs.Resolution
import Coupling.Proofs.Run.Phases
import Coupling.Proofs.Run.Courses
import Coupling.Proofs.Run.Agreement
import Coupling.Proofs.Graph
import Coupling.Proofs.Dot
import Coupling.Proofs.TreeDiscovery
import Coupling.Proofs.Source.Brackets
import Coupling.Proofs.Source.Members
import Coupling.Proofs.IndexGrowth
import Coupling.Proofs.LinkedUnits
import Coupling.Proofs.Declarations
import Coupling.Proofs.OwnTypes
import Coupling.Proofs.Qualification
import Coupling.Proofs.IndexedNames
import Coupling.Proofs.TreeInvariant
import Coupling.Proofs.Erasure
import Coupling.Proofs.ImportTargets
import Coupling.Proofs.Policy
import Coupling.Proofs.Source.Written
import Coupling.Proofs.Source.Fields
import Coupling.Proofs.Drawing
import Coupling.Proofs.GroupingGraph
import Coupling.Proofs.DeclaredNames
import Coupling.Proofs.Snippets
import Coupling.Proofs.TestSources
