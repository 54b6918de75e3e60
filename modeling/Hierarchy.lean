import Hierarchy.CommandLine.Execution
import Hierarchy.CommandLine.Invocation
import Hierarchy.CommandLine.Message
import Hierarchy.CommandLine.Reader
import Hierarchy.Criteria
import Hierarchy.Decimal.Binary64
import Hierarchy.Decimal.Notation
import Hierarchy.Decimal.Shortest
import Hierarchy.Element
import Hierarchy.Environment
import Hierarchy.Exploration.Concurrent
import Hierarchy.Exploration.Pool
import Hierarchy.Exploration.Source
import Hierarchy.Exploration.VisitRecord
import Hierarchy.Exploration.Walk
import Hierarchy.Failure
import Hierarchy.FileSource
import Hierarchy.FileTree.Change
import Hierarchy.FileTree.Listing
import Hierarchy.FileTree.Node
import Hierarchy.FileTree.Resolve
import Hierarchy.ItemTable
import Hierarchy.Main
import Hierarchy.NativePath
import Hierarchy.NodeGraph
import Hierarchy.Output.Document
import Hierarchy.Output.Json
import Hierarchy.Output.Manifest
import Hierarchy.Output.Mode
import Hierarchy.Output.Number
import Hierarchy.Output.Table
import Hierarchy.Output.Yaml
import Hierarchy.Output.YamlScalar
import Hierarchy.Pipeline
import Hierarchy.Proofs.Criteria
import Hierarchy.Proofs.Criteria.CanonicalText
import Hierarchy.Proofs.Criteria.OneByOne
import Hierarchy.Proofs.Decimal.NumberForm
import Hierarchy.Proofs.Exploration.Chain
import Hierarchy.Proofs.Exploration.EnumerationOrder
import Hierarchy.Proofs.Exploration.FailedListings
import Hierarchy.Proofs.Exploration.Limits
import Hierarchy.Proofs.Exploration.Markers
import Hierarchy.Proofs.Exploration.Placement
import Hierarchy.Proofs.Exploration.Preorder
import Hierarchy.Proofs.Exploration.Reach
import Hierarchy.Proofs.Exploration.Requests
import Hierarchy.Proofs.Exploration.Route
import Hierarchy.Proofs.Exploration.Run
import Hierarchy.Proofs.Exploration.Schedule
import Hierarchy.Proofs.Exploration.Tour
import Hierarchy.Proofs.Exploration.Trace
import Hierarchy.Proofs.Exploration.Turns
import Hierarchy.Proofs.Exploration.Workshop
import Hierarchy.Proofs.FileSource.Listings
import Hierarchy.Proofs.FileSource.SizeOrder
import Hierarchy.Proofs.HierarchyOrder
import Hierarchy.Proofs.InPreorder
import Hierarchy.Proofs.NodeGraph.Built
import Hierarchy.Proofs.NodeGraph.ByNode
import Hierarchy.Proofs.NodeGraph.Handles
import Hierarchy.Proofs.Outcomes
import Hierarchy.Proofs.Output.Alignment
import Hierarchy.Proofs.Pipeline.Calls
import Hierarchy.Proofs.Pipeline.TreeRun
import Hierarchy.Proofs.Ranking.CompleteOrder
import Hierarchy.Proofs.Ranking.Consistency
import Hierarchy.Proofs.Ranking.CriteriaSort
import Hierarchy.Proofs.Ranking.HierarchySort
import Hierarchy.Proofs.Ranking.MissingLevels
import Hierarchy.Proofs.Ranking.RankTrail
import Hierarchy.Proofs.Ranking.SortedTree
import Hierarchy.Proofs.Ranking.Unchanged
import Hierarchy.Proofs.SameKeys
import Hierarchy.Proofs.Settings.Precedence
import Hierarchy.Proofs.Settings.Reload
import Hierarchy.Proofs.Settings.TextVariables
import Hierarchy.Proofs.StableSort
import Hierarchy.Proofs.Text.Numerals
import Hierarchy.Proofs.Text.SmallLetters
import Hierarchy.Proofs.Text.Trimming
import Hierarchy.Proofs.Toml.Documents
import Hierarchy.Proofs.Toml.Quoting
import Hierarchy.Proofs.Toml.Values
import Hierarchy.Proofs.Tree.Connectors
import Hierarchy.Proofs.Tree.DistinctRows
import Hierarchy.Proofs.Tree.HiddenLevels
import Hierarchy.Proofs.Tree.Leaves
import Hierarchy.Proofs.Tree.Level
import Hierarchy.Proofs.Tree.NeededLevels
import Hierarchy.Proofs.Tree.RowOrder
import Hierarchy.Proofs.Tree.Spots
import Hierarchy.Ranking
import Hierarchy.Settings
import Hierarchy.Settings.Environment
import Hierarchy.Settings.Layers
import Hierarchy.Sorting
import Hierarchy.Text.Blank
import Hierarchy.Text.CaseTable
import Hierarchy.Text.Integer
import Hierarchy.Text.LowerCase
import Hierarchy.Text.Split
import Hierarchy.Text.Utf8
import Hierarchy.Text.WordTable
import Hierarchy.Toml.Document
import Hierarchy.Toml.Reader
import Hierarchy.Toml.Scalar
import Hierarchy.Toml.Text
import Hierarchy.Toml.TextReader
import Hierarchy.Toml.Writer
import Hierarchy.Trail
import Hierarchy.Tree.Row
import Hierarchy.Tree.Synthesis
