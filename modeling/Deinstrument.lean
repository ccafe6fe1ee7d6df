import Deinstrument.Batch
import Deinstrument.Batch.Print
import Deinstrument.Code
import Deinstrument.Code.Build
import Deinstrument.Code.Visit
import Deinstrument.Command
import Deinstrument.Command.Run
import Deinstrument.Comment
import Deinstrument.Config
import Deinstrument.Config.File
import Deinstrument.Cut
import Deinstrument.Engine
import Deinstrument.Error
import Deinstrument.FileTree
import Deinstrument.FileTree.Collect
import Deinstrument.Go.Form
import Deinstrument.Go.Grammar
import Deinstrument.Go.Kind
import Deinstrument.Go.Lexeme
import Deinstrument.Go.Node
import Deinstrument.Ignore
import Deinstrument.Ignore.Glob
import Deinstrument.Import
import Deinstrument.Import.Prune
import Deinstrument.JsonValue
import Deinstrument.Location
import Deinstrument.Main
import Deinstrument.Marker
import Deinstrument.Region
import Deinstrument.Report
import Deinstrument.Row
import Deinstrument.Rule
import Deinstrument.Rule.Apply
import Deinstrument.Span
import Deinstrument.Statement
import Deinstrument.Tally
import Deinstrument.Text
import Deinstrument.Text.Alphanumeric
import Deinstrument.Text.Identifier
import Deinstrument.Toml.Document
import Deinstrument.Toml.Quoted
import Deinstrument.Toml.Scalar
import Deinstrument.Toml.Value
import Deinstrument.Proofs.Printing
import Deinstrument.Proofs.Deletion
import Deinstrument.Proofs.Removal
import Deinstrument.Proofs.Closure
import Deinstrument.Proofs.Run
import Deinstrument.Proofs.Marking
import Deinstrument.Proofs.Rescan
import Deinstrument.Proofs.NormalForm
import Deinstrument.Proofs.Division
import Deinstrument.Proofs.Insertion
import Deinstrument.Proofs.Arrangement
import Deinstrument.Proofs.SideBySide
import Deinstrument.Proofs.Independence
import Deinstrument.Proofs.CleanReport
import Deinstrument.Proofs.SecondRuns
import Deinstrument.Proofs.Remainder
import Deinstrument.Proofs.LineBreaks
import Deinstrument.Proofs.SafeRemoval
import Deinstrument.Proofs.Filling
import Deinstrument.Proofs.SinglePass
import Deinstrument.Proofs.Scheduling
import Deinstrument.Proofs.Blanks
import Deinstrument.Proofs.ImportGroups
import Deinstrument.Proofs.ImportTrees
import Deinstrument.Proofs.TopLevel
import Deinstrument.Proofs.WholeLines
import Deinstrument.Proofs.Pruning
import Deinstrument.Proofs.Carving
import Deinstrument.Proofs.PrunedGroups
import Deinstrument.Proofs.StraySemicolons
import Deinstrument.Proofs.DeclarationRemains
import Deinstrument.Proofs.PrunedSource
import Deinstrument.Proofs.Notes
import Deinstrument.Proofs.SpanSequences
import Deinstrument.Proofs.RegionSequences
import Deinstrument.Proofs.Nesting
import Deinstrument.Proofs.Passes
import Deinstrument.Proofs.Stripping
import Deinstrument.Proofs.Unwrapping
import Deinstrument.Proofs.Connections
import Deinstrument.Proofs.DisjointExtents
import Deinstrument.Proofs.UnusedImports
import Deinstrument.Proofs.CallCounts
import Deinstrument.Proofs.OneLevel
import Deinstrument.Proofs.AddedLines
import Deinstrument.Proofs.BlankLines
import Deinstrument.Proofs.QuotedStrings
import Deinstrument.Proofs.SavedConfig
import Deinstrument.Proofs.PackageLists
import Deinstrument.Proofs.PackageNames
import Deinstrument.Proofs.Attribution
import Deinstrument.Proofs.OverlookedMarkers
import Deinstrument.Proofs.CarriedLines
import Deinstrument.Proofs.LocationOrder
import Deinstrument.Proofs.CollectedFiles
