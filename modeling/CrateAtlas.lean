import CrateAtlas.Decimal.Binary
import CrateAtlas.Decimal.Fixed
import CrateAtlas.Decimal.Shortest
import CrateAtlas.Digest.Sha256
import CrateAtlas.Document.Basic
import CrateAtlas.Document.Literal
import CrateAtlas.Element
import CrateAtlas.ElementId
import CrateAtlas.Extraction
import CrateAtlas.Failure
import CrateAtlas.FileModel
import CrateAtlas.FileTree.Basic
import CrateAtlas.FileTree.Discovery
import CrateAtlas.FileTree.Write
import CrateAtlas.Glob.Match
import CrateAtlas.Glob.Pattern
import CrateAtlas.Hierarchy
import CrateAtlas.Import
import CrateAtlas.Item.Basic
import CrateAtlas.Item.Declaration
import CrateAtlas.Item.Docs
import CrateAtlas.Item.Signature
import CrateAtlas.Item.Visibility
import CrateAtlas.Journal
import CrateAtlas.Kind
import CrateAtlas.Manifest
import CrateAtlas.Measure.Branching
import CrateAtlas.Measure.Complexity
import CrateAtlas.Measure.Counts
import CrateAtlas.Measure.Halstead
import CrateAtlas.Measure.Lines
import CrateAtlas.Measure.Metrics
import CrateAtlas.Measure.Quantity
import CrateAtlas.Namespace
import CrateAtlas.Node.Basic
import CrateAtlas.Node.Fault
import CrateAtlas.Node.Grammar
import CrateAtlas.Node.Source
import CrateAtlas.PosixPath
import CrateAtlas.Project.Model
import CrateAtlas.Project.Run
import CrateAtlas.Proofs.AbsolutePath
import CrateAtlas.Proofs.AttachedNotes
import CrateAtlas.Proofs.BranchingPaths
import CrateAtlas.Proofs.Cancellation
import CrateAtlas.Proofs.CanonicalLookup
import CrateAtlas.Proofs.CommentFree
import CrateAtlas.Proofs.CompletionOrder
import CrateAtlas.Proofs.ComplexityBounds
import CrateAtlas.Proofs.CountTables
import CrateAtlas.Proofs.Declared
import CrateAtlas.Proofs.Discovery
import CrateAtlas.Proofs.DocEscapes
import CrateAtlas.Proofs.Documentation
import CrateAtlas.Proofs.ElementId
import CrateAtlas.Proofs.Enclosure
import CrateAtlas.Proofs.FaultIsolation
import CrateAtlas.Proofs.Forest
import CrateAtlas.Proofs.GenericParameters
import CrateAtlas.Proofs.GlobMatch
import CrateAtlas.Proofs.GlobRelation
import CrateAtlas.Proofs.HeaderComments
import CrateAtlas.Proofs.HierarchyRun
import CrateAtlas.Proofs.IdentifierParts
import CrateAtlas.Proofs.ImportAgreement
import CrateAtlas.Proofs.InheritedVisibility
import CrateAtlas.Proofs.Integrity
import CrateAtlas.Proofs.Interleaving
import CrateAtlas.Proofs.JournalScopes
import CrateAtlas.Proofs.LineScanner
import CrateAtlas.Proofs.ListedImports
import CrateAtlas.Proofs.Lookup
import CrateAtlas.Proofs.MetricsRollup
import CrateAtlas.Proofs.ModuleClimb
import CrateAtlas.Proofs.ModulePrivacy
import CrateAtlas.Proofs.ModuleTree
import CrateAtlas.Proofs.NodePath
import CrateAtlas.Proofs.NormalPath
import CrateAtlas.Proofs.Outcome
import CrateAtlas.Proofs.Outermost
import CrateAtlas.Proofs.PathCandidates
import CrateAtlas.Proofs.PathMeasures
import CrateAtlas.Proofs.PathSegments
import CrateAtlas.Proofs.Placement
import CrateAtlas.Proofs.PosixPath
import CrateAtlas.Proofs.Pruning
import CrateAtlas.Proofs.ReferenceOrder
import CrateAtlas.Proofs.ReferenceOrigins
import CrateAtlas.Proofs.Refinement
import CrateAtlas.Proofs.Resolution
import CrateAtlas.Proofs.Restriction
import CrateAtlas.Proofs.RunErrors
import CrateAtlas.Proofs.ScopePath
import CrateAtlas.Proofs.SeparatorCuts
import CrateAtlas.Proofs.SettingsLayout
import CrateAtlas.Proofs.SettingsMerge
import CrateAtlas.Proofs.SettingsReading
import CrateAtlas.Proofs.SignatureText
import CrateAtlas.Proofs.SourceListing
import CrateAtlas.Proofs.SpacedText
import CrateAtlas.Proofs.Spans
import CrateAtlas.Proofs.StandardPlaces
import CrateAtlas.Proofs.StrippedPaths
import CrateAtlas.Proofs.SyntaxFaults
import CrateAtlas.Proofs.TokenTally
import CrateAtlas.Proofs.Traversal
import CrateAtlas.Proofs.TypePriority
import CrateAtlas.Proofs.UsagePlaces
import CrateAtlas.Proofs.UseTree
import CrateAtlas.Proofs.Utf8Cuts
import CrateAtlas.Proofs.Walk
import CrateAtlas.Reference.Basic
import CrateAtlas.Reference.Resolver
import CrateAtlas.Reference.Usage
import CrateAtlas.Report.Element
import CrateAtlas.Report.File
import CrateAtlas.Report.Project
import CrateAtlas.ScopePath.Basic
import CrateAtlas.ScopePath.Candidate
import CrateAtlas.ScopePath.Normal
import CrateAtlas.Settings.Basic
import CrateAtlas.Settings.Check
import CrateAtlas.Settings.Example
import CrateAtlas.Settings.Load
import CrateAtlas.Settings.Yaml
import CrateAtlas.Text.Blank
import CrateAtlas.Text.Digit
import CrateAtlas.Text.Printable
import CrateAtlas.Text.Quoted
import CrateAtlas.Text.Ranges
import CrateAtlas.Text.Search
import CrateAtlas.Text.Utf8
import CrateAtlas.Text.Word
import CrateAtlas.Yaml.Implicit
import CrateAtlas.Yaml.Scalar
