import CrateAtlas.Failure
import CrateAtlas.Report.Element

/-!
# Reports on files

Metrics and models of files as documents, and the failures of a run.
-/

namespace CrateAtlas

/-- Counts as a document. -/
def Counts.toDocument (counts : Counts) : Document :=
  .mapping (counts.map fun entry => (entry.1, .int entry.2))

/-- The counts of all kinds as a document. -/
def Counts.byKind (counts : Counts) : Document :=
  .mapping (Kind.all.map fun kind => (kind.name, .int (counts.count kind)))

/-- The metrics of a file as a document. -/
def FileMetrics.toDocument (m : FileMetrics) : Reported Document := do
  let average ← Quantity.toDocument m.complexityAverage
  return .mapping [
    ("total_lines", .int m.totalLines),
    ("lines_of_code", .int m.linesOfCode),
    ("lines_of_comments", .int m.linesOfComments),
    ("blank_lines", .int m.blankLines),
    ("element_count", .int m.elementCount),
    ("kind_counts", Counts.toDocument m.kindCounts),
    ("complexity_total", .int m.complexityTotal),
    ("complexity_max", .int m.complexityMax),
    ("complexity_count", .int m.complexityCount),
    ("complexity_average", average)]

/-- The metrics of a project as a document. -/
def ProjectMetrics.toDocument (m : ProjectMetrics) : Reported Document := do
  let average ← Quantity.toDocument m.complexityAverage
  return .mapping [
    ("total_files", .int m.totalFiles),
    ("total_lines", .int m.totalLines),
    ("lines_of_code", .int m.linesOfCode),
    ("lines_of_comments", .int m.linesOfComments),
    ("total_elements", .int m.totalElements),
    ("kind_counts", Counts.toDocument m.kindCounts),
    ("complexity_total", .int m.complexityTotal),
    ("complexity_max", .int m.complexityMax),
    ("complexity_count", .int m.complexityCount),
    ("complexity_average", average)]

/-- The kinds whose numbers head a report. -/
def headlineKinds : List Kind := [.function, .struct, .enum, .trait]

/-- The numbers of functions, structs, enums and traits. -/
def Counts.headline (counts : Counts) : Document :=
  .list (headlineKinds.map fun kind => .int (counts.count kind))

namespace FileModel

/-- The entries of a file's document. -/
def entries (m : FileModel) : Reported (List (String × Document)) := do
  let elements ← m.elements.mapM Element.toDocument
  let metrics ← m.metrics.toDocument
  return [
    ("path", .text m.path),
    ("relative_path", .text m.relativePath),
    ("content_hash", .text m.contentHash),
    ("elements", .list elements),
    ("imports", .list (m.imports.map ImportRecord.toDocument)),
    ("metrics", metrics),
    ("cross_references", .list (m.references.map Reference.toDocument))]

/-- A file as a document. -/
def toDocument (m : FileModel) : Reported Document :=
  m.entries.map .mapping

/-- The identifiers of the elements of each kind. -/
def byKind (m : FileModel) : Document :=
  .mapping (Kind.all.map fun kind => (kind.name, .texts ((m.ofKind kind).map Element.id)))

/-- A file as a document with the summaries derived from it. -/
def summarized (m : FileModel) : Reported Document :=
  m.entries.map fun entries => .mapping (entries ++ [
    ("resolved_count", .nat m.resolved.length),
    ("by_kind", m.byKind),
    ("counts", Counts.headline m.metrics.kindCounts)])

/-- Some entries of the elements of a file. -/
def projected (m : FileModel) (keys : List String) : Reported Document :=
  (m.elements.mapM (Element.project keys)).map .list

/-- What part of a file a report shows. -/
inductive View where
  | full
  | outline
  | docs
  | signatures
  | complexity
  | imports
  | references
  | metrics
deriving DecidableEq, Repr

/-- A part of a file as a document. -/
def view (m : FileModel) : View → Reported Document
  | .full => m.summarized
  | .outline => m.projected ["id", "kind", "name", "visibility", "hierarchy"]
  | .docs => m.projected ["id", "doc_comments", "attributes"]
  | .signatures => m.projected ["id", "signature", "generic_params", "location"]
  | .complexity => m.projected ["id", "complexity", "complexity_metrics"]
  | .imports => .ok (.list (m.imports.map ImportRecord.toDocument))
  | .references => .ok (.list (m.references.map Reference.toDocument))
  | .metrics => m.metrics.toDocument

end FileModel

/-- The failure of a file as a document. -/
def FileFailure.toDocument (f : FileFailure) : Document :=
  .mapping [("path", .text f.path), ("kind", .text f.kind), ("message", .text f.message)]

/-- A report of failures as a document. -/
def FailureReport.toDocument (r : FailureReport) : Document :=
  .mapping [
    ("successful_count", .int r.successful),
    ("failed_count", .int r.failed),
    ("total_count", .int r.total),
    ("failures", .list (r.failures.map FileFailure.toDocument)),
    ("error_messages", .texts r.messages)]

/-- The share of the files that succeeded. -/
def FailureReport.successRate (r : FailureReport) : Quantity :=
  .mean r.successful r.total

end CrateAtlas
